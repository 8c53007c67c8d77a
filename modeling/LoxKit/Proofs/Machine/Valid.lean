import LoxKit.Proofs.Machine.Later
import LoxKit.Proofs.Machine.Watch
import LoxKit.Proofs.Scope.Settled

/-!
# The invariant of a watched run

What ties a run to the scopes that resolution saw.  Let `V` be the visits of all programs
accepted so far.  A frame is **matched** with a stack of scopes if the chain of frames outward
from it lies in these scopes: each frame was opened for the construct of its scope, and binds
the names that are ready there (`Watched.Matches`).  Then

* a function is at home in a frame that is matched with the scopes around its declaration, and
  the places in its body were visited on top of them (`FunctionOk`, `MethodOk`);
* whatever is bound in a frame or a field is made of such functions (`Watched.Valid`);
* whenever the evaluation of a node that uses a name begins, the run stands in the scopes in
  which resolution visited that node: the current frame is matched with them, and of local
  names it binds just the ready ones (`Watched.Stands`, `Event.Matched`).
-/
namespace LoxKit

open Scope

/-! ## Frames and scopes -/

/-- An opening is that of a scope. -/
def Opening.Opens (o : Opening) : Level → Prop
  | .block body _ => o = .block body
  | .call decl _ => o = .call decl
  | .this site => ∃ decl ∈ site.methods, o = .receiver decl
  | .super site => o = .parent site

/-- What a scope stands for is bound: in that of `super`, a class. -/
def Scope.Level.Bears : Level → Bindings (Value FrameId) → Prop
  | .super _, b => ∃ c, b.get? superName = some (.classValue c)
  | _, _ => True

/-- What is ready in a scope is bound, and `super` to a class. -/
def Scope.Level.BoundIn (l : Level) (b : Bindings (Value FrameId)) : Prop :=
  (∀ x, l.names.get? x = some true → b.contains x) ∧ l.Bears b

/-- **A frame lies in a scope**: it was opened for it, and binds what is ready in it. -/
def Watched.LiesIn (w : Watched) (f : FrameId) (l : Level) : Prop :=
  (∃ o : Opening, .opened f o ∈ w.journal ∧ o.Opens l) ∧ l.BoundIn (w.machine.frames.bindings f)

/-- **A frame is matched with a stack of scopes**, and so are the frames outward. -/
def Watched.Matches (w : Watched) (f : FrameId) (Γ : Stack) : Prop :=
  w.machine.frames.Chain w.LiesIn f Γ

/-- **One watched machine is later than another.** -/
structure Watched.Later (w w' : Watched) : Prop where
  frames : w.machine.frames.Later w'.machine.frames
  journal : w.journal <+: w'.journal

namespace Watched.Later

variable {w w' w'' : Watched} {f : FrameId} {Γ : Stack}

theorem refl (w : Watched) : w.Later w := ⟨.refl _, List.prefix_refl _⟩

theorem trans (h : w.Later w') (h' : w'.Later w'') : w.Later w'' :=
  ⟨h.frames.trans h'.frames, h.journal.trans h'.journal⟩

theorem matches_ (h : w.Later w') (hΓ : w.Matches f Γ) : w'.Matches f Γ := by
  refine Store.Chain.imp hΓ h.frames.enclosing ?_
  rintro g hg l ⟨⟨o, ho, hl⟩, hnames, hsuper⟩
  refine ⟨⟨o, h.journal.subset ho, hl⟩, fun x hx => h.frames.names g x (hnames x hx), ?_⟩
  cases l with
  | super site =>
    obtain ⟨c, hc⟩ := hsuper
    exact ⟨c, (h.frames.super g hg).trans hc⟩
  | _ => trivial

end Watched.Later

/-! ## Values -/

section Values

variable (V : Visit → Prop) (w : Watched)

/-- **A function is at home** where its declaration stood. -/
def FunctionOk (f : Closure FrameId) : Prop :=
  ∃ Γ, w.Matches f.home Γ ∧ f.decl.Shaped ∧ (∀ v ∈ f.decl.visits Γ, V v) ∧
    (f.isInitializer → ∃ site Δ, Γ = .this site :: Δ)

/-- **A method is at home** where the declaration of its class stood. -/
def MethodOk (f : Closure FrameId) : Prop :=
  ∃ site Γ, w.Matches f.home Γ ∧ f.decl.Shaped ∧ f.decl ∈ site.methods ∧
    ∀ v ∈ f.decl.visits (.this site :: Γ), V v

end Values

namespace ClassValue

variable {σ : Type}

/-- All methods of a class and of the classes it inherits from have a property, each with the name
it is found by. -/
def Each (P : String → Closure σ → Prop) : ClassValue σ → Prop
  | .root h => ∀ x f, h.methods.get? x = some f → P x f
  | .derived h s => (∀ x f, h.methods.get? x = some f → P x f) ∧ s.Each P

section Each

variable {P Q : String → Closure σ → Prop} {x : String} {f : Closure σ}

theorem Each.imp (hPQ : ∀ x f, P x f → Q x f) : ∀ {c : ClassValue σ}, c.Each P → c.Each Q
  | .root _, h => fun x f hf => hPQ x f (h x f hf)
  | .derived _ _, h => ⟨fun x f hf => hPQ x f (h.1 x f hf), h.2.imp hPQ⟩

/-- A method that is found is one of the methods. -/
theorem Each.method? : ∀ {c : ClassValue σ}, c.Each P → c.method? x = some f → P x f
  | .root _, h, hf => h x f hf
  | .derived h s, hc, hf => by
    rw [ClassValue.method?] at hf
    rcases Option.or_eq_some_iff.mp hf with hf | ⟨-, hf⟩
    · exact hc.1 x f hf
    · exact hc.2.method? hf

/-- The methods of a class that is made are its own, and those of the superclass. -/
theorem Each.of {h : ClassHead σ} {s : Option (ClassValue σ)}
    (hown : ∀ x f, h.methods.get? x = some f → P x f) (hs : ∀ c ∈ s, c.Each P) :
    (ClassValue.of h s).Each P := by
  cases s with
  | none => exact hown
  | some c => exact ⟨hown, hs c rfl⟩

end Each

/-- All methods of a class and of the classes it inherits from have a property. -/
def All (P : Closure σ → Prop) : ClassValue σ → Prop
  | .root h => ∀ x f, h.methods.get? x = some f → P f
  | .derived h s => (∀ x f, h.methods.get? x = some f → P f) ∧ s.All P

theorem all_iff_each {P : Closure σ → Prop} : ∀ {c : ClassValue σ}, c.All P ↔ c.Each fun _ => P
  | .root _ => Iff.rfl
  | .derived _ _ => and_congr_right' all_iff_each

variable {P Q : Closure σ → Prop}

theorem All.imp (hPQ : ∀ f, P f → Q f) {c : ClassValue σ} (h : c.All P) : c.All Q :=
  all_iff_each.mpr ((all_iff_each.mp h).imp fun _ => hPQ)

/-- The methods of a class that is made are its own, and those of the superclass. -/
theorem All.of {h : ClassHead σ} {s : Option (ClassValue σ)}
    (hown : ∀ x f, h.methods.get? x = some f → P f) (hs : ∀ c ∈ s, c.All P) :
    (ClassValue.of h s).All P :=
  all_iff_each.mpr (.of hown fun c hc => all_iff_each.mp (hs c hc))

/-- A method that is found is one of the methods. -/
theorem All.method? {x : String} {f : Closure σ} {c : ClassValue σ} (h : c.All P)
    (hf : c.method? x = some f) : P f := (all_iff_each.mp h).method? hf

end ClassValue

/-- **A value is made of functions that are at home.** -/
def ValueOk (V : Visit → Prop) (w : Watched) : Value FrameId → Prop
  | .function f => FunctionOk V w f
  | .classValue c | .object _ c => c.All (MethodOk V w)
  | _ => True

/-- What a statement leaves to its surroundings is made of such functions. -/
def CompletionOk (V : Visit → Prop) (w : Watched) : Completion FrameId → Prop
  | .giveBack v => ValueOk V w v
  | _ => True

section Values

variable {V : Visit → Prop} {w w' : Watched}

theorem FunctionOk.later {f : Closure FrameId} (hf : FunctionOk V w f) (h : w.Later w') :
    FunctionOk V w' f := by
  obtain ⟨Γ, hΓ, hrest⟩ := hf
  exact ⟨Γ, h.matches_ hΓ, hrest⟩

theorem MethodOk.later {f : Closure FrameId} (hf : MethodOk V w f) (h : w.Later w') :
    MethodOk V w' f := by
  obtain ⟨site, Γ, hΓ, hrest⟩ := hf
  exact ⟨site, Γ, h.matches_ hΓ, hrest⟩

theorem ValueOk.later {v : Value FrameId} (hv : ValueOk V w v) (h : w.Later w') :
    ValueOk V w' v := by
  cases v with
  | function f => exact FunctionOk.later hv h
  | classValue c => exact ClassValue.All.imp (fun _ hf => MethodOk.later hf h) hv
  | object id c => exact ClassValue.All.imp (fun _ hf => MethodOk.later hf h) hv
  | _ => trivial

theorem valueOk_ofLiteral (v : Literal) : ValueOk V w (.ofLiteral v) := by
  cases v <;> trivial

end Values

/-! ## The invariant -/

/-- **Where a run stands.** -/
structure Watched.Stands (w : Watched) (Γ : Stack) : Prop where
  chain : w.Matches w.machine.current Γ
  /-- What the frame binds is ready. -/
  ready : ∀ l ∈ Γ.head?, ∀ x, (w.machine.frames.bindings w.machine.current).contains x →
    l.names.get? x = some true
  body : Γ.OfBody
  live : w.machine.current < w.machine.frames.frames.size

/-- **The machine stood where resolution did** when a node was noted. -/
def Event.Matched (V : Visit → Prop) (before : Journal) : Event → Prop
  | .opened .. => True
  | .used kind r m => ∃ Γ, V (.use kind r Γ) ∧ Watched.Stands ⟨m, before⟩ Γ
  | .stored r m => ∃ Γ, V (.use .assign r Γ) ∧ Watched.Stands ⟨m, before⟩ Γ

/-- **The invariant of a watched run.** -/
structure Watched.Valid (V : Visit → Prop) (w : Watched) : Prop where
  size_pos : globalFrame < w.machine.frames.frames.size
  bound : ∀ f x v, (w.machine.frames.bindings f).get? x = some v → ValueOk V w v
  fields : ∀ (id : ObjectId) b, w.machine.fields[id]? = some b →
    ∀ x v, b.get? x = some v → ValueOk V w v
  journal : ∀ before e after, w.journal = before ++ e :: after → e.Matched V before

namespace Watched.Valid

variable {V : Visit → Prop} {w : Watched}

/-- What does not touch the frames and the objects keeps the invariant. -/
theorem of_eq (h : w.Valid V) {m : Machine} (hframes : m.frames = w.machine.frames)
    (hfields : m.fields = w.machine.fields) : Watched.Valid V { w with machine := m } := by
  have hlater : w.Later { w with machine := m } :=
    ⟨by rw [hframes]; exact .refl _, List.prefix_refl _⟩
  refine ⟨by rw [hframes]; exact h.size_pos, fun f x v hv => ?_, fun id b hb x v hv => ?_,
    h.journal⟩
  · exact (h.bound f x v (by rw [← hframes]; exact hv)).later hlater
  · exact (h.fields id b (by rw [← hfields]; exact hb) x v hv).later hlater

/-- A new frame that binds good values. -/
theorem new (h : w.Valid V) (e : FrameId) {b : Bindings (Value FrameId)}
    (hb : ∀ x v, b.get? x = some v → ValueOk V w v) :
    Watched.Valid V
      { w with machine := { w.machine with frames := (w.machine.frames.new (some e) b).2 } } := by
  have hlater : w.Later { w with machine := { w.machine with
      frames := (w.machine.frames.new (some e) b).2 } } := ⟨.new .., List.prefix_refl _⟩
  refine ⟨Nat.lt_of_lt_of_le h.size_pos hlater.frames.size_le, fun f x v hv => ?_,
    fun id b hb x v hv => ?_, h.journal⟩
  · rw [Store.bindings_new] at hv
    split at hv
    · exact (hb x v hv).later hlater
    · exact (h.bound f x v hv).later hlater
  · exact (h.fields id b hb x v hv).later hlater

/-- Binding a name to a value that is good afterwards. -/
theorem define (h : w.Valid V) {f : FrameId} {x : String} {v : Value FrameId}
    (hf : f < w.machine.frames.frames.size) (hx : x ≠ superName)
    (hv : ValueOk V
      { w with machine := { w.machine with frames := w.machine.frames.define f x v } } v) :
    Watched.Valid V
      { w with machine := { w.machine with frames := w.machine.frames.define f x v } } := by
  have hlater : w.Later { w with machine := { w.machine with
      frames := w.machine.frames.define f x v } } := ⟨.define _ v hf hx, List.prefix_refl _⟩
  refine ⟨by simpa using h.size_pos, fun g y u hu => ?_, fun id b hb x v hv => ?_, h.journal⟩
  · rw [Store.bindings_define _ _ _ _ _ hf] at hu
    split at hu
    · rw [Bindings.get?_put] at hu
      split at hu
      · cases hu
        exact hv
      · exact (h.bound f y u hu).later hlater
    · exact (h.bound g y u hu).later hlater
  · exact (h.fields id b hb x v hv).later hlater

/-- A new object. -/
theorem newObject (h : w.Valid V) : Watched.Valid V
    { w with machine := { w.machine with fields := w.machine.fields.push .empty } } := by
  have hlater : w.Later { w with machine := { w.machine with
      fields := w.machine.fields.push .empty } } := ⟨.refl _, List.prefix_refl _⟩
  have hfields := fun id b hb x v hv => (h.fields id b hb x v hv).later hlater
  exact ⟨h.size_pos, fun f x v hv => (h.bound f x v hv).later hlater, forall_field_push hfields,
    h.journal⟩

/-- Giving a field a good value. -/
theorem setField (h : w.Valid V) (id : ObjectId) (x : String) {v : Value FrameId}
    (hv : ValueOk V w v) : Watched.Valid V
    { w with machine := { w.machine with
        fields := w.machine.fields.modify id (·.put x v) } } := by
  have hlater : w.Later { w with machine := { w.machine with
      fields := w.machine.fields.modify id (·.put x v) } } := ⟨.refl _, List.prefix_refl _⟩
  have hfields := fun id b hb x v hv => (h.fields id b hb x v hv).later hlater
  exact ⟨h.size_pos, fun f x v hv => (h.bound f x v hv).later hlater,
    forall_field_put hfields (hv.later hlater), h.journal⟩

/-- Noting an event that is as it should be. -/
theorem note (h : w.Valid V) {e : Event} (he : e.Matched V w.journal) :
    Watched.Valid V { w with journal := w.journal ++ [e] } := by
  have hlater : w.Later { w with journal := w.journal ++ [e] } := ⟨.refl _, List.prefix_append _ _⟩
  refine ⟨h.size_pos, fun f x v hv => (h.bound f x v hv).later hlater,
    fun id b hb x v hv => (h.fields id b hb x v hv).later hlater, fun before e' after hj => ?_⟩
  exact Journal.forall_append h.journal he before e' after hj

end Watched.Valid
end LoxKit
