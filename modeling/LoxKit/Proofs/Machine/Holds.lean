import LoxKit.Proofs.Machine.Sound

/-!
# The functions that a machine holds

The functions of a machine are the values of its names and fields, and the methods of its classes
and objects.  A run makes new ones of the declarations that it executes and of no others.  So if
all functions that a machine holds have some property (`Machine.Holds`), a step that declares
none keeps it so, and yields nothing else (`Holding`); a class must have such methods
(`Holding.declareClass`).
-/
namespace LoxKit

/-- **A value is made of functions with a property.** -/
def Value.All {σ : Type} (P : FunDecl → Prop) : Value σ → Prop
  | .function f => P f.decl
  | .classValue c | .object _ c => c.All fun f => P f.decl
  | _ => True

/-- **A machine holds only functions with a property.** -/
structure Machine.Holds (P : FunDecl → Prop) (m : Machine) : Prop where
  bound : ∀ f x v, (m.frames.bindings f).get? x = some v → v.All P
  fields : ∀ (id : ObjectId) b, m.fields[id]? = some b → ∀ x v, b.get? x = some v → v.All P

/-- **A step that keeps to functions with a property**, and yields what is said. -/
def Holding {α : Type} (P : FunDecl → Prop) (x : Run α) (Q : α → Prop) : Prop :=
  ∀ m, m.Holds P →
    match x m with
    | .ok a m' => m'.Holds P ∧ Q a
    | .error _ m' => m'.Holds P

variable {P : FunDecl → Prop}

/-! ## Values -/

theorem Value.all_ofLiteral {σ : Type} (v : Literal) : (Value.ofLiteral v : Value σ).All P := by
  cases v <;> trivial

theorem Value.Plain.all {σ : Type} {v : Value σ} (h : v.Plain) : v.All P := by
  cases v <;> trivial

/-! ## Machines -/

namespace Machine.Holds

/-- Before anything has run, there are no functions but those of the language. -/
theorem initial (clock : Nat → Float) : (Machine.initial clock).Holds P := by
  refine ⟨fun f x v hv => ?_, fun id b hb => ?_⟩
  · obtain ⟨-, rfl⟩ := of_get?_initialFrames hv
    trivial
  · simp [Machine.initial] at hb

variable {m : Machine}

theorem of_eq {m' : Machine} (h : m.Holds P) (hframes : m'.frames = m.frames)
    (hfields : m'.fields = m.fields) : m'.Holds P :=
  ⟨by rw [hframes]; exact h.bound, by rw [hfields]; exact h.fields⟩

theorem new (h : m.Holds P) (e : Option FrameId) {b : Bindings (Value FrameId)}
    (hb : ∀ x v, b.get? x = some v → v.All P) :
    Machine.Holds P { m with frames := (m.frames.new e b).2 } := by
  refine ⟨fun f x v hv => ?_, h.fields⟩
  rw [Store.bindings_new] at hv
  split at hv
  · exact hb x v hv
  · exact h.bound f x v hv

theorem define (h : m.Holds P) (f : FrameId) (x : String) {v : Value FrameId} (hv : v.All P) :
    Machine.Holds P { m with frames := m.frames.define f x v } := by
  refine ⟨fun g y u hu => ?_, h.fields⟩
  rcases Store.get?_define hu with rfl | hu
  · exact hv
  · exact h.bound g y u hu

theorem newObject (h : m.Holds P) : Machine.Holds P { m with fields := m.fields.push .empty } :=
  ⟨h.bound, forall_field_push h.fields⟩

theorem setField (h : m.Holds P) (id : ObjectId) (x : String) {v : Value FrameId}
    (hv : v.All P) :
    Machine.Holds P { m with fields := m.fields.modify id (·.put x v) } :=
  ⟨h.bound, forall_field_put h.fields hv⟩

end Machine.Holds

/-! ## Steps -/

namespace Holding

variable {α β : Type} {Q : α → Prop}

theorem pure {a : α} (h : Q a) : Holding P (Pure.pure a) Q := fun _ hm => ⟨hm, h⟩

theorem throw (e : Failure) : Holding P (MonadExcept.throw e : Run α) Q := fun _ hm => hm

theorem fail (place : Token) (cause : RunError) : Holding P (Run.fail place cause : Run α) Q :=
  throw _

theorem bind {x : Run α} {f : α → Run β} {R : β → Prop} (hx : Holding P x Q)
    (hf : ∀ a, Q a → Holding P (f a) R) : Holding P (x >>= f) R := by
  intro m hm
  have h := hx m hm
  simp only [Bind.bind, EStateM.bind]
  cases hxm : x m with
  | ok a m' =>
    rw [hxm] at h
    exact hf a h.2 m' h.1
  | error e m' =>
    rw [hxm] at h
    exact h

theorem get {f : Machine → Run α} (h : ∀ m, m.Holds P → Holding P (f m) Q) :
    Holding P (MonadState.get >>= f) Q := fun m hm => h m hm m hm

theorem modify {g : Machine → Machine} (h : ∀ m, m.Holds P → (g m).Holds P) :
    Holding P (modifyThe Machine g : Run PUnit) fun _ => True := fun m hm => ⟨h m hm, trivial⟩

theorem need (spare room : Nat) : Holding P (Run.need spare room) fun _ => True := by
  unfold Run.need
  split
  · exact throw _
  · exact pure trivial

theorem access (name : Token) {r : Except AccessFault α} (h : ∀ a, r = .ok a → Q a) :
    Holding P (Run.access name r) Q := by
  cases r with
  | ok a => exact pure (h a rfl)
  | error fault => cases fault <;> exact throw _

/-- What an operator yields. -/
theorem ofExcept {r : Except Failure α} (h : ∀ a, r = .ok a → Q a) :
    Holding P (liftExcept r : Run α) Q := by
  cases r with
  | ok a => exact pure (h a rfl)
  | error e => exact throw e

/-! ### Frames -/

theorem newFrame (e : FrameId) {b : Bindings (Value FrameId)}
    (hb : ∀ x v, b.get? x = some v → v.All P) :
    Holding P (Run.newFrame e b) fun _ => True :=
  get fun _ _ => (modify fun _ hm => hm.new (some e) hb).bind fun _ _ => pure trivial

theorem bindIn (f : FrameId) (x : String) {v : Value FrameId} (hv : v.All P) :
    Holding P (Run.bindIn f x v) fun _ => True := modify fun _ hm => hm.define f x hv

theorem define (x : String) {v : Value FrameId} (hv : v.All P) :
    Holding P (Run.define x v) fun _ => True := get fun m _ => bindIn m.current x hv

theorem readAt (hops : Int) (x : String) : Holding P (Run.readAt hops x) (Value.All P) := by
  refine get fun m hm => ?_
  cases h : m.frames.getAt m.current hops x with
  | ok v =>
    obtain ⟨g, hg⟩ := Store.bound_of_getAt h
    exact pure (hm.bound g x v hg)
  | error fault => exact throw _

theorem readReference (r : Reference) : Holding P (Run.readReference r) (Value.All P) := by
  unfold Run.readReference
  cases r.hops with
  | some hops => exact readAt hops _
  | none =>
    refine get fun m hm => access r.name fun v hv => ?_
    obtain ⟨g, hg⟩ := Store.bound_of_get hv
    exact hm.bound g _ v hg

theorem assignFrom (f : FrameId) (name : Token) {v : Value FrameId} (hv : v.All P) :
    Holding P (Run.assignFrom f name v) fun _ => True :=
  get fun _ _ => (access (Q := fun _ => True) name fun _ _ => trivial).bind fun g _ => bindIn g _ hv

theorem writeReference (r : Reference) {v : Value FrameId} (hv : v.All P) :
    Holding P (Run.writeReference r v) fun _ => True := by
  unfold Run.writeReference
  cases r.hops with
  | some hops =>
    exact get fun _ _ => (access (Q := fun _ => True) r.name fun _ _ => trivial).bind
      fun g _ => bindIn g _ hv
  | none => exact assignFrom _ r.name hv

/-! ### Objects and classes -/

theorem bindMethod {f : Closure FrameId} {this : Value FrameId} (hf : P f.decl)
    (hthis : this.All P) : Holding P (Run.bind f this) fun f' => P f'.decl := by
  refine (newFrame f.home fun x v hv => ?_).bind fun _ _ => pure hf
  obtain ⟨-, rfl⟩ := Bindings.of_get?_singleton hv
  exact hthis

theorem newObject {c : ClassValue FrameId} (hc : c.All fun f => P f.decl) :
    Holding P (Run.newObject c) (Value.All P) :=
  get fun _ _ => (modify fun _ hm => hm.newObject).bind fun _ _ => pure hc

theorem setField (id : ObjectId) (x : String) {v : Value FrameId} (hv : v.All P) :
    Holding P (Run.setField id x v) fun _ => True := modify fun _ hm => hm.setField id x hv

theorem readClock : Holding P Run.readClock (Value.All P) :=
  get fun _ _ => (modify (g := fun m => { m with readings := m.readings + 1 })
    fun _ hm => hm.of_eq rfl rfl).bind fun _ _ => pure trivial

theorem property (room : Nat) (id : ObjectId) {c : ClassValue FrameId} (name : Token)
    (hc : c.All fun f => P f.decl) :
    Holding P (Machine.property room id c name) (Value.All P) := by
  refine get fun m hm => ?_
  cases hfield : (m.fields[id]?.getD .empty).get? name.lexeme with
  | some v =>
    refine (need _ _).bind fun _ _ => pure ?_
    cases hb : m.fields[id]? with
    | none =>
      rw [hb] at hfield
      cases hfield
    | some b =>
      rw [hb] at hfield
      exact hm.fields id b hb _ v hfield
  | none =>
    refine (need _ _).bind fun _ _ => ?_
    cases hmethod : c.method? name.lexeme with
    | some f =>
      have hthis : (Value.object id c).All P := hc
      exact (bindMethod (hc.method? hmethod) hthis).bind fun f hf => pure hf
    | none => exact fail _ _

theorem superMethod (room : Nat) (r : Reference) (method : Token) :
    Holding P (Machine.superMethod room r method) (Value.All P) := by
  refine (need _ _).bind fun _ _ => ?_
  cases r.hops with
  | none => exact throw _
  | some hops =>
    refine (readAt _ _).bind fun parent hparent => (readAt _ _).bind fun this hthis => ?_
    cases parent with
    | classValue c =>
      dsimp only
      cases hmethod : c.method? method.lexeme with
      | some f =>
        have hf : P f.decl := ClassValue.All.method? hparent hmethod
        exact (bindMethod hf hthis).bind fun f hf => pure hf
      | none => exact fail _ _
    | _ => exact throw _

/-- **A class is declared** with such methods. -/
theorem declareClass (room : Nat) (name : Token) (superclass : Option Reference)
    {methods : List FunDecl} (h : ∀ d ∈ methods, P d) :
    Holding P (Machine.declareClass room name superclass methods) fun _ => True := by
  have hparent : Holding P (Machine.superclass? room superclass) fun parent =>
      ∀ c ∈ parent, c.All fun f => P f.decl := by
    cases superclass with
    | none => exact pure nofun
    | some r =>
      refine (need _ _).bind fun _ _ => (readReference r).bind fun v hv => ?_
      cases v with
      | classValue c => exact pure (by rintro _ ⟨⟩; exact hv)
      | _ => exact fail _ _
  refine hparent.bind fun parent hparent => (need _ _).bind fun _ _ =>
    (define name.lexeme (v := .nil) trivial).bind fun _ _ => get fun m _ => ?_
  have hclass (frame : FrameId) (number : Nat) : (Value.classValue
      (.of ⟨number, name.lexeme, Machine.methodTable frame methods⟩ parent)).All P := by
    refine ClassValue.All.of (fun x f hf => ?_) hparent
    obtain ⟨d, hd, -, rfl⟩ := Machine.methodTable_get? hf
    exact h d hd
  -- with or without a superclass, the rest is the same in another frame
  have hrest (frame : FrameId) := (need (P := P)
      (if methods.isEmpty then Spare.make else 1 + Spare.make) room).bind fun _ _ =>
    get fun m' _ => (modify (g := fun m => { m with classCount := m.classCount + 1 })
      fun _ hm => hm.of_eq rfl rfl).bind fun _ _ =>
        assignFrom m.current name (hclass frame m'.classCount)
  cases parent with
  | none => exact hrest _
  | some c =>
    refine (need _ _).bind fun _ _ => (newFrame _ fun x v hv => ?_).bind fun frame _ => hrest frame
    obtain ⟨-, rfl⟩ := Bindings.of_get?_singleton hv
    exact hparent c rfl

/-- What a call yields. -/
theorem callResult (room : Nat) (f : Closure FrameId) {c : Completion FrameId}
    (hc : ∀ v, c = .giveBack v → v.All P) :
    Holding P (Machine.callResult room f c) (Value.All P) := by
  unfold Machine.callResult
  split
  · refine (need _ _).bind fun _ _ => get fun m hm => ?_
    cases h : m.frames.getAt f.home 0 "this" with
    | ok v =>
      obtain ⟨g, hg⟩ := Store.bound_of_getAt h
      exact pure (hm.bound g _ v hg)
    | error fault => exact throw _
  · cases c with
    | giveBack v => exact pure (hc v rfl)
    | _ => exact pure trivial

end Holding
end LoxKit
