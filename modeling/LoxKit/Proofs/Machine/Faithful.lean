import LoxKit.Proofs.Machine.Operators
import LoxKit.Proofs.Machine.Receivers

/-!
# Chronicles that can be relied on

A chronicle is **faithful** (`Noted.Faithful`) if it accounts for the machine, and each of its
entries is **right** for those in front of it (`Entry.Right`):

* where a name is used, the machine was accounted for;
* a call that is complete was the call of a copy of a method, and has yielded the object that
  the copy is made for if the method is an initializer, or else it was the call of a function
  that is no initializer (`Entry.Yielded`);
* the call of a class that is complete has made an object with the next number, and the one call
  it has made itself is that of the initializer of the class, if there is one (`Entry.Made`).

What stands between the beginning and the end of a call are the entries of complete calls
(`Complete`).  This module says of the single steps that they keep a chronicle faithful
(`Recounts`).
-/
namespace LoxKit

open Scope

/-! ## Complete calls -/

/-- **An entry of no call**: it is neither the beginning nor the end of one. -/
def Entry.OfNoCall : Entry → Prop
  | event _ | bound _ _ _ | declared _ _ => True
  | _ => False

/-- **Entries in which each call that begins is complete**, and none ends that has not begun. -/
inductive Complete : List Entry → Prop where
  | nil : Complete []
  | entry {e : Entry} {es : List Entry} : e.OfNoCall → Complete es → Complete (e :: es)
  | call (f : Closure FrameId) (args : List (Value FrameId)) (v : Value FrameId)
    {inner es : List Entry} : Complete inner → Complete es →
    Complete (.begun f args :: (inner ++ .ended f args v :: es))
  | construction (c : ClassValue FrameId) (args : List (Value FrameId)) (m : Machine)
    (v : Value FrameId) {inner es : List Entry} : Complete inner → Complete es →
    Complete (.making c args m :: (inner ++ .made c args v :: es))

theorem Complete.append {es es' : List Entry} (h : Complete es) (h' : Complete es') :
    Complete (es ++ es') := by
  induction h with
  | nil => exact h'
  | entry he _ ih => exact .entry he ih
  | call f args v hinner _ _ ih =>
    rw [List.cons_append, List.append_assoc, List.cons_append]
    exact .call f args v hinner ih
  | construction c args m v hinner _ _ ih =>
    rw [List.cons_append, List.append_assoc, List.cons_append]
    exact .construction c args m v hinner ih

/-! ## Entries that are right -/

/-- **What the call of a function has yielded**, if it is that of a method: the object that the
method is bound to, if it is an initializer. -/
structure Entry.Yielded (before : List Entry) (f : Closure FrameId) (v : Value FrameId) :
    Prop where
  method : ∀ g i, .bound f.home g i ∈ before →
    f = { g with home := f.home } ∧ (∃ id c, i = .object id c) ∧
      (∃ site c, .declared site c ∈ before ∧ g.decl ∈ site.methods ∧
        c.head.methods.get? g.decl.name.lexeme = some g) ∧
      (g.decl.isInitializer → v = i)
  function : (∀ g i, .bound f.home g i ∉ before) → f.isInitializer = false

/-- **What the call of a class has made and done**: an object with the next number, and one call
of the initializer, if the class has one, which has yielded the object. -/
def Entry.Made (before : List Entry) (c : ClassValue FrameId) (args : List (Value FrameId))
    (v : Value FrameId) : Prop :=
  ∃ start m inner, before = start ++ .making c args m :: inner ∧
    v = .object m.fields.size c ∧
    match c.initializer? with
    | none => inner = []
    | some f => ∃ frame mid, Complete mid ∧
      inner = .bound frame f v :: .begun { f with home := frame } args ::
        (mid ++ [.ended { f with home := frame } args v])

/-- **An entry is right** for the entries in front of it. -/
def Entry.Right (before : List Entry) : Entry → Prop
  | event e =>
    match e with
    | .opened _ _ => True
    | .used _ _ m => Noted.Accounted ⟨m, before⟩
    | .stored _ _ => True
  | begun f args => f.decl.arity = args.length
  | ended f _ v => Yielded before f v
  | making c args m => Noted.Accounted ⟨m, before⟩ ∧ c.arity = args.length
  | made c args v => Made before c args v
  | _ => True

/-- **A run and its chronicle**: the machine is accounted for, and all entries are right. -/
structure Noted.Faithful (n : Noted Entry) : Prop where
  accounted : n.Accounted
  right : ∀ before e after, n.notes = before ++ e :: after → e.Right before

/-- **How a step may go.** -/
structure Noted.Goes (n n' : Noted Entry) : Prop where
  faithful : n'.Faithful
  later : n.Later n'
  current : n'.machine.current = n.machine.current

/-- All calls of a step are complete. -/
def Noted.Completes (n n' : Noted Entry) : Prop := ∃ es, n'.notes = n.notes ++ es ∧ Complete es

namespace Noted

variable {n n' n'' : Noted Entry}

theorem Faithful.goes (h : n.Faithful) : n.Goes n := ⟨h, .refl n, rfl⟩

theorem Goes.trans (h : n.Goes n') (h' : n'.Goes n'') : n.Goes n'' :=
  ⟨h'.faithful, h.later.trans h'.later, h'.current.trans h.current⟩

theorem Completes.refl (n : Noted Entry) : n.Completes n := ⟨[], (List.append_nil _).symm, .nil⟩

theorem Completes.trans (h : n.Completes n') (h' : n'.Completes n'') : n.Completes n'' := by
  obtain ⟨es, hes, hcomplete⟩ := h
  obtain ⟨es', hes', hcomplete'⟩ := h'
  exact ⟨es ++ es', by rw [hes', hes, List.append_assoc], hcomplete.append hcomplete'⟩

/-- **What a call has yielded**, if that of an initializer has yielded what is bound to `this` in
the frame that the initializer is at home in. -/
theorem Accounted.yielded (h : n.Accounted) {f : Closure FrameId} (hf : n.FunctionFrom f)
    {v : Value FrameId}
    (hv : f.isInitializer → (n.machine.frames.bindings f.home).get? thisName = some v) :
    Entry.Yielded n.notes f v where
  method g i hb := by
    have hbinds := h.bound _ g i hb
    have hcopy := hf.copy g i hb
    obtain ⟨site, c, hdeclares⟩ := hbinds.method.declared
    refine ⟨hcopy, hbinds.object,
      ⟨site, c, hdeclares.declared, hdeclares.mem, hdeclares.found⟩, fun hinit => ?_⟩
    have hi : f.isInitializer := by
      rw [hcopy]
      exact hbinds.method.initializer.trans hinit
    exact Option.some.inj ((hv hi).symm.trans hbinds.this)
  function hnone := by
    cases hi : f.isInitializer with
    | false => rfl
    | true =>
      obtain ⟨g, i, hb⟩ := hf.initializer hi
      exact absurd hb (hnone g i)

/-- The last of right entries. -/
theorem Faithful.append (h : n.Faithful) {m : Machine} {e : Entry}
    (hm : Accounted ⟨m, n.notes ++ [e]⟩) (he : e.Right n.notes) :
    Faithful ⟨m, n.notes ++ [e]⟩ := ⟨hm, Journal.forall_append h.right he⟩

/-- A new entry. -/
theorem Faithful.note (h : n.Faithful) {e : Entry} (hsilent : e.Silent) (hright : e.Right n.notes) :
    n.Goes { n with notes := n.notes ++ [e] } :=
  ⟨h.append (h.accounted.note hsilent) hright, .note hsilent, rfl⟩

/-- A change of the machine. -/
theorem Faithful.same (h : n.Faithful) {m : Machine} (hsame : Same n.machine m)
    (hm : Accounted { n with machine := m }) : n.Goes { n with machine := m } :=
  ⟨⟨hm, h.right⟩, hsame.later, hsame.current⟩

end Noted

/-! ## Steps -/

/-- **A step that is recounted faithfully**, and yields what is said. -/
def Recounts {α : Type} (n : Noted Entry) (x : Telling α) (Q : α → Noted Entry → Prop) : Prop :=
  n.Faithful →
    match x n with
    | .ok a n' => n.Goes n' ∧ n.Completes n' ∧ Q a n'
    | .error _ n' => n.Goes n'

namespace Recounts

open Noted

variable {α β : Type} {n : Noted Entry} {Q R : α → Noted Entry → Prop}

theorem pure {a : α} (h : Q a n) : Recounts n (Pure.pure a) Q := fun hn => ⟨hn.goes, .refl n, h⟩

theorem throw (e : Failure) : Recounts n (MonadExcept.throw e) Q := fun hn => hn.goes

/-- What a step may build on. -/
theorem given {x : Telling α} (h : n.Faithful → Recounts n x Q) : Recounts n x Q :=
  fun hn => h hn hn

theorem mono {x : Telling α} (h : Recounts n x Q) (hQR : ∀ a n', n.Goes n' → Q a n' → R a n') :
    Recounts n x R := by
  intro hn
  have hx := h hn
  cases hxn : x n with
  | ok a n' =>
    rw [hxn] at hx
    exact ⟨hx.1, hx.2.1, hQR a n' hx.1 hx.2.2⟩
  | error e n' =>
    rw [hxn] at hx
    exact hx

theorem bind {x : Telling α} {f : α → Telling β} {R : β → Noted Entry → Prop}
    (hx : Recounts n x Q) (hf : ∀ a n', n.Goes n' → Q a n' → Recounts n' (f a) R) :
    Recounts n (x >>= f) R := by
  intro hn
  have h := hx hn
  simp only [Bind.bind, EStateM.bind]
  cases hxn : x n with
  | error e n' =>
    rw [hxn] at h
    exact h
  | ok a n' =>
    rw [hxn] at h
    obtain ⟨hgoes, hcompletes, ha⟩ := h
    have h' := hf a n' hgoes ha hgoes.faithful
    dsimp only
    cases hfa : f a n' with
    | ok b n'' =>
      rw [hfa] at h'
      exact ⟨hgoes.trans h'.1, hcompletes.trans h'.2.1, h'.2.2⟩
    | error e n'' =>
      rw [hfa] at h'
      exact hgoes.trans h'

theorem get {f : Noted Entry → Telling α} (h : n.Faithful → Recounts n (f n) Q) :
    Recounts n (MonadState.get >>= f) Q := fun hn => h hn hn

theorem ite {P : Prop} [Decidable P] {x y : Telling α} (hx : P → Recounts n x Q)
    (hy : ¬P → Recounts n y Q) : Recounts n (if P then x else y) Q := by
  split
  · exact hx ‹_›
  · exact hy ‹_›

/-! ### Steps of the machine -/

/-- A step without entries that leaves the frames and their hidden names. -/
theorem lift {x : Run α} (h : n.Faithful →
    match x n.machine with
    | .ok a m => Same n.machine m ∧ Accounted { n with machine := m } ∧
      Q a { n with machine := m }
    | .error _ m => m = n.machine) : Recounts n (Noting.lift x) Q := by
  intro hn
  have hx := h hn
  unfold Noting.lift
  cases hxm : x n.machine with
  | ok a m =>
    rw [hxm] at hx
    exact ⟨hn.same hx.1 hx.2.1, .refl n, hx.2.2⟩
  | error e m =>
    rw [hxm] at hx
    cases hx
    exact hn.goes

/-- A step that only looks at the machine. -/
theorem reading {x : Run α} (h : n.Faithful →
    match x n.machine with
    | .ok a m => m = n.machine ∧ Q a n
    | .error _ m => m = n.machine) : Recounts n (Noting.lift x) Q := by
  refine lift fun hn => ?_
  have hx := h hn
  cases hxm : x n.machine with
  | ok a m =>
    rw [hxm] at hx
    obtain ⟨rfl, ha⟩ := hx
    exact ⟨.of_eq rfl rfl rfl, hn.accounted, ha⟩
  | error e m =>
    rw [hxm] at hx
    exact hx

theorem fail (place : Token) (cause : RunError) :
    Recounts n (Noting.lift (Run.fail place cause)) Q := .reading fun _ => rfl

/-- A step for which there must be room. -/
theorem needing (spare room : Nat) {x : Unit → Telling α} (h : Recounts n (x ()) Q) :
    Recounts n (Noting.lift (Run.need spare room) >>= x) Q := by
  have hneed : Recounts n (Noting.lift (Run.need spare room)) fun _ n' => n' = n := by
    refine .reading fun _ => ?_
    unfold Run.need
    by_cases hroom : room < spare
    · rw [if_pos hroom]
      rfl
    · rw [if_neg hroom]
      exact ⟨rfl, rfl⟩
  refine hneed.bind ?_
  rintro _ _ - rfl
  exact h

theorem ofExcept {r : Except Failure α} (h : ∀ a, r = .ok a → Q a n) :
    Recounts n (Noting.lift (liftExcept r)) Q := by
  refine .reading fun _ => ?_
  cases r with
  | ok a => exact ⟨rfl, h a rfl⟩
  | error e => rfl

/-- A change that leaves the frames and the objects alone. -/
theorem modify {g : Machine → Machine} (hframes : ∀ m, (g m).frames = m.frames)
    (hcurrent : ∀ m, (g m).current = m.current) (hfields : ∀ m, (g m).fields = m.fields) :
    Recounts n (Noting.lift (modifyThe Machine g)) fun _ _ => True := by
  refine .lift fun hn => ⟨.of_eq (hframes _) (hcurrent _) (hfields _), ?_, trivial⟩
  refine hn.accounted.same (.of_eq (hframes _) (hcurrent _) (hfields _)) (fun f x v hv => ?_)
    fun id b hb x v hv => ?_
  · rw [hframes] at hv
    exact hn.accounted.values f x v hv
  · rw [hfields] at hb
    exact hn.accounted.fields id b hb x v hv

/-- A value that is read at a distance. -/
theorem readAt (hops : Int) (x : String) :
    Recounts n (Noting.lift (Run.readAt hops x)) fun v n' => n' = n ∧
      ∃ f, (n.machine.frames.bindings f).get? x = some v := by
  refine .reading fun _ => ?_
  unfold Run.readAt
  rw [Run.get_bind]
  cases h : n.machine.frames.getAt n.machine.current hops x with
  | ok v => exact ⟨rfl, rfl, Store.bound_of_getAt h⟩
  | error e => rfl

theorem readReference (r : Reference) :
    Recounts n (Noting.lift (Run.readReference r)) fun v n' => n' = n ∧ n.ValueFrom v := by
  unfold Run.readReference
  cases r.hops with
  | some hops =>
    refine .given fun hn => (readAt hops r.name.lexeme).mono ?_
    rintro v _ - ⟨rfl, f, hv⟩
    exact ⟨rfl, hn.accounted.values f _ v hv⟩
  | none =>
    refine .reading fun hn => ?_
    dsimp only
    rw [Run.get_bind]
    cases h : n.machine.frames.get globalFrame r.name.lexeme with
    | ok v =>
      obtain ⟨f, hv⟩ := Store.bound_of_get h
      exact ⟨rfl, rfl, hn.accounted.values f _ v hv⟩
    | error e => cases e <;> rfl

/-- Giving a name a value, in whichever frame. -/
theorem bindIn (f : FrameId) {x : Token} (hx : x.IsName) {v : Value FrameId}
    (hv : n.ValueFrom v) : Recounts n (Noting.lift (Run.bindIn f x.lexeme v)) fun _ _ => True :=
  .lift fun hn => ⟨.define n.machine f hx v, hn.accounted.define f hx hv, trivial⟩

theorem define {x : Token} (hx : x.IsName) {v : Value FrameId} (hv : n.ValueFrom v) :
    Recounts n (Noting.lift (Run.define x.lexeme v)) fun _ _ => True :=
  bindIn n.machine.current hx hv

/-- Giving a name a value in the frame in which it is found. -/
theorem assign {x : Token} (hx : x.IsName) {v : Value FrameId} (hv : n.ValueFrom v)
    (place : Machine → Except AccessFault FrameId) :
    Recounts n (Noting.lift (do
      let g ← Run.access x (place (← MonadState.get))
      Run.bindIn g x.lexeme v)) fun _ _ => True := by
  refine .lift fun hn => ?_
  rw [Run.get_bind]
  cases place n.machine with
  | ok g => exact ⟨.define n.machine g hx v, hn.accounted.define g hx hv, trivial⟩
  | error e => cases e <;> rfl

theorem assignFrom (f : FrameId) {x : Token} (hx : x.IsName) {v : Value FrameId}
    (hv : n.ValueFrom v) : Recounts n (Noting.lift (Run.assignFrom f x v)) fun _ _ => True :=
  assign hx hv fun m => m.frames.locate f x.lexeme

theorem writeReference {r : Reference} (hr : r.name.IsName) {v : Value FrameId}
    (hv : n.ValueFrom v) : Recounts n (Noting.lift (Run.writeReference r v)) fun _ _ => True := by
  unfold Run.writeReference
  cases r.hops with
  | some hops => exact assign hr hv fun m => m.frames.locateAt m.current hops r.name.lexeme
  | none => exact assignFrom globalFrame hr hv

/-- A new object. -/
theorem newObject {c : ClassValue FrameId} (hc : n.ClassFrom c) :
    Recounts n (Noting.lift (Run.newObject c)) fun v n' =>
      n'.notes = n.notes ∧ v = .object n.machine.fields.size c ∧ n'.ValueFrom v := by
  refine .lift fun hn => ⟨.newObject n.machine, hn.accounted.newObject, rfl, rfl, ?_, ?_⟩
  · show n.machine.fields.size < (n.machine.fields.push .empty).size
    rw [Array.size_push]
    exact Nat.lt_succ_self _
  · exact hc.later (Same.newObject n.machine).later

theorem setField (id : ObjectId) (x : String) {v : Value FrameId} (hv : n.ValueFrom v) :
    Recounts n (Noting.lift (Run.setField id x v)) fun _ _ => True :=
  .lift fun hn => ⟨.setField n.machine id x v, hn.accounted.setField id x hv, trivial⟩

theorem readClock : Recounts n (Noting.lift Run.readClock) fun v n' => n'.ValueFrom v := by
  refine .lift fun hn => ⟨.of_eq rfl rfl rfl, ?_, trivial⟩
  exact hn.accounted.same (.of_eq rfl rfl rfl) hn.accounted.values hn.accounted.fields

/-! ### Entries and frames -/

/-- An entry of no call. -/
theorem note {entry : Machine → Entry} (hsilent : (entry n.machine).Silent)
    (hnoCall : (entry n.machine).OfNoCall)
    (hright : n.Faithful → (entry n.machine).Right n.notes) :
    Recounts n (Telling.note entry) fun _ n' =>
      n' = { n with notes := n.notes ++ [entry n.machine] } :=
  fun hn => ⟨hn.note hsilent (hright hn), ⟨_, rfl, .entry hnoCall .nil⟩, rfl⟩

/-- The use of a name. -/
theorem used (kind : UseKind) (r : Reference) :
    Recounts n (Telling.observe (.used kind r)) fun _ _ => True := by
  have hsilent : (Entry.event (.used kind r n.machine)).Silent := fun _ _ h => by cases h
  exact Recounts.mono (.note hsilent trivial fun hn => hn.accounted) fun _ _ _ _ => trivial

/-- A value is about to be stored. -/
theorem stored (r : Reference) : Recounts n (Telling.observe (.stored r)) fun _ _ => True := by
  have hsilent : (Entry.event (.stored r n.machine)).Silent := fun _ _ h => by cases h
  exact Recounts.mono (.note hsilent trivial fun _ => trivial) fun _ _ _ _ => trivial

/-- **Entries around a call** that has begun rightly and ends rightly. -/
theorem between {before : Machine → Entry} {behind : Value FrameId → Entry}
    {x : Telling (Value FrameId)} (hsilent : ∀ m, (before m).Silent)
    (hsilent' : ∀ v, (behind v).Silent)
    (hcall : ∀ m v mid, Complete mid → Complete (before m :: (mid ++ [behind v])))
    (hbefore : n.Faithful → (before n.machine).Right n.notes)
    (hx : Recounts { n with notes := n.notes ++ [before n.machine] } x fun v n' =>
      (behind v).Right n'.notes ∧ n'.ValueFrom v) :
    Recounts n (Telling.between before behind x) fun v n' => n'.ValueFrom v ∧
      ∃ mid, Complete mid ∧
        n'.notes = n.notes ++ before n.machine :: (mid ++ [behind v]) := by
  intro hn
  have hgoes := hn.note (hsilent n.machine) (hbefore hn)
  have hx := hx hgoes.faithful
  have hbetween : Telling.between before behind x n =
      match x { n with notes := n.notes ++ [before n.machine] } with
      | .ok v n' => .ok v { n' with notes := n'.notes ++ [behind v] }
      | .error e n' => .error e n' := by
    show (x >>= fun a => Telling.note (fun _ => behind a) >>= fun _ => Pure.pure a)
      { n with notes := n.notes ++ [before n.machine] } = _
    simp only [Bind.bind, EStateM.bind]
    cases x { n with notes := n.notes ++ [before n.machine] } <;> rfl
  rw [hbetween]
  cases hxn : x { n with notes := n.notes ++ [before n.machine] } with
  | error e n' =>
    rw [hxn] at hx
    exact hgoes.trans hx
  | ok v n' =>
    rw [hxn] at hx
    obtain ⟨hgoes', ⟨mid, hmid, hcomplete⟩, hright, hv⟩ := hx
    have hgoes'' := hgoes'.faithful.note (hsilent' v) hright
    have hnotes : n'.notes ++ [behind v] =
        n.notes ++ before n.machine :: (mid ++ [behind v]) := by
      rw [hmid]
      simp
    exact ⟨hgoes.trans (hgoes'.trans hgoes''), ⟨_, hnotes, hcall _ v mid hcomplete⟩,
      hv.later hgoes''.later, mid, hcomplete, hnotes⟩

/-- A new frame. -/
theorem newFrame {entry : FrameId → Entry} {o : Opening} {home : FrameId}
    {b : Bindings (Value FrameId)}
    (h : n.Faithful → n.Admits (entry n.machine.frames.frames.size) o home b) :
    Recounts n (Telling.newFrame entry home b) fun f n' =>
      f = n.machine.frames.frames.size ∧
        n' = n.opening (entry n.machine.frames.frames.size) home b := by
  intro hn
  have hadmits := h hn
  obtain ⟨hright, hnoCall⟩ : (entry n.machine.frames.frames.size).Right n.notes ∧
      (entry n.machine.frames.frames.size).OfNoCall := by
    have hevent := hadmits.event
    cases he : entry n.machine.frames.frames.size with
    | event e =>
      rw [he] at hevent
      cases hevent
      exact ⟨trivial, trivial⟩
    | bound f g i => exact ⟨trivial, trivial⟩
    | _ =>
      rw [he] at hevent
      cases hevent
  exact ⟨⟨hn.append (hadmits.accounted hn.accounted) hright, hadmits.later, rfl⟩,
    ⟨_, rfl, .entry hnoCall .nil⟩, rfl, rfl⟩

/-- **A method is bound to an object.** -/
theorem bindMethod {g : Closure FrameId} (hg : n.MethodFrom g) {this : Value FrameId}
    (hthis : n.ValueFrom this) (hobject : ∃ id c, this = .object id c) :
    Recounts n (Telling.bindMethod g this) fun f n' =>
      n'.FunctionFrom f ∧ ∃ frame, f = { g with home := frame } ∧
        n'.notes = n.notes ++ [.bound frame g this] := by
  have hadmits := Admits.ofMethod hg hthis hobject
  refine .given fun hn => .bind (newFrame fun _ => hadmits) ?_
  rintro f n' - ⟨rfl, rfl⟩
  refine .pure ⟨?_, _, rfl, rfl⟩
  have hnew : (n.opening (.bound n.machine.frames.frames.size g this) g.home
      (.ofList [(thisName, this)])).Bound n.machine.frames.frames.size g this :=
    hadmits.bound_iff.mpr (.inr ⟨rfl, rfl⟩)
  refine ⟨(hadmits.accounted hn.accounted).bound_lt hnew, hg.shaped, fun g' i hb => ?_,
    fun _ => ⟨g, this, hnew⟩⟩
  rcases hadmits.bound_iff.mp hb with hb | ⟨-, he⟩
  · exact absurd (hn.accounted.bound_lt hb) (Nat.lt_irrefl _)
  · cases he
    rfl

/-- The value of a call. -/
theorem callResult (room : Nat) {f : Closure FrameId} {c : Completion FrameId}
    (hf : n.FunctionFrom f) (hc : n.CompletionFrom c) :
    Recounts n (Noting.lift (Machine.callResult room f c)) fun v n' =>
      Entry.Yielded n'.notes f v ∧ n'.ValueFrom v := by
  refine .reading fun hn => ?_
  unfold Machine.callResult
  cases hi : f.isInitializer with
  | true =>
    obtain ⟨g, i, hb⟩ := hf.initializer hi
    have hthis := (hn.accounted.bound _ g i hb).this
    rw [if_pos rfl]
    unfold Run.need
    by_cases hroom : room < Spare.initialized
    · rw [if_pos hroom]
      rfl
    · have hread : n.machine.frames.getAt f.home 0 "this" = .ok i :=
        Store.getAt_of_bound (d := 0) rfl hthis
      rw [if_neg hroom, pure_bind, Run.get_bind, hread]
      exact ⟨rfl, hn.accounted.yielded hf fun _ => hthis, hn.accounted.values _ _ i hthis⟩
  | false =>
    have hyielded (v : Value FrameId) : Entry.Yielded n.notes f v :=
      hn.accounted.yielded hf fun h => by rw [hi] at h; cases h
    cases c with
    | giveBack v => exact ⟨rfl, hyielded v, hc⟩
    | normal | leave => exact ⟨rfl, hyielded .nil, trivial⟩

/-- A step in another frame for names of the program. -/
theorem inFrame {f : FrameId} (hf : n.Ordinary f) {x : Telling (Completion FrameId)}
    (hx : Recounts { n with machine := { n.machine with current := f } } x
      fun c n' => n'.CompletionFrom c) :
    Recounts n (Noting.inFrame f x) fun c n' => n'.CompletionFrom c := by
  intro hn
  -- on the way back the frame that was current is so again, and it still is one for names
  have hgoes {n' : Noted Entry}
      (h : Noted.Goes { n with machine := { n.machine with current := f } } n') :
      n.Goes { n' with machine := { n'.machine with current := n.machine.current } } := by
    have hlater := ((Later.enter n f).trans h.later).trans (.enter n' n.machine.current)
    exact ⟨⟨h.faithful.accounted.enter (hn.accounted.current.later
      ((Later.enter n f).trans h.later)), h.faithful.right⟩, hlater, rfl⟩
  have h := hx ⟨hn.accounted.enter hf, hn.right⟩
  unfold Noting.inFrame
  dsimp only
  cases hxn : x { n with machine := { n.machine with current := f } } with
  | ok c n' =>
    rw [hxn] at h
    exact ⟨hgoes h.1, h.2.1, h.2.2.later (.enter n' _)⟩
  | error e n' =>
    rw [hxn] at h
    exact hgoes h

/-! ### Loops -/

theorem repeatWhile {t : Telling (Value FrameId)} {b : Telling (Completion FrameId)}
    (ht : ∀ n, Recounts n t fun _ _ => True)
    (hb : ∀ n, Recounts n b fun c n' => n'.CompletionFrom c) (turns : Nat) (n : Noted Entry) :
    Recounts n (Run.repeatWhile t b turns) fun c n' => n'.CompletionFrom c := by
  induction turns generalizing n with
  | zero => exact .throw _
  | succ turns ih =>
    refine (ht n).bind fun v n₁ _ _ => .ite (fun _ => ?_) fun _ => .pure trivial
    refine (hb n₁).bind fun c n₂ _ hc => ?_
    cases c with
    | normal => exact ih n₂
    | leave => exact .pure trivial
    | giveBack v => exact .pure hc

end Recounts
end LoxKit
