import LoxKit.Proofs.Lexical.Names
import LoxKit.Proofs.Machine.Respelled

/-!
# Machines that run abreast

Two machines run a program and the same program with variables renamed.  They agree
(`Pair.Agrees`) if they have the same frames, which bind like values to the same names, spelled
anew where the frame is marked, and if all else is alike or equal.

Two steps run abreast (`Abreast`) if, from where the machines agree, both succeed with results
that belong together, or both fail alike (`Failure.Respelled`), and the machines agree
afterwards.  What is found by a distance is then found on both sides or on neither
(`Abreast.readAt`, `Abreast.writeReference`), and what is found by its name is global and spelled
as ever.
-/
namespace LoxKit

/-- **Two failures are alike**: errors of the same cause on the same line, or other failures of the
same sort. -/
inductive Failure.Respelled : Failure → Failure → Prop where
  | error {place place' : Token} (cause : RunError) : place'.line = place.line →
    Failure.Respelled (.error place cause) (.error place' cause)
  | stackOverflow : Failure.Respelled .stackOverflow .stackOverflow
  | breach (b b' : Breach) : Failure.Respelled (.breach b) (.breach b')
  | outOfTurns : Failure.Respelled .outOfTurns .outOfTurns

theorem Failure.Respelled.refl (e : Failure) : e.Respelled e := by
  cases e with
  | error place cause => exact .error cause rfl
  | stackOverflow => exact .stackOverflow
  | breach b => exact .breach b b
  | outOfTurns => exact .outOfTurns

/-- **Two machines**, and in which of their frames the variable is renamed. -/
structure Pair where
  marks : FrameId → Bool
  left : Machine
  right : Machine

namespace Pair

/-- The frames with their marks. -/
abbrev marking (t : Pair) : Marking := ⟨t.marks, t.left.frames⟩

/-- The number of frames. -/
abbrev size (t : Pair) : Nat := t.left.frames.frames.size

/-- **The two machines agree.** -/
structure Agrees (R : Renaming) (t : Pair) : Prop where
  /-- No frame encloses the global one, ... -/
  outermost : t.left.frames.enclosing? globalFrame = none
  size_pos : globalFrame < t.size
  /-- ... in which nothing is renamed. -/
  global : t.marks globalFrame = false
  size_eq : t.right.frames.frames.size = t.size
  enclosing : ∀ f, t.right.frames.enclosing? f = t.left.frames.enclosing? f
  /-- Frames bind like values to the same names, spelled as in the frame. -/
  bindings : ∀ f x, Option.Rel (Value.Respelled R t.marking) ((t.left.frames.bindings f).get? x)
    ((t.right.frames.bindings f).get? (R.spell (t.marks f) x))
  fields_size : t.right.fields.size = t.left.fields.size
  fields : ∀ (id : ObjectId) x, Option.Rel (Value.Respelled R t.marking)
    ((t.left.fields[id]?.getD .empty).get? x) ((t.right.fields[id]?.getD .empty).get? x)
  current : t.right.current = t.left.current
  classCount : t.right.classCount = t.left.classCount
  line : t.right.line = t.left.line
  output : t.right.output = t.left.output
  clock : t.right.clock = t.left.clock
  readings : t.right.readings = t.left.readings

/-- **How a step goes on both sides.** -/
structure Goes (R : Renaming) (t t' : Pair) : Prop where
  agrees : t'.Agrees R
  later : t.marking.Later t'.marking
  current : t'.left.current = t.left.current

variable {R : Renaming} {t t' t'' : Pair} {f : FrameId} {marks : Marks}

theorem Goes.refl (h : t.Agrees R) : t.Goes R t := ⟨h, .refl _, rfl⟩

theorem Goes.trans (h : t.Goes R t') (h' : t'.Goes R t'') : t.Goes R t'' :=
  ⟨h'.agrees, h.later.trans h'.later, h'.current.trans h.current⟩

/-- Where a step began, its scopes are still marked as they were. -/
theorem Goes.at_current (h : t.Goes R t') (hat : t.marking.At t.left.current marks) :
    t'.marking.At t'.left.current marks := by
  rw [h.current]
  exact hat.later h.later

/-- A frame so many links outward is marked as the scope as far out. -/
theorem Agrees.mark (h : t.Agrees R) (hat : t.marking.At f marks) {d : Nat} {g : FrameId}
    (hg : t.left.frames.outward? f d = some g) : t.marks g = marks d :=
  Marking.At.mark hat h.global h.outermost hg

/-- A name is bound on both sides or on neither. -/
theorem Agrees.contains (h : t.Agrees R) (f : FrameId) (x : String) :
    (t.right.frames.bindings f).contains (R.spell (t.marks f) x) =
      (t.left.frames.bindings f).contains x := by
  have hx := h.bindings f x
  rw [← Bindings.isSome_get?, ← Bindings.isSome_get?]
  generalize (t.left.frames.bindings f).get? x = v at hx ⊢
  generalize (t.right.frames.bindings f).get? (R.spell (t.marks f) x) = v' at hx ⊢
  cases hx <;> rfl

/-- The frames lie the same way on both sides. -/
theorem Agrees.outward? (h : t.Agrees R) (f : FrameId) (d : Nat) :
    t.right.frames.outward? f d = t.left.frames.outward? f d := by
  induction d generalizing f with
  | zero => rfl
  | succ d ih =>
    rw [Store.outward?, Store.outward?, h.enclosing]
    cases t.left.frames.enclosing? f with
    | none => rfl
    | some g => exact ih g

/-- **A name so many frames outward**, spelled as in the frame there, is located in the same frame
on both sides, or on neither. -/
theorem Agrees.locateAt (h : t.Agrees R) {hops : Int} {x y : String}
    (hy : ∀ g, t.left.frames.outward? f hops.toNat = some g → y = R.spell (t.marks g) x) :
    (∃ g, t.left.frames.locateAt f hops x = .ok g ∧ t.right.frames.locateAt f hops y = .ok g ∧
      y = R.spell (t.marks g) x ∧ (t.left.frames.bindings g).contains x) ∨
    (∃ e e', t.left.frames.locateAt f hops x = .error e ∧
      t.right.frames.locateAt f hops y = .error e' ∧ ∀ z, e ≠ .undefined z ∧ e' ≠ .undefined z) := by
  have hright := h.outward? f hops.toNat
  cases hg : t.left.frames.outward? f hops.toNat with
  | none =>
    refine .inr ⟨.noFrame hops, .noFrame hops, ?_, ?_, by simp⟩
    · simp only [Store.locateAt, Store.ancestor, hg, bind, Except.bind]
    · simp only [Store.locateAt, Store.ancestor, hright, hg, bind, Except.bind]
  | some g =>
    rw [hg] at hright
    have hspell := hy g hg
    have hsame := h.contains g x
    rw [← hspell] at hsame
    cases hx : (t.left.frames.bindings g).contains x with
    | true =>
      exact .inl ⟨g, Store.locateAt_of_contains hg hx,
        Store.locateAt_of_contains hright (hsame.trans hx), hspell, hx⟩
    | false =>
      exact .inr ⟨_, _, Store.locateAt_of_not_contains hg hx,
        Store.locateAt_of_not_contains hright (hsame.trans hx), by simp⟩

/-- **What is read so many frames outward** is alike on both sides, or on neither there. -/
theorem Agrees.getAt (h : t.Agrees R) {hops : Int} {x y : String}
    (hy : ∀ g, t.left.frames.outward? f hops.toNat = some g → y = R.spell (t.marks g) x) :
    (∃ v v', t.left.frames.getAt f hops x = .ok v ∧ t.right.frames.getAt f hops y = .ok v' ∧
      v.Respelled R t.marking v') ∨
    ∃ e e', t.left.frames.getAt f hops x = .error e ∧ t.right.frames.getAt f hops y = .error e' := by
  rcases h.locateAt hy with ⟨g, hleft, hright, rfl, hx⟩ | ⟨e, e', hleft, hright, -⟩
  · have hrel := h.bindings g x
    rw [← Bindings.isSome_get?] at hx
    simp only [Store.getAt, hleft, hright, bind, Except.bind, Store.read]
    generalize (t.left.frames.bindings g).get? x = v at hrel hx ⊢
    generalize (t.right.frames.bindings g).get? (R.spell (t.marks g) x) = v' at hrel ⊢
    cases hrel with
    | none => cases hx
    | some hv => exact .inl ⟨_, _, rfl, rfl, hv⟩
  · refine .inr ⟨e, e', ?_, ?_⟩
    · simp only [Store.getAt, hleft, bind, Except.bind]
    · simp only [Store.getAt, hright, bind, Except.bind]

/-! ## Single changes -/

/-- With another frame current. -/
def setCurrent (t : Pair) (f : FrameId) : Pair :=
  { t with left := { t.left with current := f }, right := { t.right with current := f } }

theorem Agrees.setCurrent (h : t.Agrees R) (f : FrameId) : (t.setCurrent f).Agrees R :=
  { h with current := rfl }

/-- With a new frame. -/
def newFrame (t : Pair) (e : FrameId) (mark : Bool) (b b' : Bindings (Value FrameId)) : Pair where
  marks f := if f = t.size then mark else t.marks f
  left := { t.left with frames := (t.left.frames.new (some e) b).2 }
  right := { t.right with frames := (t.right.frames.new (some e) b').2 }

theorem Agrees.newFrame (h : t.Agrees R) (e : FrameId) (mark : Bool)
    {b b' : Bindings (Value FrameId)}
    (hb : ∀ x, Option.Rel (Value.Respelled R t.marking) (b.get? x) (b'.get? (R.spell mark x))) :
    t.Goes R (t.newFrame e mark b b') := by
  have hlater : t.marking.Later (t.newFrame e mark b b').marking := by
    refine ⟨fun f hf => if_neg (Nat.ne_of_lt hf), ?_, fun f hf => ?_, fun f x hx => ?_⟩
    · show t.left.frames.frames.size ≤ (t.left.frames.new (some e) b).2.frames.size
      rw [Store.size_new]
      omega
    · show (t.left.frames.new (some e) b).2.enclosing? f = t.left.frames.enclosing? f
      rw [Store.enclosing?_new, if_neg (Nat.ne_of_lt hf)]
    · show ((t.left.frames.new (some e) b).2.bindings f).contains x
      rw [Store.bindings_new, if_neg (Nat.ne_of_lt (Store.lt_size_of_contains hx))]
      exact hx
  refine ⟨?_, hlater, rfl⟩
  refine { h with
    outermost := (hlater.enclosing globalFrame h.size_pos).trans h.outermost
    size_pos := Nat.lt_of_lt_of_le h.size_pos hlater.size_le
    global := (hlater.marks globalFrame h.size_pos).trans h.global
    size_eq := ?_
    enclosing := fun f => ?_
    bindings := fun f x => ?_
    fields := fun id x => Value.Respelled.rel_later (h.fields id x) hlater }
  · show (t.right.frames.new (some e) b').2.frames.size =
      (t.left.frames.new (some e) b).2.frames.size
    rw [Store.size_new, Store.size_new, h.size_eq]
  · show (t.right.frames.new (some e) b').2.enclosing? f =
      (t.left.frames.new (some e) b).2.enclosing? f
    rw [Store.enclosing?_new, Store.enclosing?_new, h.size_eq, h.enclosing]
  · show Option.Rel _ (((t.left.frames.new (some e) b).2.bindings f).get? x)
      (((t.right.frames.new (some e) b').2.bindings f).get?
        (R.spell (if f = t.size then mark else t.marks f) x))
    rw [Store.bindings_new, Store.bindings_new, h.size_eq]
    by_cases hf : f = t.size
    · rw [if_pos hf, if_pos hf, if_pos hf]
      exact Value.Respelled.rel_later (hb x) hlater
    · rw [if_neg hf, if_neg hf, if_neg hf]
      exact Value.Respelled.rel_later (h.bindings f x) hlater

/-- The scopes around a new frame. -/
theorem Agrees.at_newFrame (h : t.Agrees R) {e : FrameId} (he : t.marking.At e marks)
    (mark : Bool) {b b' : Bindings (Value FrameId)}
    (hb : ∀ x, Option.Rel (Value.Respelled R t.marking) (b.get? x) (b'.get? (R.spell mark x))) :
    (t.newFrame e mark b b').marking.At t.size (marks.push mark) := by
  have hat := he.later (h.newFrame e mark hb).later
  have henclosing : (t.newFrame e mark b b').marking.frames.enclosing? t.size = some e :=
    (Store.enclosing?_new ..).trans (if_pos rfl)
  have hmark : (t.newFrame e mark b b').marking.marks t.size = mark := if_pos rfl
  have hinside := Marking.At.inside henclosing hat
  rwa [hmark] at hinside

/-- With a name bound in a frame. -/
def define (R : Renaming) (t : Pair) (f : FrameId) (x : String) (v v' : Value FrameId) : Pair where
  marks := t.marks
  left := { t.left with frames := t.left.frames.define f x v }
  right := { t.right with frames := t.right.frames.define f (R.spell (t.marks f) x) v' }

theorem Agrees.define (h : t.Agrees R) (hf : f < t.size) (x : String) {v v' : Value FrameId}
    (hv : v.Respelled R t.marking v') : t.Goes R (t.define R f x v v') := by
  have hlater : t.marking.Later (t.define R f x v v').marking := by
    refine ⟨fun _ _ => rfl, ?_, fun g _ => Store.enclosing?_define .., fun g y hy => ?_⟩
    · exact Nat.le_of_eq (Store.size_define _ _ _ _).symm
    · show ((t.left.frames.define f x v).bindings g).contains y
      rw [Store.bindings_define _ _ _ _ _ hf]
      split
      · rename_i hg
        rw [Bindings.contains_put, ← hg, show (t.left.frames.bindings g).contains y = true from hy,
          Bool.or_true]
      · exact hy
  refine ⟨?_, hlater, rfl⟩
  refine { h with
    outermost := (hlater.enclosing globalFrame h.size_pos).trans h.outermost
    size_pos := Nat.lt_of_lt_of_le h.size_pos hlater.size_le
    size_eq := ?_
    enclosing := fun g => ?_
    bindings := fun g y => ?_
    fields := fun id y => Value.Respelled.rel_later (h.fields id y) hlater }
  · show (t.right.frames.define f _ v').frames.size = (t.left.frames.define f x v).frames.size
    rw [Store.size_define, Store.size_define, h.size_eq]
  · show (t.right.frames.define f _ v').enclosing? g = (t.left.frames.define f x v).enclosing? g
    rw [Store.enclosing?_define, Store.enclosing?_define, h.enclosing]
  · show Option.Rel _ (((t.left.frames.define f x v).bindings g).get? y)
      (((t.right.frames.define f _ v').bindings g).get? (R.spell (t.marks g) y))
    have hf' : f < t.right.frames.frames.size := by rwa [h.size_eq]
    rw [Store.bindings_define _ _ _ _ _ hf, Store.bindings_define _ _ _ _ _ hf']
    by_cases hg : g = f
    · subst hg
      rw [if_pos rfl, if_pos rfl]
      exact Bindings.rel_put (R.spell_injective _)
        (fun z => Value.Respelled.rel_later (h.bindings g z) hlater) (hv.later hlater) x y
    · rw [if_neg hg, if_neg hg]
      exact Value.Respelled.rel_later (h.bindings g y) hlater

/-- With a new object. -/
def newObject (t : Pair) : Pair where
  marks := t.marks
  left := { t.left with fields := t.left.fields.push .empty }
  right := { t.right with fields := t.right.fields.push .empty }

theorem Agrees.newObject (h : t.Agrees R) : t.Goes R t.newObject := by
  refine ⟨{ h with fields_size := ?_, fields := fun id x => ?_ }, .refl _, rfl⟩
  · show (t.right.fields.push .empty).size = (t.left.fields.push .empty).size
    rw [Array.size_push, Array.size_push, h.fields_size]
  · show Option.Rel _ (((t.left.fields.push .empty)[id]?.getD .empty).get? x)
      (((t.right.fields.push .empty)[id]?.getD .empty).get? x)
    rw [Array.getElem?_push, Array.getElem?_push, h.fields_size]
    split
    · exact .none
    · exact h.fields id x

/-- With a field of an object. -/
def setField (t : Pair) (id : ObjectId) (x : String) (v v' : Value FrameId) : Pair where
  marks := t.marks
  left := { t.left with fields := t.left.fields.modify id (·.put x v) }
  right := { t.right with fields := t.right.fields.modify id (·.put x v') }

theorem Agrees.setField (h : t.Agrees R) (id : ObjectId) (x : String) {v v' : Value FrameId}
    (hv : v.Respelled R t.marking v') : t.Goes R (t.setField id x v v') := by
  refine ⟨{ h with fields_size := ?_, fields := fun j y => ?_ }, .refl _, rfl⟩
  · show (t.right.fields.modify id _).size = (t.left.fields.modify id _).size
    rw [Array.size_modify, Array.size_modify, h.fields_size]
  · have hy := h.fields j y
    show Option.Rel _ (((t.left.fields.modify id (·.put x v))[j]?.getD .empty).get? y)
      (((t.right.fields.modify id (·.put x v'))[j]?.getD .empty).get? y)
    rw [Array.getElem?_modify, Array.getElem?_modify]
    by_cases hid : id = j
    · rw [if_pos hid, if_pos hid]
      by_cases hj : j < t.left.fields.size
      · have hj' : j < t.right.fields.size := by rwa [h.fields_size]
        rw [Array.getElem?_eq_getElem hj, Array.getElem?_eq_getElem hj'] at hy ⊢
        simp only [Option.map_some, Option.getD_some] at hy ⊢
        refine Bindings.rel_put (f := fun x => x) Function.injective_id (fun z => ?_) hv x y
        have hz := h.fields j z
        rwa [Array.getElem?_eq_getElem hj, Array.getElem?_eq_getElem hj'] at hz
      · have hj' : ¬j < t.right.fields.size := by rwa [h.fields_size]
        rw [Array.getElem?_eq_none (Nat.le_of_not_lt hj),
          Array.getElem?_eq_none (Nat.le_of_not_lt hj')]
        exact .none
    · rw [if_neg hid, if_neg hid]
      exact hy

/-- With the line of a call. -/
def setLine (t : Pair) (line : Int) : Pair :=
  { t with left := { t.left with line }, right := { t.right with line } }

theorem Agrees.setLine (h : t.Agrees R) (line : Int) : t.Goes R (t.setLine line) :=
  ⟨{ h with line := rfl }, .refl _, rfl⟩

/-- With a reading of the clock. -/
def countReading (t : Pair) : Pair where
  marks := t.marks
  left := { t.left with readings := t.left.readings + 1 }
  right := { t.right with readings := t.right.readings + 1 }

theorem Agrees.countReading (h : t.Agrees R) : t.Goes R t.countReading :=
  ⟨{ h with readings := congrArg (· + 1) h.readings }, .refl _, rfl⟩

/-- With one class more. -/
def countClass (t : Pair) : Pair where
  marks := t.marks
  left := { t.left with classCount := t.left.classCount + 1 }
  right := { t.right with classCount := t.right.classCount + 1 }

theorem Agrees.countClass (h : t.Agrees R) : t.Goes R t.countClass :=
  ⟨{ h with classCount := congrArg (· + 1) h.classCount }, .refl _, rfl⟩

/-- With more output. -/
def write (t : Pair) (text : String) : Pair :=
  { t with left := t.left.write text, right := t.right.write text }

theorem Agrees.write (h : t.Agrees R) (text : String) : t.Goes R (t.write text) :=
  ⟨{ h with output := congrArg (· ++ text) h.output }, .refl _, rfl⟩

end Pair

open Pair

/-! ## Steps -/

/-- **What two steps lead to** belongs together. -/
inductive Pair.Ends (R : Renaming) (t : Pair) {α β : Type} (Q : α → β → Pair → Prop) :
    EStateM.Result Failure Machine α → EStateM.Result Failure Machine β → Prop where
  | ok {a b} {t' : Pair} : t.Goes R t' → Q a b t' → Ends R t Q (.ok a t'.left) (.ok b t'.right)
  | error {e e'} {t' : Pair} : t.Goes R t' → e.Respelled e' →
    Ends R t Q (.error e t'.left) (.error e' t'.right)

/-- **Two steps run abreast.** -/
def Abreast (R : Renaming) (t : Pair) {α β : Type} (x : Run α) (y : Run β)
    (Q : α → β → Pair → Prop) : Prop :=
  t.Agrees R → t.Ends R Q (x t.left) (y t.right)

namespace Abreast

variable {R : Renaming} {t : Pair} {α α' β β' : Type} {x : Run α} {y : Run β}
  {Q : α → β → Pair → Prop}

theorem imp {P : α → β → Pair → Prop} (h : Abreast R t x y Q)
    (hP : ∀ a b t', t.Goes R t' → Q a b t' → P a b t') : Abreast R t x y P := by
  intro ht
  have hx := h ht
  generalize x t.left = r at hx ⊢
  generalize y t.right = r' at hx ⊢
  cases hx with
  | ok hgoes hQ => exact .ok hgoes (hP _ _ _ hgoes hQ)
  | error hgoes he => exact .error hgoes he

/-- **One step after the other.** -/
theorem bind {f : α → Run α'} {g : β → Run β'} {P : α' → β' → Pair → Prop}
    (hx : Abreast R t x y Q)
    (hf : ∀ a b t', t.Goes R t' → Q a b t' → Abreast R t' (f a) (g b) P) :
    Abreast R t (x >>= f) (y >>= g) P := by
  intro ht
  have h := hx ht
  simp only [Bind.bind, EStateM.bind]
  generalize x t.left = r at h ⊢
  generalize y t.right = r' at h ⊢
  cases h with
  | @ok a b t' hgoes hQ =>
    have h' := hf a b t' hgoes hQ hgoes.agrees
    dsimp only
    generalize f a t'.left = r at h' ⊢
    generalize g b t'.right = r' at h' ⊢
    cases h' with
    | ok hgoes' hP => exact .ok (hgoes.trans hgoes') hP
    | error hgoes' he => exact .error (hgoes.trans hgoes') he
  | error hgoes he => exact .error hgoes he

theorem pure {a : α} {b : β} (h : Q a b t) : Abreast R t (Pure.pure a) (Pure.pure b) Q :=
  fun ht => .ok (.refl ht) h

/-- Both sides have values that are alike. -/
theorem value {v v' : Value FrameId} (hv : v.Respelled R t.marking v') :
    Abreast R t (Pure.pure v) (Pure.pure v') fun v v' t' => v.Respelled R t'.marking v' :=
  fun ht => .ok (.refl ht) hv

/-- Both sides end a statement in the same way. -/
theorem completion {c c' : Completion FrameId} (hc : c.Respelled R t.marking c') :
    Abreast R t (Pure.pure c) (Pure.pure c') fun c c' t' => c.Respelled R t'.marking c' :=
  fun ht => .ok (.refl ht) hc

/-- Both sides fail alike. -/
theorem throw {e e' : Failure} (h : e.Respelled e') :
    Abreast R t (MonadExcept.throw e) (MonadExcept.throw e') Q :=
  fun ht => .error (.refl ht) h

theorem fail {place place' : Token} (hline : place'.line = place.line) (cause : RunError) :
    Abreast R t (Run.fail place cause) (Run.fail place' cause) Q :=
  .throw (.error cause hline)

/-- A step that succeeds on both sides, by what it does. -/
theorem step {a : α} {b : β} (t' : Pair) (hx : x t.left = .ok a t'.left)
    (hy : y t.right = .ok b t'.right) (h : t.Agrees R → t.Goes R t' ∧ Q a b t') :
    Abreast R t x y Q := by
  intro ht
  obtain ⟨hgoes, hQ⟩ := h ht
  rw [hx, hy]
  exact .ok hgoes hQ

theorem ite {P P' : Prop} [Decidable P] [Decidable P'] {x' : Run α} {y' : Run β} (hP : P ↔ P')
    (hx : P → Abreast R t x y Q) (hy : ¬P → Abreast R t x' y' Q) :
    Abreast R t (if P then x else x') (if P' then y else y') Q := by
  by_cases h : P
  · rw [if_pos h, if_pos (hP.mp h)]
    exact hx h
  · rw [if_neg h, if_neg fun h' => h (hP.mpr h')]
    exact hy h

/-- Both machines look at themselves. -/
theorem looking {x : Machine → Run α} {y : Machine → Run β}
    (h : t.Agrees R → Abreast R t (x t.left) (y t.right) Q) :
    Abreast R t (MonadState.get >>= x) (MonadState.get >>= y) Q := fun ht => h ht ht

/-- Both machines need the same spare room. -/
theorem needing {spare spare' room : Nat} (hspare : spare' = spare) {x : Unit → Run α}
    {y : Unit → Run β} (h : Abreast R t (x ()) (y ()) Q) :
    Abreast R t (Run.need spare room >>= x) (Run.need spare' room >>= y) Q := by
  subst hspare
  have hneed : Abreast R t (Run.need spare' room) (Run.need spare' room)
      fun _ _ t' => t' = t := by
    unfold Run.need
    split
    · exact .throw .stackOverflow
    · exact .pure rfl
  refine hneed.bind ?_
  rintro _ _ _ - rfl
  exact h

/-- Both machines do something in another frame. -/
theorem inFrame {f : FrameId} (hx : Abreast R (t.setCurrent f) x y Q)
    (hQ : ∀ a b t' g, Q a b t' → Q a b (t'.setCurrent g)) :
    Abreast R t (Run.inFrame f x) (Run.inFrame f y) Q := by
  intro ht
  have h := hx (ht.setCurrent f)
  have hcurrent := ht.current
  unfold Run.inFrame
  -- the step is seen from a pair that only has another frame current
  change (t.setCurrent f).Ends R Q (x { t.left with current := f })
    (y { t.right with current := f }) at h
  dsimp only
  generalize x { t.left with current := f } = r at h ⊢
  generalize y { t.right with current := f } = r' at h ⊢
  cases h with
  | @ok a b t' hgoes hQ' =>
    have hback : t.Goes R (t'.setCurrent t.left.current) :=
      ⟨hgoes.agrees.setCurrent _, hgoes.later, rfl⟩
    dsimp only
    rw [hcurrent]
    exact .ok hback (hQ a b t' _ hQ')
  | @error e e' t' hgoes he =>
    have hback : t.Goes R (t'.setCurrent t.left.current) :=
      ⟨hgoes.agrees.setCurrent _, hgoes.later, rfl⟩
    dsimp only
    rw [hcurrent]
    exact .error hback he

/-! ## Frames and names -/

variable {marks : Marks}

/-- **A new frame** on both sides, which is marked or not. -/
theorem newFrame {e : FrameId} (he : t.marking.At e marks) (mark : Bool)
    {b b' : Bindings (Value FrameId)}
    (hb : ∀ x, Option.Rel (Value.Respelled R t.marking) (b.get? x) (b'.get? (R.spell mark x))) :
    Abreast R t (Run.newFrame e b) (Run.newFrame e b')
      fun f f' t' => f' = f ∧ t'.marking.At f (marks.push mark) := by
  intro ht
  have hright : Run.newFrame e b' t.right = .ok t.size (t.newFrame e mark b b').right :=
    congrArg (EStateM.Result.ok · _) ht.size_eq
  rw [hright]
  exact .ok (ht.newFrame e mark hb) ⟨rfl, ht.at_newFrame he mark hb⟩

/-- A name is bound in a frame, spelled as in that frame. -/
theorem bindIn {f : FrameId} (hf : f < t.size) {x y : String} (hy : y = R.spell (t.marks f) x)
    {v v' : Value FrameId} (hv : v.Respelled R t.marking v') :
    Abreast R t (Run.bindIn f x v) (Run.bindIn f y v')
      fun _ _ t' => (t'.left.frames.bindings f).contains x := by
  subst hy
  refine .step (t.define R f x v v') rfl rfl fun ht => ⟨ht.define hf x hv, ?_⟩
  show ((t.left.frames.define f x v).bindings f).contains x
  rw [Store.bindings_define _ _ _ _ _ hf, if_pos rfl, Bindings.contains_put]
  simp

/-- **A declaration** in the current frame, spelled as in its scope. -/
theorem define (hat : t.marking.At t.left.current marks) {x y : String}
    (hy : y = R.spell (marks 0) x) {v v' : Value FrameId} (hv : v.Respelled R t.marking v') :
    Abreast R t (Run.define x v) (Run.define y v')
      fun _ _ t' => (t'.left.frames.bindings t.left.current).contains x := by
  refine looking fun ht => ?_
  have hmark : t.marks t.left.current = marks 0 := ht.mark hat (d := 0) rfl
  rw [ht.current]
  exact bindIn (hat.lt_size ht.size_pos) (by rw [hmark]; exact hy) hv

/-- **What is found so many frames outward** is found on both sides, or on neither. -/
theorem readAt {hops : Int} {x y : String}
    (hy : t.Agrees R → ∀ g, t.left.frames.outward? t.left.current hops.toNat = some g →
      y = R.spell (t.marks g) x) :
    Abreast R t (Run.readAt hops x) (Run.readAt hops y)
      fun v v' t' => t' = t ∧ v.Respelled R t.marking v' := by
  refine looking fun ht => ?_
  rw [ht.current]
  rcases ht.getAt (hy ht) with ⟨v, v', hleft, hright, hv⟩ | ⟨e, e', hleft, hright⟩
  · rw [hleft, hright]
    exact .pure ⟨rfl, hv⟩
  · rw [hleft, hright]
    exact .throw (.breach _ _)

/-- A global name is read on both sides. -/
theorem readGlobal (n : Token) :
    Abreast R t (get >>= fun m => Run.access n (m.frames.get globalFrame n.lexeme))
      (get >>= fun m => Run.access n (m.frames.get globalFrame n.lexeme))
      fun v v' t' => t' = t ∧ v.Respelled R t.marking v' := by
  refine looking fun ht => ?_
  have hrel := ht.bindings globalFrame n.lexeme
  rw [ht.global, R.spell_false] at hrel
  rw [Store.get_outermost ht.outermost,
    Store.get_outermost ((ht.enclosing globalFrame).trans ht.outermost)]
  generalize (t.left.frames.bindings globalFrame).get? n.lexeme = v at hrel ⊢
  generalize (t.right.frames.bindings globalFrame).get? n.lexeme = v' at hrel ⊢
  cases hrel with
  | none => exact .fail rfl _
  | some hv => exact .pure ⟨rfl, hv⟩

/-- **A reference is read** on both sides. -/
theorem readReference (hat : t.marking.At t.left.current marks) (r : Reference) :
    Abreast R t (Run.readReference r) (Run.readReference (R.reference marks r))
      fun v v' t' => t' = t ∧ v.Respelled R t.marking v' := by
  obtain ⟨n, hops⟩ := r
  cases hops with
  | none => exact readGlobal n
  | some d =>
    -- the frame that is reached is marked as the scope that the name leads to
    refine readAt fun ht g hg => ?_
    rw [Int.toNat_natCast] at hg
    exact congrArg (R.spell · n.lexeme) (ht.mark hat hg).symm

/-- A name that a frame binds is given a new value there. -/
theorem assignFrom {f : FrameId} {n : Token} (hx : (t.left.frames.bindings f).contains n.lexeme)
    (hn : R.spell (t.marks f) n.lexeme = n.lexeme) {v v' : Value FrameId}
    (hv : v.Respelled R t.marking v') :
    Abreast R t (Run.assignFrom f n v) (Run.assignFrom f n v') fun _ _ _ => True := by
  refine looking fun ht => ?_
  have hx' := ht.contains f n.lexeme
  rw [hn, hx] at hx'
  have hleft : t.left.frames.locate f n.lexeme = .ok f := by
    unfold Store.locate Store.holder?
    rw [if_pos hx]
  have hright : t.right.frames.locate f n.lexeme = .ok f := by
    unfold Store.locate Store.holder?
    rw [if_pos hx']
  rw [hleft, hright]
  exact (bindIn (Store.lt_size_of_contains hx) hn.symm hv).imp fun _ _ _ _ _ => trivial

/-- A global name is given a new value on both sides. -/
theorem assignGlobal (n : Token) {v v' : Value FrameId} (hv : v.Respelled R t.marking v') :
    Abreast R t (Run.assignFrom globalFrame n v) (Run.assignFrom globalFrame n v')
      fun _ _ _ => True := by
  intro ht
  have hn : R.spell (t.marks globalFrame) n.lexeme = n.lexeme := by rw [ht.global, R.spell_false]
  cases hx : (t.left.frames.bindings globalFrame).contains n.lexeme with
  | true => exact assignFrom hx hn hv ht
  | false =>
    have hx' := ht.contains globalFrame n.lexeme
    rw [hn, hx] at hx'
    refine looking (fun _ => ?_) ht
    rw [Store.locate_outermost ht.outermost,
      Store.locate_outermost ((ht.enclosing globalFrame).trans ht.outermost), hx, hx']
    exact .fail rfl _

/-- A name that is not where it should be is a breach on both sides. -/
theorem notLocated {n n' : Token} {e e' : AccessFault}
    (hne : ∀ z, e ≠ .undefined z ∧ e' ≠ .undefined z) :
    Abreast R t (Run.access n (.error e : Except AccessFault α))
      (Run.access n' (.error e' : Except AccessFault β)) Q := by
  have hbreach (γ : Type) (n : Token) {e : AccessFault} (he : ∀ z, e ≠ .undefined z) :
      (Run.access n (.error e) : Run γ) = MonadExcept.throw (.breach (.access e)) := by
    cases e with
    | undefined z => exact absurd rfl (he z)
    | _ => rfl
  rw [hbreach α n fun z => (hne z).1, hbreach β n' fun z => (hne z).2]
  exact .throw (.breach _ _)

/-- **A reference is given a new value** on both sides. -/
theorem writeReference (hat : t.marking.At t.left.current marks) (r : Reference)
    {v v' : Value FrameId} (hv : v.Respelled R t.marking v') :
    Abreast R t (Run.writeReference r v) (Run.writeReference (R.reference marks r) v')
      fun _ _ _ => True := by
  obtain ⟨n, hops⟩ := r
  cases hops with
  | none => exact assignGlobal n hv
  | some d =>
    refine looking fun ht => ?_
    rw [ht.current]
    have hspell : ∀ g, t.left.frames.outward? t.left.current (d : Int).toNat = some g →
        R.spell (marks d) n.lexeme = R.spell (t.marks g) n.lexeme := by
      intro g hg
      rw [Int.toNat_natCast] at hg
      rw [ht.mark hat hg]
    show Abreast R t
      (Run.access n (t.left.frames.locateAt t.left.current d n.lexeme) >>= _)
      (Run.access (R.token (marks d) n)
        (t.right.frames.locateAt t.left.current d (R.spell (marks d) n.lexeme)) >>= _) _
    rcases ht.locateAt hspell with ⟨g, hleft, hright, hg, hx⟩ | ⟨e, e', hleft, hright, hne⟩
    · rw [hleft, hright]
      exact (bindIn (Store.lt_size_of_contains hx) hg hv).imp fun _ _ _ _ _ => trivial
    · rw [hleft, hright]
      exact (notLocated (Q := fun _ _ _ => False) hne).bind fun _ _ _ _ h => h.elim

end Abreast
end LoxKit
