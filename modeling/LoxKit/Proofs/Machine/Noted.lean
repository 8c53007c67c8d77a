import LoxKit.Machine.Eval

/-!
# Runs with notes

A run may be told with notes: the machine goes on as before, and some of its steps leave a note
behind.  A noted step shows a step if it is that step once the notes are gone (`Noting.Shows`).
-/
namespace LoxKit

/-- **A machine with the notes of its run** so far, in order. -/
structure Noted (ε : Type) where
  machine : Machine
  notes : List ε := []

/-- A step that may leave notes. -/
abbrev Noting (ε : Type) := EStateM Failure (Noted ε)

namespace Noting

variable {ε α β : Type}

/-- A step in which there is nothing to note. -/
def lift (step : Run α) : Noting ε α := fun n =>
  match step n.machine with
  | .ok a m => .ok a { n with machine := m }
  | .error e m => .error e { n with machine := m }

instance : MonadLift Run (Noting ε) := ⟨lift⟩

/-- Leaves a note. -/
def note (e : ε) : Noting ε Unit := modify fun n => { n with notes := n.notes ++ [e] }

/-- Runs a step in another frame. -/
def inFrame (f : FrameId) (step : Noting ε α) : Noting ε α := fun n =>
  let before := n.machine.current
  match step { n with machine := { n.machine with current := f } } with
  | .ok a n => .ok a { n with machine := { n.machine with current := before } }
  | .error e n => .error e { n with machine := { n.machine with current := before } }

/-- What is left of a result without the notes. -/
def unnoted : EStateM.Result Failure (Noted ε) α → EStateM.Result Failure Machine α
  | .ok a n => .ok a n.machine
  | .error e n => .error e n.machine

/-- **A noted step shows a step**: it is that step but for the notes. -/
def Shows (x : Noting ε α) (y : Run α) : Prop := ∀ n, unnoted (x n) = y n.machine

namespace Shows

theorem lift (y : Run α) : Shows (Noting.lift y : Noting ε α) y := by
  intro n
  unfold Noting.lift
  cases y n.machine <;> rfl

theorem pure (a : α) : Shows (Pure.pure a : Noting ε α) (Pure.pure a) := fun _ => rfl

theorem throw (e : Failure) :
    Shows (MonadExcept.throw e : Noting ε α) (MonadExcept.throw e) := fun _ => rfl

theorem bind {x : Noting ε α} {y : Run α} {f : α → Noting ε β} {g : α → Run β}
    (hx : Shows x y) (hf : ∀ a, Shows (f a) (g a)) : Shows (x >>= f) (y >>= g) := by
  intro n
  have h := hx n
  simp only [Bind.bind, EStateM.bind, ← h]
  cases x n with
  | ok a n' => exact hf a n'
  | error e n' => rfl

/-- A note shows nothing. -/
theorem note {e : ε} {x : Unit → Noting ε α} {y : Run α} (hx : Shows (x ()) y) :
    Shows (Noting.note e >>= x) y :=
  fun n => hx { n with notes := n.notes ++ [e] }

/-- Nor does a note behind a step, of what it yields. -/
theorem noteBehind {x : Noting ε α} {y : Run α} (e : α → ε) (hx : Shows x y) :
    Shows (x >>= fun a => Noting.note (e a) >>= fun _ => Pure.pure a) y := by
  intro n
  rw [← hx n]
  simp only [Bind.bind, EStateM.bind]
  cases x n <;> rfl

/-- Looking at the machine. -/
theorem get {f : Noted ε → Noting ε α} {g : Machine → Run α}
    (h : ∀ n : Noted ε, Shows (f n) (g n.machine)) :
    Shows (MonadState.get >>= f) (MonadState.get >>= g) := fun n => h n n

theorem inFrame {x : Noting ε α} {y : Run α} (f : FrameId) (h : Shows x y) :
    Shows (Noting.inFrame f x) (Run.inFrame f y) := by
  intro n
  have hx := h { n with machine := { n.machine with current := f } }
  unfold Noting.inFrame Run.inFrame
  simp only [← hx]
  cases x { n with machine := { n.machine with current := f } } <;> rfl

theorem ite {P : Prop} [Decidable P] {x x' : Noting ε α} {y y' : Run α} (h : Shows x y)
    (h' : Shows x' y') : Shows (if P then x else x') (if P then y else y') := by
  split
  · exact h
  · exact h'

theorem mapM {γ : Type} {f : γ → Noting ε α} {g : γ → Run α} (h : ∀ c, Shows (f c) (g c))
    (cs : List γ) : Shows (cs.mapM f) (cs.mapM g) := by
  induction cs with
  | nil =>
    rw [List.mapM_nil, List.mapM_nil]
    exact .pure []
  | cons c cs ih =>
    rw [List.mapM_cons, List.mapM_cons]
    exact .bind (h c) fun _ => .bind ih fun _ => .pure _

theorem untilLeft {f : Stmt → Noting ε (Completion FrameId)}
    {g : Stmt → Run (Completion FrameId)} (h : ∀ s, Shows (f s) (g s)) (ss : List Stmt) :
    Shows (Run.untilLeft f ss) (Run.untilLeft g ss) := by
  induction ss with
  | nil => exact .pure _
  | cons s ss ih =>
    refine .bind (h s) fun c => ?_
    cases c with
    | normal => exact ih
    | leave | giveBack v => exact .pure _

theorem repeatWhile {t : Noting ε (Value FrameId)} {t' : Run (Value FrameId)}
    {b : Noting ε (Completion FrameId)} {b' : Run (Completion FrameId)} (ht : Shows t t')
    (hb : Shows b b') (turns : Nat) :
    Shows (Run.repeatWhile t b turns) (Run.repeatWhile t' b' turns) := by
  induction turns with
  | zero => exact .throw _
  | succ turns ih =>
    refine .bind ht fun v => .ite (.bind hb fun c => ?_) (.pure _)
    cases c with
    | normal => exact ih
    | leave | giveBack v => exact .pure _

end Shows
end Noting
end LoxKit
