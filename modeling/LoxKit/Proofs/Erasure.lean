/-!
# Steps with some detail erased

A state may hold detail that steps carry along without being guided by it, such as the numbers
of lines.  An `Erasure` takes such detail out of states and failures.  A step erases to another
one (`Erases`) if that one, begun where the detail is gone, leads to what the first leads to,
with the detail gone.
-/
namespace LoxKit

variable {ε σ α α' β β' γ γ' : Type}

/-- **A way to erase detail** from the failures and the states of steps. -/
structure Erasure (ε σ : Type) where
  failure : ε → ε
  state : σ → σ

/-- What a step leads to, with the detail gone. -/
def Erasure.result (E : Erasure ε σ) (f : α → β) :
    EStateM.Result ε σ α → EStateM.Result ε σ β
  | .ok a s => .ok (f a) (E.state s)
  | .error e s => .error (E.failure e) (E.state s)

/-- **A step erases to another**, with the detail of what it yields taken out by `f`. -/
def Erases (E : Erasure ε σ) (f : α → β) (x : EStateM ε σ α) (y : EStateM ε σ β) : Prop :=
  ∀ s, y (E.state s) = E.result f (x s)

namespace Erases

variable {E : Erasure ε σ} {f : α → β} {g : α' → β'}

theorem pure (a : α) : Erases E f (Pure.pure a) (Pure.pure (f a)) := fun _ => rfl

theorem throw (e : ε) :
    Erases E f (MonadExcept.throw e) (MonadExcept.throw (E.failure e)) := fun _ => rfl

theorem bind {x : EStateM ε σ α} {y : EStateM ε σ β} {k : α → EStateM ε σ α'}
    {k' : β → EStateM ε σ β'} (hx : Erases E f x y) (hk : ∀ a, Erases E g (k a) (k' (f a))) :
    Erases E g (x >>= k) (y >>= k') := by
  intro s
  simp only [Bind.bind, EStateM.bind, hx s]
  cases x s with
  | ok a s' => exact hk a s'
  | error e s' => rfl

/-- Looking at the state. -/
theorem get {k : σ → EStateM ε σ α} {k' : σ → EStateM ε σ β}
    (h : ∀ s, Erases E f (k s) (k' (E.state s))) :
    Erases E f (MonadState.get >>= k) (MonadState.get >>= k') := fun s => h s s

/-- Changing the state. -/
theorem modify {m m' : σ → σ} (h : ∀ s, m' (E.state s) = E.state (m s)) :
    Erases E id (modifyThe σ m : EStateM ε σ PUnit) (modifyThe σ m') := by
  intro s
  show EStateM.Result.ok () (m' (E.state s)) = .ok () (E.state (m s))
  rw [h]

theorem ite {P P' : Prop} [Decidable P] [Decidable P'] {x x' : EStateM ε σ α}
    {y y' : EStateM ε σ β} (hP : P' ↔ P) (h : Erases E f x y) (h' : Erases E f x' y') :
    Erases E f (if P then x else x') (if P' then y else y') := by
  by_cases hp : P
  · rw [if_pos hp, if_pos (hP.mpr hp)]
    exact h
  · rw [if_neg hp, if_neg fun hp' => hp (hP.mp hp')]
    exact h'

theorem mapM {e : γ → γ'} {x : γ → EStateM ε σ α} {y : γ' → EStateM ε σ β}
    (h : ∀ c, Erases E f (x c) (y (e c))) (cs : List γ) :
    Erases E (List.map f) (cs.mapM x) ((cs.map e).mapM y) := by
  induction cs with
  | nil =>
    rw [List.map_nil, List.mapM_nil, List.mapM_nil]
    exact .pure []
  | cons c cs ih =>
    rw [List.map_cons, List.mapM_cons, List.mapM_cons]
    exact .bind (h c) fun a => .bind ih fun as => .pure (a :: as)

end Erases
end LoxKit
