import LoxKit.Machine.Operators
import LoxKit.Proofs.Tree.Shape

/-!
# What operators yield

An operator that is one fails by errors of the program alone (`Operator.unary_error`,
`Operator.binary_error`), and makes no functions (`Operator.unary_plain`,
`Operator.binary_plain`).
-/
namespace LoxKit

variable {σ : Type}

/-- A value that is no function and holds none. -/
def Value.Plain : Value σ → Prop
  | .nil | .bool _ | .number _ | .string _ => True
  | _ => False

namespace Operator

/-- An operator that is one fails by an error of the program alone. -/
theorem unary_error {op : Token} (h : Grammar.isUnaryOperator op.kind)
    {a : Value σ} {e : Failure} (he : unary op a = .error e) :
    ∀ b, e ≠ .breach b := by
  unfold unary at he
  split at he
  · split at he <;> cases he
    exact nofun
  · cases he
  · rename_i h₁ h₂
    cases hk : op.kind <;> simp_all [Grammar.isUnaryOperator]

theorem onNumbers_error {op : Token} {f : Float → Float → Value σ}
    {a b : Value σ} {e : Failure} (he : onNumbers op f a b = .error e) :
    ∀ b, e ≠ .breach b := by
  unfold onNumbers at he
  split at he <;> cases he
  exact nofun

theorem add_error {op : Token} {a b : Value σ} {e : Failure}
    (he : add op a b = .error e) : ∀ b, e ≠ .breach b := by
  unfold add at he
  split at he
  · cases he
  · split at he <;> cases he
    exact nofun

theorem divide_error {op : Token} {a b : Value σ} {e : Failure}
    (he : divide op a b = .error e) : ∀ b, e ≠ .breach b := by
  unfold divide at he
  split at he
  · split at he <;> cases he
    exact nofun
  · cases he
    exact nofun

theorem binary_error {op : Token} (h : op.kind.isBinaryOperator)
    {a b : Value σ} {e : Failure} (he : binary op a b = .error e) :
    ∀ b, e ≠ .breach b := by
  unfold binary at he
  split at he
  · exact add_error he
  · exact onNumbers_error he
  · exact onNumbers_error he
  · exact divide_error he
  · exact onNumbers_error he
  · exact onNumbers_error he
  · exact onNumbers_error he
  · exact onNumbers_error he
  · cases he
  · cases he
  · cases he
  · rename_i hk
    unfold TokenKind.isBinaryOperator at h
    split at h <;> simp_all

theorem unary_plain {op : Token} {a v : Value σ} (hv : unary op a = .ok v) : v.Plain := by
  unfold unary at hv
  split at hv
  · split at hv <;> cases hv
    trivial
  · cases hv
    trivial
  · cases hv

theorem onNumbers_plain {op : Token} {f : Float → Float → Value σ} {a b v : Value σ}
    (hv : onNumbers op f a b = .ok v) (hf : ∀ x y, (f x y).Plain) : v.Plain := by
  unfold onNumbers at hv
  split at hv <;> cases hv
  exact hf _ _

/-- The comma yields its right operand. -/
theorem binary_plain {op : Token} {a b v : Value σ} (hv : binary op a b = .ok v) :
    v = b ∨ v.Plain := by
  unfold binary at hv
  split at hv
  · right
    unfold add at hv
    split at hv
    · cases hv
      trivial
    · split at hv <;> cases hv
      trivial
  · exact .inr (onNumbers_plain hv fun _ _ => trivial)
  · exact .inr (onNumbers_plain hv fun _ _ => trivial)
  · right
    unfold divide at hv
    split at hv
    · split at hv <;> cases hv
      trivial
    · cases hv
  · exact .inr (onNumbers_plain hv fun _ _ => trivial)
  · exact .inr (onNumbers_plain hv fun _ _ => trivial)
  · exact .inr (onNumbers_plain hv fun _ _ => trivial)
  · exact .inr (onNumbers_plain hv fun _ _ => trivial)
  · cases hv
    exact .inr trivial
  · cases hv
    exact .inr trivial
  · cases hv
    exact .inl rfl
  · cases hv

/-! ## Operands that look the same -/

/-- **Related values look the same to operators**, and what these make themselves is related. -/
structure Respects {τ : Type} (V : Value σ → Value τ → Prop) : Prop where
  number? : ∀ {v v'}, V v v' → v'.number? = v.number?
  isString : ∀ {v v'}, V v v' → v'.isString = v.isString
  truthy : ∀ {v v'}, V v v' → v'.truthy = v.truthy
  render : ∀ {v v'}, V v v' → v'.render = v.render
  equals : ∀ {v v' w w'}, V v v' → V w w' → v'.equals w' = v.equals w
  ofNumber : ∀ x, V (.number x) (.number x)
  ofString : ∀ t, V (.string t) (.string t)
  ofBool : ∀ b, V (.bool b) (.bool b)

/-- Two results are related: values that are, or the same failure. -/
inductive Alike {τ : Type} (V : Value σ → Value τ → Prop) : Result σ → Result τ → Prop where
  | ok {v v'} : V v v' → Alike V (.ok v) (.ok v')
  | error (e : Failure) : Alike V (.error e) (.error e)

namespace Respects

variable {τ : Type} {V : Value σ → Value τ → Prop} {v w : Value σ} {v' w' : Value τ}

/-- **Operators do the same to related values.** -/
theorem unary (h : Respects V) (hv : V v v') (op : Token) :
    Alike V (Operator.unary op v) (Operator.unary op v') := by
  unfold Operator.unary
  rw [h.number? hv, h.truthy hv]
  split
  · cases v.number? with
    | none => exact .error _
    | some x => exact .ok (h.ofNumber _)
  · exact .ok (h.ofBool _)
  · exact .error _

theorem onNumbers (h : Respects V) (hv : V v v') (hw : V w w') (op : Token)
    {f : Float → Float → Value σ} {f' : Float → Float → Value τ} (hf : ∀ x y, V (f x y) (f' x y)) :
    Alike V (Operator.onNumbers op f v w) (Operator.onNumbers op f' v' w') := by
  unfold Operator.onNumbers
  rw [h.number? hv, h.number? hw]
  split
  · exact .ok (hf _ _)
  · exact .error _

theorem binary (h : Respects V) (hv : V v v') (hw : V w w') (op : Token) :
    Alike V (Operator.binary op v w) (Operator.binary op v' w') := by
  unfold Operator.binary
  split
  · unfold Operator.add
    rw [h.number? hv, h.number? hw, h.isString hv, h.isString hw, h.render hv, h.render hw]
    split
    · exact .ok (h.ofNumber _)
    · split
      · exact .ok (h.ofString _)
      · exact .error _
  · exact h.onNumbers hv hw op fun _ _ => h.ofNumber _
  · exact h.onNumbers hv hw op fun _ _ => h.ofNumber _
  · unfold Operator.divide
    rw [h.number? hv, h.number? hw]
    split
    · split
      · exact .error _
      · exact .ok (h.ofNumber _)
    · exact .error _
  · exact h.onNumbers hv hw op fun _ _ => h.ofBool _
  · exact h.onNumbers hv hw op fun _ _ => h.ofBool _
  · exact h.onNumbers hv hw op fun _ _ => h.ofBool _
  · exact h.onNumbers hv hw op fun _ _ => h.ofBool _
  · rw [h.equals hv hw]
    exact .ok (h.ofBool _)
  · rw [h.equals hv hw]
    exact .ok (h.ofBool _)
  · exact .ok hw
  · exact .error _

theorem decides (h : Respects V) (hv : V v v') (op : Token) :
    Operator.decides op v' = Operator.decides op v := by
  unfold Operator.decides
  rw [h.truthy hv]

end Respects
end Operator
end LoxKit
