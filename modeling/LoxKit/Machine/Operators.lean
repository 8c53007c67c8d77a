import LoxKit.Machine.Basic

/-!
# Operators

What the operators do with the values of their operands.  Which operation is meant is
decided by the kind of the operator's token.
-/
namespace LoxKit
namespace Operator

variable {σ : Type}

/-- A result, or what is wrong with the operands, or no such operator. -/
abbrev Result (σ : Type) := Except Failure (Value σ)

/-- An operation on two numbers. -/
def onNumbers (op : Token) (f : Float → Float → Value σ) (a b : Value σ) : Result σ :=
  match a.number?, b.number? with
  | some x, some y => .ok (f x y)
  | _, _ => .error (.error op .operandsNotNumbers)

/-- The sum of two numbers, or the joined texts of two values of which one is a string. -/
def add (op : Token) (a b : Value σ) : Result σ :=
  match a.number?, b.number? with
  | some x, some y => .ok (.number (x + y))
  | _, _ =>
    if a.isString || b.isString then .ok (.string (a.render ++ b.render))
    else .error (.error op .operandsNotAddable)

/-- The quotient of two numbers; there is none by zero of either sign. -/
def divide (op : Token) (a b : Value σ) : Result σ :=
  match a.number?, b.number? with
  | some x, some y =>
    if y == 0 then .error (.error op .divisionByZero) else .ok (.number (x / y))
  | _, _ => .error (.error op .operandsNotNumbers)

/-- **Applies a binary operator.**  The comma yields its right operand. -/
def binary (op : Token) (a b : Value σ) : Result σ :=
  match op.kind with
  | .plus => add op a b
  | .minus => onNumbers op (.number <| · - ·) a b
  | .star => onNumbers op (.number <| · * ·) a b
  | .slash => divide op a b
  | .greater => onNumbers op (.bool <| · > ·) a b
  | .greaterEqual => onNumbers op (.bool <| · ≥ ·) a b
  | .less => onNumbers op (.bool <| · < ·) a b
  | .lessEqual => onNumbers op (.bool <| · ≤ ·) a b
  | .equalEqual => .ok (.bool (a.equals b))
  | .bangEqual => .ok (.bool (!a.equals b))
  | .comma => .ok b
  | _ => .error (.breach (.binaryOperator op.lexeme))

/-- **Applies a unary operator.** -/
def unary (op : Token) (a : Value σ) : Result σ :=
  match op.kind with
  | .minus =>
    match a.number? with
    | some x => .ok (.number (-x))
    | none => .error (.error op .operandNotNumber)
  | .bang => .ok (.bool (!a.truthy))
  | _ => .error (.breach (.unaryOperator op.lexeme))

/-- Whether the left operand of a logical operator decides its value alone: a true one for
`or`, a false one for all others. -/
def decides (op : Token) (left : Value σ) : Bool :=
  if op.kind = .orWord then left.truthy else !left.truthy

end Operator
end LoxKit
