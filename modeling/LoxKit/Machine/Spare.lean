import LoxKit.Machine.Basic

/-!
# Spare room

A node takes one unit of room while it runs.  What it does besides running the nodes inside
it needs spare room for a moment: to follow a reference, to find out of which sort an operand
is, to put a value into words, to set up a frame.  This module says how much each of these
needs; where there is less, the step fails with a stack overflow before it has any effect.
-/
namespace LoxKit
namespace Spare

/-- To test whether a value counts as true. -/
def truth : Nat := 1

/-- To bind a name in the current frame. -/
def define : Nat := 1

/-- To make a frame, a closure, an object, or what a `return` leaves. -/
def make : Nat := 2

/-- To reach a field of an object. -/
def field : Nat := 1

/-- To read the clock. -/
def clock : Nat := 2

/-- To make a method work on an object: a frame, and a closure of it. -/
def bind : Nat := 3

/-- To take the object of an initializer from its frame. -/
def initialized : Nat := 3

/-- To find out whether a value can be called, and with how many arguments. -/
def callable : Nat := 5

/-- To read the value of a reference: more if it has to follow links outward. -/
def read (r : Reference) : Nat := if r.hops.isSome then 4 else 3

/-- To give a reference a new value. -/
def write (r : Reference) : Nat := if r.hops.isSome then 3 else 2

/-- To put a value into words. -/
def words : Value FrameId → Nat
  | .nil | .bool _ | .string _ => 1
  | .number _ | .native _ | .classValue _ | .object .. => 3
  | .function _ => 4

/-- To compare two values; that a function on the left equals nothing is known early. -/
def compare : Value FrameId → Nat
  | .function _ => 3
  | _ => 7

/-- To apply a binary operator to two values. -/
def binary (op : Token) (a b : Value FrameId) : Nat :=
  match op.kind with
  | .plus => if a.isString || b.isString then 1 + max (words a) (words b) else 2
  | .minus | .star | .slash | .greater | .greaterEqual | .less | .lessEqual => 3
  | .equalEqual | .bangEqual => compare a
  | _ => 2

/-- To apply a unary operator. -/
def unary (op : Token) : Nat := if op.kind = .minus then 3 else 2

end Spare
end LoxKit
