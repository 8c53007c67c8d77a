import LoxKit.Decimal.Notation
import LoxKit.Token

/-!
# Literals

The constants that a program can write down, the literal that a token stands for, and the
form in which a literal is written.
-/
namespace LoxKit

/-- **A constant.** -/
inductive Literal where
  | nil
  | bool (b : Bool)
  | number (x : Float)
  | string (s : String)
  deriving Inhabited

namespace Literal

/-- The literal that a token stands for by itself: a numeral its number, a string the text
between its quotes.  All other kinds carry no value. -/
def ofToken? (t : Token) : Option Literal :=
  match t.kind with
  | .number => some (.number (readNumeral t.lexeme))
  | .string => some (.string (.ofList (t.lexeme.toList.tail.dropLast)))
  | _ => none

/-- A literal as a program would write it. -/
def render : Literal → String
  | nil => "nil"
  | bool true => "true"
  | bool false => "false"
  | number x => NumberFormat.plain.write x
  | string s => "\"" ++ s ++ "\""

end Literal
end LoxKit
