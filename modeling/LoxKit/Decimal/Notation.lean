import LoxKit.Decimal.Shortest

/-!
# Numbers as text

How numbers are written: which of the two layouts is used, how exponents look, and what
stands for the values that have no digits.  All these decisions are in the one record
`Notation.default`; the digits are the shortest that read back.
-/
namespace LoxKit

/-- **The decisions of a number format.** -/
structure NumberFormat where
  /-- The least decimal exponent written without an exponent part. -/
  positionalFrom : Int
  /-- The first decimal exponent written with an exponent part again. -/
  positionalBelow : Int
  /-- What ends a whole number. -/
  wholeSuffix : String
  /-- The least number of digits of an exponent. -/
  exponentWidth : Nat
  /-- The text of infinity. -/
  infinity : String
  /-- The text of the value that is no number. -/
  notANumber : String

namespace NumberFormat

/-- **The format of numbers in listings**: positional from `10^-4` up to but excluding
`10^16`, whole numbers ending in `.0`, exponents signed and of two digits at least. -/
def listing : NumberFormat :=
  { positionalFrom := -4
    positionalBelow := 16
    wholeSuffix := ".0"
    exponentWidth := 2
    infinity := "inf"
    notANumber := "nan" }

/-- **The format of numbers in a program's output**, which leaves the end of whole numbers
out. -/
def plain : NumberFormat := { listing with wholeSuffix := "" }

/-- Zeros. -/
def zeros (n : Nat) : List Char := List.replicate n '0'

/-- An exponent with its sign. -/
def exponentText (f : NumberFormat) (e : Int) : List Char :=
  let digits := Nat.toDigits 10 e.natAbs
  (if e < 0 then '-' else '+') :: (zeros (f.exponentWidth - digits.length) ++ digits)

/-- Digits with their point, or with an exponent, as the format lays them out.  `point` is
the number of digits before the point, which may be negative. -/
def layout (f : NumberFormat) (digits : List Char) (point : Int) : List Char :=
  let exponent := point - 1
  if exponent < f.positionalFrom ∨ f.positionalBelow ≤ exponent then
    let mantissa :=
      match digits with
      | d :: e :: rest => d :: '.' :: e :: rest
      | short => short
    mantissa ++ 'e' :: f.exponentText exponent
  else if point ≤ 0 then
    '0' :: '.' :: (zeros (-point).toNat ++ digits)
  else
    let whole := point.toNat
    if digits.length ≤ whole then
      digits ++ zeros (whole - digits.length) ++ f.wholeSuffix.toList
    else digits.take whole ++ '.' :: digits.drop whole

/-- The text of a number that is not negative, from its mantissa and exponent. -/
def magnitude (f : NumberFormat) (m : Nat) (q : Int) : List Char :=
  if m = 0 then '0' :: f.wholeSuffix.toList
  else
    let d := Decimal.shortest m q
    let digits := Nat.toDigits 10 d.digits
    f.layout digits (digits.length + d.exponent)

/-- **The text of a number.**  Minus zero keeps its sign. -/
def write (f : NumberFormat) (x : Float) : String :=
  let sign (negative : Bool) : String := if negative then "-" else ""
  match Binary64.parts x with
  | .finite negative m q => sign negative ++ .ofList (f.magnitude m q)
  | .infinite negative => sign negative ++ f.infinity
  | .notANumber => f.notANumber

end NumberFormat

/-- The value of a list of decimal digits. -/
def digitsValue (cs : List Char) : Nat :=
  cs.foldl (fun n c => 10 * n + (c.toNat - '0'.toNat)) 0

/-- **The number a numeral stands for**: digits, and perhaps a point and more digits.  The
nearest number of the format, infinity if the numeral is too large for it. -/
def readNumeral (text : String) : Float :=
  let whole := text.toList.takeWhile (· != '.')
  let fraction := (text.toList.dropWhile (· != '.')).drop 1
  Binary64.nearest (digitsValue (whole ++ fraction)) (Nat.pow 10 fraction.length)

end LoxKit
