import LoxKit.Decimal.Binary64

/-!
# The shortest decimal that reads back

Every finite positive number `m · 2^q` of the format is the nearest one for a whole
interval of reals around it.  Among the decimals `c · 10^p` in that interval there is one
with the greatest `p`, that is with the fewest digits; `shortest` finds it by trying the
grids `10^p` from the coarse to the fine.  On each grid only the two neighbours of the
value matter: if any point of the grid lies in the interval, one of these does.
-/
namespace LoxKit

/-- **A decimal number** `digits · 10 ^ exponent`. -/
structure Decimal where
  digits : Nat
  exponent : Int
  deriving DecidableEq, Inhabited

namespace Decimal

/-- The interval of reals that a number is nearest to, together with the number itself,
as numerators over one denominator. -/
structure Basin where
  low : Nat
  value : Nat
  high : Nat
  denominator : Nat
  /-- Whether the two ends belong to the interval. -/
  closed : Bool

/-- The basin of `m · 2^q`, measured in units of `10^p`.  The distance to the lower end is
half as large where the numbers below lie twice as close. -/
def Basin.of (m : Nat) (q p : Int) : Basin :=
  let up := Nat.pow 2 (q - 2).toNat * Nat.pow 10 (-p).toNat
  let closer := m = Binary64.hiddenBit ∧ q ≠ Binary64.leastExponent
  { low := (4 * m - if closer then 1 else 2) * up
    value := 4 * m * up
    high := (4 * m + 2) * up
    denominator := Nat.pow 2 (2 - q).toNat * Nat.pow 10 p.toNat
    closed := m % 2 = 0 }

/-- Whether the whole number `c` lies in the basin. -/
def Basin.holds (b : Basin) (c : Nat) : Bool :=
  let x := c * b.denominator
  (b.low < x && x < b.high) || (b.closed && (x == b.low || x == b.high))

/-- The whole number of the basin that is nearest to the value, if the basin has one; of
two equally near ones the even one. -/
def Basin.best? (b : Basin) : Option Nat :=
  let below := b.value / b.denominator
  let above := below + 1
  match 0 < below && b.holds below, b.holds above with
  | true, true =>
    let toBelow := b.value - below * b.denominator
    let toAbove := above * b.denominator - b.value
    if toBelow < toAbove ∨ (toBelow = toAbove ∧ below % 2 = 0) then some below
    else some above
  | true, false => some below
  | false, true => some above
  | false, false => none

/-- The first grid with a point in the basin of `m · 2^q`, from `10^p` downwards through
a number of grids. -/
def search (m : Nat) (q : Int) : Nat → Int → Decimal
  | 0, p => ⟨0, p⟩
  | grids + 1, p =>
    match (Basin.of m q p).best? with
    | some c => ⟨c, p⟩
    | none => search m q grids (p - 1)

/-- An exponent `p` with `m · 2^q < 10^p`, above the decimal exponent by at most two. -/
def bound (m : Nat) (q : Int) : Int := (m.log2 + 1 + q) * 30103 / 100000 + 1

/-- **The shortest decimal in the basin of `m · 2^q`**, for positive `m`.  Seventeen
digits always suffice. -/
def shortest (m : Nat) (q : Int) : Decimal := search m q 24 (bound m q)

end Decimal
end LoxKit
