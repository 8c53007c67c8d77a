/-!
# Numbers of the 64-bit binary format as exact fractions

A finite number of the format is `m · 2^q` with natural `m`.  `Binary64.parts` reads
`m` and `q` off a number, and `Binary64.nearest` goes the other way: it takes any
fraction to the number nearest to it, a tie going to the even `m`.  Both are integer
arithmetic, so their results are exact whatever the size of the fraction.
-/
namespace LoxKit
namespace Binary64

/-- **What a number of the format stands for.** -/
inductive Parts where
  /-- `± mantissa · 2 ^ exponent`. -/
  | finite (negative : Bool) (mantissa : Nat) (exponent : Int)
  | infinite (negative : Bool)
  | notANumber
  deriving DecidableEq

/-- The value of `m` from which on a mantissa has its full width of 53 bits. -/
def hiddenBit : Nat := Nat.pow 2 52

/-- The exponent of the smallest numbers. -/
def leastExponent : Int := -1074

/-- The bits of positive infinity; all finite non-negative numbers have smaller ones. -/
def infinityBits : Nat := 2047 * hiddenBit

/-- Takes a number apart. -/
def parts (x : Float) : Parts :=
  let bits := x.toBits.toNat
  let negative := bits / Nat.pow 2 63 == 1
  let scale : Nat := bits / hiddenBit % 2048
  let fraction : Nat := bits % hiddenBit
  if scale == 2047 then
    if fraction == 0 then .infinite negative else .notANumber
  else if scale == 0 then .finite negative fraction leastExponent
  else .finite negative (hiddenBit + fraction) (leastExponent + scale - 1)

/-- The natural number nearest to `n / d`, of two equally near ones the even one. -/
def roundDiv (n d : Nat) : Nat :=
  let low := n / d
  let twice := 2 * (n % d)
  if twice < d ∨ (twice = d ∧ low % 2 = 0) then low else low + 1

/-- `n · 2^q / d` as a pair of natural numbers. -/
def scaled (n d : Nat) (q : Int) : Nat × Nat :=
  (n * Nat.pow 2 q.toNat, d * Nat.pow 2 (-q).toNat)

/-- The greatest `e` with `2^e ≤ n / d`, for positive `n` and `d`. -/
def floorLog2 (n d : Nat) : Int :=
  let guess : Int := (n.log2 : Int) - d.log2
  let (a, b) := scaled n d (-guess)
  if b ≤ a then guess else guess - 1

/-- The bits of the number nearest to `n / d`, infinity if `n / d` is out of range.

The mantissa counts steps of `2^q`; that the next mantissa after the last of full width
has the bits of the next larger `q` makes one formula serve for all numbers. -/
def nearestBits (n d : Nat) : Nat :=
  if n = 0 then 0
  else
    let q := max (floorLog2 n d - 52) leastExponent
    let (a, b) := scaled n d (-q)
    min infinityBits ((q - leastExponent).toNat * hiddenBit + roundDiv a b)

/-- **The number nearest to `n / d`.** -/
def nearest (n d : Nat) : Float := .ofBits (.ofNat (nearestBits n d))

end Binary64
end LoxKit
