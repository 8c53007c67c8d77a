/-!
# UTF-8 with faults

Reading bytes as UTF-8 without ever giving up.  Bytes that belong to no character are
replaced by the replacement character: one for each byte that cannot begin a character, and
one for each beginning of a character that is not continued.
-/
namespace LoxKit.Text

namespace Utf8

/-- What stands in for bytes that belong to no character. -/
def replacement : Char := '\uFFFD'

/-- **A character begun**: the bits read so far, and between which values each of the bytes
still owed has to lie. -/
structure Begun where
  bits : Nat
  owed : List (Nat × Nat)

/-- The values of a byte that continues a character. -/
def tail : Nat × Nat := (0x80, 0xBF)

/-- What a byte begins, if it is the first of several of one character.  The narrower bounds
behind some bytes rule out overlong forms, surrogates and codes beyond the last. -/
def begun? (b : Nat) : Option Begun :=
  if 0xC2 ≤ b ∧ b ≤ 0xDF then some ⟨b - 0xC0, [tail]⟩
  else if b = 0xE0 then some ⟨0, [(0xA0, 0xBF), tail]⟩
  else if b = 0xED then some ⟨0xD, [(0x80, 0x9F), tail]⟩
  else if 0xE1 ≤ b ∧ b ≤ 0xEF then some ⟨b - 0xE0, [tail, tail]⟩
  else if b = 0xF0 then some ⟨0, [(0x90, 0xBF), tail, tail]⟩
  else if 0xF1 ≤ b ∧ b ≤ 0xF3 then some ⟨b - 0xF0, [tail, tail, tail]⟩
  else if b = 0xF4 then some ⟨4, [(0x80, 0x8F), tail, tail]⟩
  else none

/-- What a byte gives at the start of a character: a whole character, or one begun. -/
def first (b : Nat) : List Char × Option Begun :=
  if b < 0x80 then ([.ofNat b], none)
  else
    match begun? b with
    | some c => ([], some c)
    | none => ([replacement], none)

/-- What a byte gives behind a character begun, if there is one. -/
def next (b : Nat) : Option Begun → List Char × Option Begun
  | none => first b
  | some ⟨_, []⟩ => first b
  | some ⟨bits, (low, high) :: owed⟩ =>
    if low ≤ b ∧ b ≤ high then
      let bits := bits * 64 + (b - 0x80)
      if owed.isEmpty then ([.ofNat bits], none) else ([], some ⟨bits, owed⟩)
    else
      let (cs, c) := first b
      (replacement :: cs, c)

/-- The characters of bytes that stand behind a character begun. -/
def decodeBehind : Option Begun → List UInt8 → List Char
  | begun, [] => if begun.isSome then [replacement] else []
  | begun, b :: rest =>
    let (cs, begun) := next b.toNat begun
    cs ++ decodeBehind begun rest

end Utf8

/-- **The text that some bytes stand for**, whether or not they are UTF-8. -/
def decodeLossy (bytes : List UInt8) : String := .ofList (Utf8.decodeBehind none bytes)

end LoxKit.Text
