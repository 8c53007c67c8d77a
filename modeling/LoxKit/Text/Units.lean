/-!
# Measuring text in 16-bit units

Editors count positions in units of 16 bits, of which the characters beyond the first plane
take two.
-/
namespace LoxKit.Text

/-- The number of 16-bit units of a character. -/
def unitsOf (c : Char) : Nat := if c.toNat < 0x10000 then 1 else 2

/-- The number of 16-bit units of a text. -/
def units : List Char → Nat
  | [] => 0
  | c :: cs => unitsOf c + units cs

/-- The number of characters that take up the first units of a text.  A character that the
unit lies inside counts whole. -/
def column (cs : List Char) (unit : Nat) : Nat :=
  match cs with
  | [] => 0
  | c :: rest => if unit = 0 then 0 else column rest (unit - unitsOf c) + 1

@[simp] theorem units_nil : units [] = 0 := rfl

@[simp] theorem units_cons (c : Char) (cs : List Char) :
    units (c :: cs) = unitsOf c + units cs := rfl

theorem column_le_length (cs : List Char) (unit : Nat) : column cs unit ≤ cs.length := by
  induction cs generalizing unit with
  | nil => simp [column]
  | cons c rest ih =>
    simp only [column]
    split
    · simp
    · simpa using ih _

/-- A column that reaches the end of some first characters is their number. -/
theorem column_units_append (cs rest : List Char) : column (cs ++ rest) (units cs) = cs.length := by
  induction cs with
  | nil => cases rest <;> simp [column]
  | cons c cs ih =>
    have h : unitsOf c ≠ 0 := by
      unfold unitsOf
      split <;> omega
    simp [column, h, ih]

end LoxKit.Text
