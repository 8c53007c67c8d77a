import LoxKit.Scan
import LoxKit.Text.Lines
import LoxKit.Text.Units

/-!
# The word at a place

Which word of a document stands at a place that an editor names by its line and by the
number of 16-bit units in front of it.  The word may end or begin at the place; there may be
none.
-/
namespace LoxKit.Editor

/-- A line as an editor counts it: one that ends in a carriage return and a line feed counts
as if it ended in the line feed alone. -/
def countedLine (l : Text.Line) : List Char :=
  if l.ending = ['\r', '\n'] then l.text ++ ['\n'] else l.full

/-- The number of characters in front of a place in a line.  A place beyond the end is taken
back to one unit in front of the end. -/
def placeColumn (l : Text.Line) (character : Nat) : Nat :=
  let counted := countedLine l
  let length := Text.units counted
  Text.column counted (if length < character then length - 1 else character)

/-- The part of a word that ends a text.  One line feed behind it is overlooked. -/
def wordBefore (cs : List Char) : List Char :=
  let backward := cs.reverse
  let backward := if backward.head? = some '\n' then backward.tail else backward
  (backward.takeWhile Scan.isWordChar).reverse

/-- The part of a word that begins a text. -/
def wordAfter (cs : List Char) : List Char := cs.takeWhile Scan.isWordChar

/-- **The word at a place**, empty if there is none. -/
def wordAt (text : String) (line character : Nat) : String :=
  match (Text.Line.split text.toList)[line]? with
  | none => ""
  | some l =>
    let n := placeColumn l character
    .ofList (wordBefore (l.full.take n) ++ wordAfter (l.full.drop n))

end LoxKit.Editor
