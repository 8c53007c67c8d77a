/-!
# Ranges of a document

Places in a document as an editor counts them: lines and characters from 0.
-/
namespace LoxKit.Editor

/-- **A stretch of a document.** -/
structure Range where
  startLine : Int
  startCharacter : Nat
  endLine : Int
  endCharacter : Nat
  deriving DecidableEq, Inhabited

/-- The first characters of a line. -/
def Range.ofLine (line : Int) (length : Nat) : Range := ⟨line, 0, line, length⟩

end LoxKit.Editor
