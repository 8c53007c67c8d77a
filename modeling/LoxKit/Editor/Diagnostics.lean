import LoxKit.Editor.Range
import LoxKit.Limits
import LoxKit.Scan
import LoxKit.Scope.Resolution
import LoxKit.Text.Lines

/-!
# Diagnostics of a document

What is wrong with a document, as an editor shows it: each problem marks the whole line it
was reported at.  A document is resolved only if nothing is wrong with it before.
-/
namespace LoxKit.Editor

/-- **A problem and the stretch it marks.** -/
structure Mark where
  range : Range
  message : String
  deriving DecidableEq

/-- The problems of a text, in the order in which they are found. -/
def problems (limits : Limits) (text : String) : List Diagnostic :=
  let scanned := scan text
  let parsed := Program.ofTokens limits.room scanned.tokens
  let found := scanned.diagnostics ++ parsed.diagnostics
  if found.isEmpty then (parsed.result.resolve limits.room).diagnostics else found

/-- The lines of a document, without their endings. -/
def documentLines (text : String) : List (List Char) :=
  (Text.Line.split text.toList).map (·.text)

/-- Marks the line of a problem, to its end if the document has such a line. -/
def Mark.of (lines : List (List Char)) (d : Diagnostic) : Mark :=
  let line := (d.line - 1).toNat
  ⟨.ofLine line ((lines[line]?.map (·.length)).getD 0), d.headline⟩

/-- **The diagnostics of a document.** -/
def diagnostics (limits : Limits) (text : String) : List Mark :=
  (problems limits text).map (.of (documentLines text))

end LoxKit.Editor
