/-!
# Lines of a text

Two notions of line.  In a program a line feed alone ends a line.  In a document shown by an
editor any of several characters does, and a carriage return with a line feed behind it
counts as one ending; `split` cuts a text into such lines, each with its ending.  A file
that is read gets line feeds for the other two endings of common use.
-/
namespace LoxKit.Text

/-- A character that ends a line of a document. -/
def endsLine (c : Char) : Bool :=
  ['\n', '\r', '\x0b', '\x0c', '\x1c', '\x1d', '\x1e', '\u0085', '\u2028', '\u2029'].contains c

/-- **A line of a document**: its text and the characters that end it, of which the last
line may have none. -/
structure Line where
  text : List Char
  ending : List Char
  deriving DecidableEq

namespace Line

/-- The line with its ending. -/
def full (l : Line) : List Char := l.text ++ l.ending

/-- The lines of a text, behind the first characters of the current line (the latest
first). -/
def splitBehind (begun : List Char) : List Char → List Line
  | [] => if begun.isEmpty then [] else [⟨begun.reverse, []⟩]
  | '\r' :: '\n' :: cs => ⟨begun.reverse, ['\r', '\n']⟩ :: splitBehind [] cs
  | c :: cs =>
    if endsLine c then ⟨begun.reverse, [c]⟩ :: splitBehind [] cs else splitBehind (c :: begun) cs

/-- **The lines of a text.**  What follows the last ending is a line only if it is not
empty. -/
def split (cs : List Char) : List Line := splitBehind [] cs

theorem flatMap_full_splitBehind (begun cs : List Char) :
    (splitBehind begun cs).flatMap full = begun.reverse ++ cs := by
  fun_induction splitBehind begun cs with
  | case1 begun h => simp_all
  | case2 begun h => simp [full]
  | case3 begun cs ih => simp [full, ih]
  | case4 begun c cs _ h ih => simp [full, ih]
  | case5 begun c cs _ h ih => simp [ih]

/-- The lines with their endings make up the text. -/
theorem flatMap_full_split (cs : List Char) : (split cs).flatMap full = cs := by
  simp [split, flatMap_full_splitBehind]

end Line

/-- A text with a line feed for every carriage return, whether one follows it already or
not. -/
def unifyEndings : List Char → List Char
  | [] => []
  | '\r' :: '\n' :: cs => '\n' :: unifyEndings cs
  | '\r' :: cs => '\n' :: unifyEndings cs
  | c :: cs => c :: unifyEndings cs

end LoxKit.Text
