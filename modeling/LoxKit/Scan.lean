import LoxKit.Diagnostic

/-!
# From text to tokens

A source text is cut from the left into pieces: a token, blank space, a comment, or a
stretch that fits nowhere and gives one diagnostic.  Every piece is non-empty and takes
the longest form its first character admits, so the pieces joined give the text back and
each character is accounted for once.  A piece knows the line it ends on, which is 1 plus
the number of line feeds up to its end; tokens and diagnostics take their lines from it.

Only the ASCII characters named here have a meaning outside strings and comments.
-/
namespace LoxKit

/-- Why a stretch of text is no token. -/
inductive ScanFault where
  | unterminatedComment
  | unterminatedString
  | unexpected (c : Char)
  deriving DecidableEq

/-- The wording of each fault. -/
def ScanFault.message : ScanFault → String
  | unterminatedComment => "Unterminated block comment."
  | unterminatedString => "Unterminated string."
  | unexpected c => s!"Unexpected character '{c}'."

/-- What a piece of source text is for. -/
inductive Role where
  | token (kind : TokenKind)
  | blank
  | comment
  | fault (cause : ScanFault)
  deriving DecidableEq

/-- **A piece of source text**, with the line it ends on. -/
structure Piece where
  role : Role
  text : List Char
  line : Nat
  deriving DecidableEq

namespace Scan

/-- The ten digits. -/
def isDigit (c : Char) : Bool := '0' ≤ c && c ≤ '9'

/-- A character that may begin a word. -/
def isLetter (c : Char) : Bool := ('A' ≤ c && c ≤ 'Z') || ('a' ≤ c && c ≤ 'z') || c == '_'

/-- A character that may continue a word. -/
def isWordChar (c : Char) : Bool := isLetter c || isDigit c

/-- A blank that does not end a line. -/
def isSpace (c : Char) : Bool := c == ' ' || c == '\t' || c == '\r'

/-- The number of leading characters that satisfy a test. -/
def run (p : Char → Bool) (cs : List Char) : Nat := (cs.takeWhile p).length

/-- The number of characters up to and including the first `*/`, if there is one. -/
def closing? : List Char → Option Nat
  | [] => none
  | '*' :: '/' :: _ => some 2
  | _ :: cs => (closing? cs).map (· + 1)

/-- The length of a fraction: a point and at least one digit, or nothing. -/
def fraction : List Char → Nat
  | '.' :: d :: cs => if isDigit d then 2 + run isDigit cs else 0
  | _ => 0

/-- The one-character token a character stands for when nothing longer fits. -/
def single? : Char → Option TokenKind
  | '!' => some .bang
  | '=' => some .equal
  | '>' => some .greater
  | '<' => some .less
  | '-' => some .minus
  | '+' => some .plus
  | '/' => some .slash
  | '*' => some .star
  | '?' => some .question
  | ':' => some .colon
  | '(' => some .leftParen
  | ')' => some .rightParen
  | '{' => some .leftBrace
  | '}' => some .rightBrace
  | ',' => some .comma
  | '.' => some .dot
  | ';' => some .semicolon
  | _ => none

/-- The token a character forms together with a following `=`. -/
def withEqual? : Char → Option TokenKind
  | '!' => some .bangEqual
  | '=' => some .equalEqual
  | '>' => some .greaterEqual
  | '<' => some .lessEqual
  | _ => none

/-- **The piece that begins with `c`**: its role, and how many characters of what follows
`c` belong to it. -/
def lead (c : Char) (rest : List Char) : Role × Nat :=
  if c = '/' ∧ rest.head? = some '*' then
    match closing? rest.tail with
    | some n => (.comment, 1 + n)
    | none => (.fault .unterminatedComment, rest.length)
  else if c = '/' ∧ rest.head? = some '/' then
    (.comment, run (· != '\n') rest)
  else if isDigit c then
    let whole := run isDigit rest
    (.token .number, whole + fraction (rest.drop whole))
  else if c = '"' then
    let inner := run (· != '"') rest
    if inner < rest.length then (.token .string, inner + 1)
    else (.fault .unterminatedString, rest.length)
  else if isLetter c then
    let more := run isWordChar rest
    (.token (.ofWord (.ofList (c :: rest.take more))), more)
  else if c = '\n' then
    (.blank, 0)
  else if isSpace c then
    (.blank, run isSpace rest)
  else
    match withEqual? c, rest.head? with
    | some kind, some '=' => (.token kind, 1)
    | _, _ =>
      match single? c with
      | some kind => (.token kind, 0)
      | none => (.fault (.unexpected c), 0)

/-- The number of line feeds in a text. -/
def feeds (cs : List Char) : Nat := cs.count '\n'

/-- Cuts a text of which the first `within` characters belong to a piece cut before.  The
pieces cut so far are given with the latest first, and so is the line the latest ends on. -/
def cutOnto (cut : List Piece) (line within : Nat) : List Char → List Piece
  | [] => cut.reverse
  | c :: rest =>
    match within with
    | n + 1 => cutOnto cut line n rest
    | 0 =>
      let (role, n) := lead c rest
      let text := c :: rest.take n
      let line := line + feeds text
      cutOnto (⟨role, text, line⟩ :: cut) line n rest

end Scan

/-- **The pieces of a source text**, in order. -/
def Piece.split (source : List Char) : List Piece := Scan.cutOnto [] 1 0 source

namespace Piece

/-- The token a piece is, if it is one. -/
def token? (p : Piece) : Option Token :=
  match p.role with
  | .token kind => some ⟨kind, .ofList p.text, p.line⟩
  | _ => none

/-- The diagnostic a piece gives, if it gives one. -/
def diagnostic? (p : Piece) : Option Diagnostic :=
  match p.role with
  | .fault cause => some (.atLine p.line cause.message)
  | _ => none

end Piece

/-- **The result of scanning**: tokens closed by the end of the input, and diagnostics. -/
structure Scan where
  tokens : List Token
  diagnostics : List Diagnostic

/-- Scans a source text. -/
def scan (source : String) : Scan :=
  let pieces := Piece.split source.toList
  { tokens := pieces.filterMap (·.token?) ++ [.endAt (1 + Scan.feeds source.toList)]
    diagnostics := pieces.filterMap (·.diagnostic?) }

end LoxKit
