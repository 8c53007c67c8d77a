import LoxKit.Text.Visible

/-!
# Quoted text

How listings show a text so that its ends and its invisible characters can be seen.  The
text stands in single quotes, or in double quotes if it holds a single quote and no double
one.  A backslash and the quote in use get a backslash in front; line feed, carriage return
and tab have short names; other characters that do not show are given by their code.
-/
namespace LoxKit.Text

/-- The last digits of a number in base sixteen. -/
def hex (width n : Nat) : List Char :=
  let digits := Nat.toDigits 16 n
  List.replicate (width - digits.length) '0' ++ digits

/-- A character as it stands between two quotes. -/
def quotedChar (quote c : Char) : List Char :=
  if c == quote || c == '\\' then ['\\', c]
  else if c == '\n' then ['\\', 'n']
  else if c == '\r' then ['\\', 'r']
  else if c == '\t' then ['\\', 't']
  else if shows c then [c]
  else if c.toNat < 0x100 then '\\' :: 'x' :: hex 2 c.toNat
  else if c.toNat < 0x10000 then '\\' :: 'u' :: hex 4 c.toNat
  else '\\' :: 'U' :: hex 8 c.toNat

/-- The quote that a text is put in. -/
def quoteFor (cs : List Char) : Char :=
  if cs.contains '\'' && !cs.contains '"' then '"' else '\''

/-- **A text in quotes.** -/
def quoted (s : String) : String :=
  let q := quoteFor s.toList
  .ofList (q :: (s.toList.flatMap (quotedChar q) ++ [q]))

end LoxKit.Text
