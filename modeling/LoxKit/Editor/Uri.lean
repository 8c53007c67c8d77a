import LoxKit.Editor.Host
import LoxKit.Files
import LoxKit.Text.Utf8

/-!
# Names of documents

    name = [ scheme ":" ] [ "//" authority ] path [ "?" query ] [ "#" fragment ]

A document on disk is named by its path from the root, under the scheme `file` and with an
empty authority.  Every byte that is not an unreserved character is written as a percent sign
and two digits in base sixteen.

Any other name stands for a file as well: that of its path, whatever its scheme.  Only where
the text behind `//` can be no authority the name is malformed.
-/
namespace LoxKit.Editor

/-- The bytes that stand for themselves in a name: letters, digits, `-`, `.`, `_`, `~`, and
the `/` between the parts of the path. -/
def isUnreserved (b : UInt8) : Bool :=
  let c := Char.ofNat b.toNat
  c.isAlphanum || ['-', '.', '_', '~', '/'].contains c

/-- A byte as it is written in a name. -/
def encodeByte (b : UInt8) : List Char :=
  if isUnreserved b then [Char.ofNat b.toNat]
  else '%' :: (Text.hex 2 b.toNat).map Char.toUpper

/-- The bytes that a written text stands for.  A percent sign without two digits behind it
stands for itself. -/
def decodeBytes : List Char → List UInt8
  | [] => []
  | '%' :: a :: b :: rest =>
    match hexValue? a, hexValue? b with
    | some x, some y => .ofNat (16 * x + y) :: decodeBytes rest
    | _, _ => '%'.toUInt8 :: decodeBytes (a :: b :: rest)
  | c :: rest => (String.singleton c).toUTF8.toList ++ decodeBytes rest

/-- The text that a written text stands for. -/
def decode (cs : List Char) : String := Text.decodeLossy (decodeBytes cs)

/-- The scheme of files. -/
def fileScheme : String := "file"

/-- **The name of a file.** -/
def uriOfPath (p : FilePath) : String :=
  fileScheme ++ "://" ++ .ofList (p.render.toUTF8.toList.flatMap encodeByte)

/-- **The parts of a name** that say which file it stands for. -/
structure Uri where
  /-- The scheme in small letters, empty if the name has none. -/
  scheme : String
  authority : String
  path : String
  deriving DecidableEq

namespace Uri

/-- The characters of a scheme. -/
def isSchemeChar (c : Char) : Bool := c.isAlphanum || ['+', '-', '.'].contains c

/-- The scheme of a name, and what is behind its colon.  A scheme begins with a letter. -/
def splitScheme (cs : List Char) : String × List Char :=
  match cs.span (· != ':') with
  | (c :: scheme, _ :: rest) =>
    if c.isAlpha && scheme.all isSchemeChar then (.ofList ((c :: scheme).map Char.toLower), rest)
    else ("", cs)
  | _ => ("", cs)

/-- The authority behind a scheme, and what is behind it. -/
def splitAuthority : List Char → List Char × List Char
  | '/' :: '/' :: rest => rest.span fun c => c != '/' && c != '?' && c != '#'
  | cs => ([], cs)

/-- The schemes under which parameters may follow the last name of a path. -/
def schemesWithParameters : List String :=
  ["", "ftp", "hdl", "prospero", "http", "imap", "https", "shttp", "rtsp", "rtspu", "sip", "sips",
    "mms", "sftp", "tel"]

/-- A path without the parameters behind its last name. -/
def withoutParameters (path : List Char) : List Char :=
  let last := (path.reverse.takeWhile (· != '/')).reverse
  path.take (path.length - last.length) ++ last.takeWhile (· != ';')

/-- The path behind an authority. -/
def splitPath (scheme : String) (cs : List Char) : List Char :=
  let path := cs.takeWhile fun c => c != '?' && c != '#'
  if schemesWithParameters.contains scheme then withoutParameters path else path

/-- The characters of a name that count: blanks and controls in front of it and breaks and
tabs in it do not. -/
def significant (name : String) : List Char :=
  (name.toList.dropWhile (· ≤ ' ')).filter fun c => c != '\t' && c != '\r' && c != '\n'

/-- **Takes a name apart**, unless it is malformed. -/
def ofName? (name : String) : Option Uri :=
  let (scheme, rest) := splitScheme (significant name)
  let (authority, rest) := splitAuthority rest
  if Host.isAuthority authority then
    some ⟨scheme, decode authority, decode (splitPath scheme rest)⟩
  else none

/-- A path without the slash in front of the letter of a drive, which is written small. -/
def withoutDriveSlash (path : String) : String :=
  match path.toList with
  | '/' :: c :: ':' :: rest =>
    if c.isAlpha then .ofList (c.toLower :: ':' :: rest) else path
  | _ => path

/-- **The written path of the file** that a name stands for.  An authority under the scheme of
files is a part of it. -/
def filePath (u : Uri) : String :=
  if u.scheme = fileScheme ∧ u.authority ≠ "" ∧ u.path ≠ "" then "//" ++ u.authority ++ u.path
  else withoutDriveSlash u.path

end Uri
end LoxKit.Editor
