import LoxKit.Text.Lines
import LoxKit.Text.Quoted

/-!
# Files

What a program can find where it looks for files: a tree of entries under their paths, each
a file with its bytes, a directory, or a file that may not be opened.  A directory is also
there if only something inside it is listed.  Reading a file takes its bytes as UTF-8 and
unifies its line endings.
-/
namespace LoxKit

/-- What stands under a path. -/
inductive FileEntry where
  | file (bytes : ByteArray)
  | directory
  /-- A file that may not be opened. -/
  | locked

/-- **Why a file cannot be read.** -/
inductive FileFault where
  | missing
  | directory
  /-- What stands where the path needs a directory is none. -/
  | notDirectory
  | locked
  /-- The path, or a name in it, is longer than the system takes. -/
  | tooLong
  /-- The path holds a character that no path can hold. -/
  | unnameable
  /-- The bytes are no UTF-8. -/
  | malformed
  deriving DecidableEq

/-- The wording of the faults of the system itself, for a path. -/
def FileFault.systemMessage? (path : String) : FileFault → Option String
  | missing => some s!"[Errno 2] No such file or directory: {Text.quoted path}"
  | directory => some s!"[Errno 21] Is a directory: {Text.quoted path}"
  | notDirectory => some s!"[Errno 20] Not a directory: {Text.quoted path}"
  | locked => some s!"[Errno 13] Permission denied: {Text.quoted path}"
  | tooLong => some s!"[Errno 36] File name too long: {Text.quoted path}"
  | unnameable | malformed => none

/-- The text of a file with the given bytes. -/
def decodeFile (bytes : ByteArray) : Except FileFault String :=
  match String.fromUTF8? bytes with
  | some s => .ok (.ofList (Text.unifyEndings s.toList))
  | none => .error .malformed

/-- The names that make up a path. -/
abbrev FilePath := List String

/-- The names of a written path. -/
def FilePath.parse (path : String) : FilePath :=
  (path.splitOn "/").filter fun name => name ≠ "" ∧ name ≠ "."

/-- The bytes a name may have. -/
def nameLimit : Nat := 255

/-- The bytes a written path must stay below. -/
def pathLimit : Nat := 4096

/-- A path from the root as it is written. -/
def FilePath.render (p : FilePath) : String := String.join (p.map ("/" ++ ·))

/-- The path itself and those of the directories around it, the outermost first. -/
def FilePath.heads (p : FilePath) : List FilePath :=
  (List.range p.length).map fun n => p.take (n + 1)

/-- **A tree of files.** -/
structure Files where
  entries : List (FilePath × FileEntry) := []

namespace Files

/-- Whether something is listed inside a directory of the given path. -/
def isInhabited (fs : Files) (p : FilePath) : Bool :=
  fs.entries.any fun e => p.isPrefixOf e.1 && p.length < e.1.length

/-- What stands under a path, if anything.  The root is always a directory. -/
def entry? (fs : Files) (p : FilePath) : Option FileEntry :=
  match fs.entries.lookup p with
  | some e => some e
  | none => if p.isEmpty || fs.isInhabited p then some .directory else none

/-- **Reads a file.** -/
def read (fs : Files) (p : FilePath) : Except FileFault String :=
  match fs.entry? p with
  | none => .error .missing
  | some .directory => .error .directory
  | some .locked => .error .locked
  | some (.file bytes) => decodeFile bytes

/-- **Follows the names of a path**, one directory after the other.  The empty name and `.`
stand for the directory itself, `..` for the one around it. -/
def follow (fs : Files) (here : FilePath) : List String → Except FileFault FilePath
  | [] => .ok here
  | name :: rest =>
    match fs.entry? here with
    | none => .error .missing
    | some .directory =>
      if name = "" ∨ name = "." then fs.follow here rest
      else if name = ".." then fs.follow here.dropLast rest
      else if nameLimit < name.utf8ByteSize then .error .tooLong
      else fs.follow (here ++ [name]) rest
    | some _ => .error .notDirectory

/-- **Reads the file of a written path**, which starts at the root or else at the directory
one works in.  Nothing stands under the empty text. -/
def readNamed (fs : Files) (here : FilePath) (path : String) : Except FileFault String :=
  if path.isEmpty then .error .missing
  else if path.contains '\x00' then .error .unnameable
  else if pathLimit ≤ path.utf8ByteSize then .error .tooLong
  else do fs.read (← fs.follow (if path.startsWith "/" then [] else here) (path.splitOn "/"))

/-- All paths under which something stands, directories included. -/
def paths (fs : Files) : List FilePath :=
  (fs.entries.flatMap fun e => e.1.heads).eraseDups

end Files
end LoxKit
