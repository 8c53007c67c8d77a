import LoxKit.Editor.Diagnostics
import LoxKit.Editor.Symbols
import LoxKit.Editor.Uri
import LoxKit.Editor.Word

/-!
# The editor's server

The server keeps the documents that are open in an editor, the symbols of every document it
has read, and an index of these by name.  It answers questions about the word at a place.
The files of the workspace are read when a name is first looked up; a document the editor
has sent takes precedence over the file of the same name.
-/
namespace LoxKit.Editor

/-- The symbols of several documents under their names, in the order of the documents. -/
abbrev Index := Bindings (List Symbol)

namespace Index

/-- The symbols of a name. -/
def find (i : Index) (name : String) : List Symbol := (i.get? name).getD []

/-- Enters a symbol behind the others of its name. -/
def enter (i : Index) (s : Symbol) : Index := i.put s.name (i.find s.name ++ [s])

/-- **The index of the symbols of several documents.** -/
def ofDocuments (documents : Bindings (List Symbol)) : Index :=
  (documents.values.flatMap (·.flatMap (·.flatten))).foldl enter .empty

end Index

/-- What the server tells the editor without being asked. -/
inductive Event where
  | publish (uri : String) (marks : List Mark)
  | log (text : String)

/-- **The state of the server.** -/
structure Server where
  /-- How far documents may nest. -/
  limits : Limits
  /-- The files on disk. -/
  disk : Files := {}
  /-- The root of the workspace, if there is one. -/
  root : Option FilePath := none
  /-- The directory that relative paths start from. -/
  here : FilePath := []
  /-- The texts of the documents open in the editor. -/
  texts : Bindings String := .empty
  /-- The symbols of each document read, in the order in which they were first read. -/
  documents : Bindings (List Symbol) := .empty
  index : Index := .empty
  /-- Whether the workspace has been read. -/
  indexed : Bool := false
  /-- What the editor was told, in order. -/
  sent : List Event := []

/-- **Why a request is refused.** -/
inductive RequestFault where
  /-- A file cannot be read. -/
  | file (fault : FileFault)
  /-- The name of a document is malformed. -/
  | malformedName
  /-- The document is not open in the editor. -/
  | notOpen
  deriving DecidableEq

/-- A request to the server, which may be refused. -/
abbrev Request := EStateM RequestFault Server

namespace Server

/-- The files of the workspace that hold programs, directories of such names included: those
of a directory before those of the directories in it. -/
def programPaths (s : Server) : List FilePath :=
  match s.root with
  | none => []
  | some root =>
    let inside := s.disk.paths.filter fun p =>
      root.isPrefixOf p && root.length < p.length && (p.getLastD "").endsWith ".lox"
    inside.mergeSort fun p q =>
      p.dropLast < q.dropLast || (p.dropLast = q.dropLast && p.getLastD "" ≤ q.getLastD "")

/-- Keeps the symbols of a document in place of those kept before. -/
def update (s : Server) (uri text : String) : Server :=
  let documents := s.documents.put uri (symbols s.limits uri text)
  { s with documents, index := .ofDocuments documents }

/-- Tells the editor something. -/
def tell (s : Server) (e : Event) : Server := { s with sent := s.sent ++ [e] }

end Server

namespace Request

/-- Reads a file of the workspace, unless the document is known already.  A file that the
system refuses to read is logged and passed over. -/
def indexFile (path : FilePath) : Request Unit := do
  let s ← get
  let uri := uriOfPath path
  if s.documents.contains uri then return
  else
    match s.disk.read path with
    | .ok text => set (s.update uri text)
    | .error fault =>
      match fault.systemMessage? path.render with
      | some message => set (s.tell (.log s!"Failed to index {path.render}: {message}"))
      | none => throw (.file fault)

/-- Reads the files of the workspace. -/
def indexWorkspace : Request Unit := do
  (← get).programPaths.forM indexFile
  modify ({ · with indexed := true })

/-- Keeps the symbols of a document. -/
def update (uri text : String) : Request Unit := modify (·.update uri text)

/-- **Looks a name up**, after the workspace has been read. -/
def lookup (name : String) : Request (Option Symbol) := do
  if !(← get).indexed then indexWorkspace
  return ((← get).index.find name).head?

/-- Takes a new text of a document, and publishes what is wrong with it. -/
def receive (uri text : String) : Request Unit :=
  modify fun s =>
    let s := { s with texts := s.texts.put uri text }.update uri text
    s.tell (.publish uri (diagnostics s.limits text))

/-- The written path of the file that a name stands for. -/
def pathOf (uri : String) : Request String := do
  match Uri.ofName? uri with
  | some u => return u.filePath
  | none => throw .malformedName

/-- **Opens a document** in the editor. -/
def openDocument (uri text : String) : Request Unit := do
  let _ ← pathOf uri
  receive uri text

/-- **Changes the text of an open document.** -/
def change (uri text : String) : Request Unit := do
  if (← get).texts.contains uri then receive uri text else throw .notOpen

/-- The text of a document: the one the editor sent, or else the one on disk. -/
def textOf (uri : String) : Request String := do
  let s ← get
  match s.texts.get? uri with
  | some text => return text
  | none =>
    match s.disk.readNamed s.here (← pathOf uri) with
    | .ok text => return text
    | .error fault => throw (.file fault)

/-- The symbol of the word at a place.  Where there is no word nothing is looked up. -/
def symbolAt (uri : String) (line character : Nat) : Request (Option Symbol) := do
  let word := wordAt (← textOf uri) line character
  if word.isEmpty then return none else lookup word

/-- **The text to show at a place.** -/
def hover (uri : String) (line character : Nat) : Request (Option String) := do
  return (← symbolAt uri line character).map (·.detail)

/-- **Where the name at a place is declared.** -/
def definition (uri : String) (line character : Nat) : Request (Option (String × Range)) := do
  return (← symbolAt uri line character).map fun s => (s.uri, s.range)

/-- **The symbols of a document**, as far as the server knows it. -/
def documentSymbols (uri : String) : Request (List Symbol) := do
  return ((← get).documents.get? uri).getD []

end Request
end LoxKit.Editor
