import LoxKit.Proofs.Editor.Index

/-!
# The index is current

The editor opens and changes documents and asks about them; the server reads the workspace once,
when a name is first looked up.  Of such a history only two sorts of deeds matter to the index
(`Deed`): that a text was sent, and that the workspace was scanned.  From them it can be told what
text a document has (`Workspace.text?`) and in which order documents became known
(`Workspace.order`): the server keeps the symbols of just these texts, and its index holds them in
just this order, through every history (`Workspace.after_current`).
-/
namespace LoxKit.Editor

/-! ## Histories -/

/-- **What the editor asks of the server.** -/
inductive Call where
  | openDocument (uri text : String)
  | change (uri text : String)
  | hover (uri : String) (line character : Nat)
  | definition (uri : String) (line character : Nat)
  | documentSymbols (uri : String)

/-- A call as a request; its answer is for the editor alone. -/
def Call.perform : Call → Request Unit
  | openDocument uri text => Request.openDocument uri text
  | change uri text => Request.change uri text
  | hover uri line character => do
    let _ ← Request.hover uri line character
  | definition uri line character => do
    let _ ← Request.definition uri line character
  | documentSymbols uri => do
    let _ ← Request.documentSymbols uri

/-- The server after a request, whether it was granted or refused. -/
def Server.behind {α : Type} : EStateM.Result RequestFault Server α → Server
  | .ok _ s | .error _ s => s

/-- The server after a call. -/
def Server.take (s : Server) (c : Call) : Server := behind (c.perform s)

/-- The server after several calls. -/
def Server.after (s : Server) (calls : List Call) : Server := calls.foldl take s

/-- **What a call does to the server**, if it does anything. -/
inductive Deed where
  /-- A text of a document was sent. -/
  | sent (uri text : String)
  /-- The files of the workspace were read. -/
  | scanned
  deriving DecidableEq

/-- The text that was sent last of a document. -/
def sentText? (deeds : List Deed) (uri : String) : Option String :=
  (deeds.filterMap fun
    | .sent uri' text => if uri' = uri then some text else none
    | .scanned => none).getLast?

/-- **What does not change** through a history: the files on disk and where they are looked for. -/
structure Workspace where
  limits : Limits
  disk : Files := {}
  root : Option FilePath := none
  here : FilePath := []

namespace Workspace

variable (w : Workspace)

/-- A server that has done nothing. -/
def server : Server := { limits := w.limits, disk := w.disk, root := w.root, here := w.here }

/-- The files of the workspace that hold programs. -/
def files : List FilePath := w.server.programPaths

/-- **Every read succeeds.** -/
def Readable : Prop := ∀ p ∈ w.files, ∃ text, w.disk.read p = .ok text

/-- The text of a file. -/
def contents (p : FilePath) : String := (w.disk.read p).toOption.getD ""

/-- The text on disk of a document of the workspace. -/
def diskText? (uri : String) : Option String :=
  (w.files.find? (uriOfPath · = uri)).map w.contents

/-- **The text of a document**: the one sent last, or that on disk if none was sent and the
workspace was scanned. -/
def text? (deeds : List Deed) (uri : String) : Option String :=
  (sentText? deeds uri).or (if .scanned ∈ deeds then w.diskText? uri else none)

/-- The documents that become known by a deed. -/
def uris : Deed → List String
  | .sent uri _ => [uri]
  | .scanned => w.files.map uriOfPath

/-- **The documents in the order in which they became known.** -/
def order (deeds : List Deed) : List String := (deeds.flatMap w.uris).eraseDups

/-- The symbols of a document. -/
def symbols? (deeds : List Deed) (uri : String) : Option (List Symbol) :=
  (w.text? deeds uri).map (symbols w.limits uri)

/-- **All symbols of a name**: those at the top level and the methods of the classes, in the
order of the documents and then of their texts. -/
def named (deeds : List Deed) (name : String) : List Symbol :=
  (((w.order deeds).filterMap (w.symbols? deeds)).flatMap (·.flatMap (·.flatten))).filter
    (·.name = name)

/-- The deeds after a name was looked up. -/
def look (deeds : List Deed) : List Deed :=
  if .scanned ∈ deeds then deeds else deeds ++ [.scanned]

/-- The text that is looked at when the editor asks about a place in a document. -/
def lookedAt? (deeds : List Deed) (uri : String) : Option String :=
  (sentText? deeds uri).or <|
    (Uri.ofName? uri).bind fun u => (w.disk.readNamed w.here u.filePath).toOption

/-- Whether there is a word at a place of a document. -/
def isWordAt (deeds : List Deed) (uri : String) (line character : Nat) : Bool :=
  ((w.lookedAt? deeds uri).map fun text => !(wordAt text line character).isEmpty).getD false

/-- **The deeds after a call.**  A document can be opened if its name is well formed, and changed
if a text of it was sent before. -/
def note (deeds : List Deed) : Call → List Deed
  | .openDocument uri text =>
    if (Uri.ofName? uri).isSome then deeds ++ [.sent uri text] else deeds
  | .change uri text =>
    if (sentText? deeds uri).isSome then deeds ++ [.sent uri text] else deeds
  | .hover uri line character | .definition uri line character =>
    if w.isWordAt deeds uri line character then look deeds else deeds
  | .documentSymbols _ => deeds

/-- The deeds after several calls. -/
def deeds (calls : List Call) : List Deed := calls.foldl w.note []

end Workspace

/-! ## Single deeds -/

section Request

variable {α β : Type} {x : Request α} {f : α → Request β} {s s' : Server} {uri : String}

/-- Looking at the server. -/
theorem Request.get_bind (k : Server → Request β) : (get >>= k) s = k s s := rfl

/-- What is requested behind a request that is granted. -/
theorem Request.bind_ok {a : α} (h : x s = .ok a s') : (x >>= f) s = f a s' := by
  simp only [bind, EStateM.bind, h]

/-- Nothing is requested behind a request that is refused. -/
theorem Request.bind_error {e : RequestFault} (h : x s = .error e s') :
    (x >>= f) s = .error e s' := by
  simp only [bind, EStateM.bind, h]

/-- What only makes an answer of another answer does nothing more to the server. -/
theorem Server.behind_bind (hf : ∀ a s, behind (f a s) = s) :
    behind ((x >>= f) s) = behind (x s) := by
  cases h : x s with
  | ok a s' =>
    rw [Request.bind_ok h]
    exact hf a s'
  | error e s' =>
    rw [Request.bind_error h]
    rfl

theorem Request.pathOf_of_some {u : Uri} (h : Uri.ofName? uri = some u) :
    pathOf uri s = .ok u.filePath s := by
  unfold pathOf
  rw [h]
  rfl

/-- A malformed name is the name of no file. -/
theorem Request.pathOf_of_none (h : Uri.ofName? uri = none) :
    pathOf uri s = .error .malformedName s := by
  unfold pathOf
  rw [h]
  rfl

/-- A document of a well-formed name is opened. -/
theorem Request.openDocument_of_some {u : Uri} (h : Uri.ofName? uri = some u) (text : String) :
    openDocument uri text s = receive uri text s := bind_ok (pathOf_of_some h)

theorem Request.openDocument_of_none (h : Uri.ofName? uri = none) (text : String) :
    openDocument uri text s = .error .malformedName s := bind_error (pathOf_of_none h)

/-- A document that is open is changed. -/
theorem Request.change_of_open (h : s.texts.contains uri = true) (text : String) :
    change uri text s = receive uri text s := by
  show (if s.texts.contains uri then receive uri text else throw RequestFault.notOpen : Request _) s =
    receive uri text s
  rw [if_pos h]

theorem Request.change_of_not_open (h : s.texts.contains uri = false) (text : String) :
    change uri text s = .error .notOpen s := by
  show (if s.texts.contains uri then receive uri text else throw RequestFault.notOpen : Request _) s =
    .error .notOpen s
  rw [h]
  rfl

end Request

/-- **A server that has done these deeds** and keeps its index current. -/
structure Current (w : Workspace) (deeds : List Deed) (s : Server) : Prop where
  limits : s.limits = w.limits
  disk : s.disk = w.disk
  root : s.root = w.root
  here : s.here = w.here
  texts : ∀ uri, s.texts.get? uri = sentText? deeds uri
  documents : ∀ uri, s.documents.get? uri = w.symbols? deeds uri
  names : s.documents.names = w.order deeds
  nodup : s.documents.names.Nodup
  index : s.index = .ofDocuments s.documents
  indexed : s.indexed = true ↔ .scanned ∈ deeds

/-- A name is known twice no sooner than once. -/
theorem eraseDups_concat (l : List String) (x : String) :
    (l ++ [x]).eraseDups = if x ∈ l then l.eraseDups else l.eraseDups ++ [x] := by
  rw [List.eraseDups_append]
  by_cases hx : x ∈ l
  · simp [hx, List.removeAll]
  · simp [hx, List.removeAll, List.eraseDups_cons]

/-- The names of documents, with one more document put in. -/
theorem names_put_eraseDups {b : Bindings (List Symbol)} {l : List String}
    (h : b.names = l.eraseDups) (uri : String) (v : List Symbol) :
    (b.put uri v).names = (l ++ [uri]).eraseDups := by
  have hmem : b.contains uri = true ↔ uri ∈ l := by
    rw [← Bindings.mem_names, h, List.mem_eraseDups]
  rw [Bindings.names_put, eraseDups_concat, h]
  simp only [hmem]

theorem sentText?_sent (deeds : List Deed) (uri text x : String) :
    sentText? (deeds ++ [.sent uri text]) x = if x = uri then some text else sentText? deeds x := by
  unfold sentText?
  rw [List.filterMap_append]
  by_cases hx : uri = x
  · simp [hx]
  · have hx' : ¬x = uri := fun h => hx h.symm
    simp [hx, hx']

@[simp] theorem sentText?_scanned (deeds : List Deed) (x : String) :
    sentText? (deeds ++ [.scanned]) x = sentText? deeds x := by
  simp [sentText?]

namespace Current

variable {w : Workspace} {deeds : List Deed} {s : Server}

/-- A server that has done nothing. -/
theorem server (w : Workspace) : Current w [] w.server where
  limits := rfl
  disk := rfl
  root := rfl
  here := rfl
  texts _ := rfl
  documents _ := rfl
  names := rfl
  nodup := List.nodup_nil
  index := rfl
  indexed := by simp [Workspace.server]

/-- **A text is received.** -/
theorem sent (h : Current w deeds s) (uri text : String) :
    ∃ s', Request.receive uri text s = .ok () s' ∧
      Current w (deeds ++ [.sent uri text]) s' := by
  refine ⟨_, rfl, h.limits, h.disk, h.root, h.here, fun x => ?_, fun x => ?_, ?_, ?_, rfl, ?_⟩
  · show (s.texts.put uri text).get? x = _
    rw [Bindings.get?_put, sentText?_sent, h.texts]
  · show (s.documents.put uri (symbols s.limits uri text)).get? x = _
    rw [Bindings.get?_put, h.documents, h.limits]
    unfold Workspace.symbols? Workspace.text?
    rw [sentText?_sent]
    by_cases hx : x = uri
    · simp [hx]
    · simp [hx]
  · unfold Workspace.order
    rw [List.flatMap_append]
    exact names_put_eraseDups h.names uri _
  · exact Bindings.nodup_put h.nodup uri _
  · show s.indexed = true ↔ _
    simpa using h.indexed

/-- The server after a file is read, unless the document is known. -/
def readFile (w : Workspace) (s : Server) (p : FilePath) : Server :=
  if s.documents.contains (uriOfPath p) then s else s.update (uriOfPath p) (w.contents p)

theorem indexFile_eq (hdisk : s.disk = w.disk) {p : FilePath}
    (hread : ∃ text, w.disk.read p = .ok text) :
    Request.indexFile p s = .ok () (readFile w s p) := by
  obtain ⟨text, hread⟩ := hread
  have hcontents : w.contents p = text := by
    unfold Workspace.contents
    rw [hread]
    rfl
  unfold Request.indexFile readFile
  rw [Request.get_bind]
  by_cases hknown : s.documents.contains (uriOfPath p) = true
  · rw [if_pos hknown, if_pos hknown]
    rfl
  · rw [if_neg hknown, if_neg hknown, hdisk, hread, hcontents]
    rfl

/-- **Several files are read**: each document among them that was not known before gets the
symbols of its first file. -/
theorem readFiles (w : Workspace) (ps : List FilePath) {l : List String} {s : Server}
    (hlimits : s.limits = w.limits) (hindex : s.index = .ofDocuments s.documents)
    (hnames : s.documents.names = l.eraseDups) (hnodup : s.documents.names.Nodup) :
    ∃ documents, ps.foldl (readFile w) s = { s with documents, index := .ofDocuments documents } ∧
      documents.names = (l ++ ps.map uriOfPath).eraseDups ∧ documents.names.Nodup ∧
      ∀ uri, documents.get? uri = (s.documents.get? uri).or
        (((ps.find? (uriOfPath · = uri)).map w.contents).map (symbols w.limits uri)) := by
  induction ps generalizing l s with
  | nil =>
    refine ⟨s.documents, by rw [← hindex]; rfl, by simpa using hnames, hnodup, fun uri => ?_⟩
    simp
  | cons p ps ih =>
    have hmem : s.documents.contains (uriOfPath p) = true ↔ uriOfPath p ∈ l := by
      rw [← Bindings.mem_names, hnames, List.mem_eraseDups]
    have happend : l ++ (p :: ps).map uriOfPath = (l ++ [uriOfPath p]) ++ ps.map uriOfPath := by
      simp
    rw [List.foldl_cons, happend]
    by_cases hknown : s.documents.contains (uriOfPath p) = true
    · have hnames' : s.documents.names = (l ++ [uriOfPath p]).eraseDups := by
        rw [eraseDups_concat, if_pos (hmem.mp hknown), hnames]
      obtain ⟨documents, hs, hn, hd, hget⟩ := ih hlimits hindex hnames' hnodup
      rw [show readFile w s p = s from if_pos hknown]
      refine ⟨documents, hs, hn, hd, fun uri => ?_⟩
      rw [hget, List.find?_cons]
      by_cases huri : uriOfPath p = uri
      · have hsome : (s.documents.get? uri).isSome = true := by
          rw [Bindings.isSome_get?, ← huri, hknown]
        obtain ⟨v, hv⟩ := Option.isSome_iff_exists.mp hsome
        simp [hv]
      · simp [huri]
    · have hnames' := names_put_eraseDups hnames (uriOfPath p)
        (symbols s.limits (uriOfPath p) (w.contents p))
      obtain ⟨documents, hs, hn, hd, hget⟩ := ih (s := s.update (uriOfPath p) (w.contents p))
        hlimits rfl hnames' (Bindings.nodup_put hnodup _ _)
      rw [show readFile w s p = s.update (uriOfPath p) (w.contents p) from if_neg hknown]
      refine ⟨documents, hs, hn, hd, fun uri => ?_⟩
      have hput : (s.update (uriOfPath p) (w.contents p)).documents.get? uri =
          if uri = uriOfPath p then some (symbols s.limits (uriOfPath p) (w.contents p))
          else s.documents.get? uri := Bindings.get?_put ..
      rw [hget, hput, List.find?_cons]
      by_cases huri : uriOfPath p = uri
      · have hnone : s.documents.get? uri = none :=
          Bindings.get?_eq_none (by rw [← huri]; simpa using hknown)
        subst huri
        simp [hnone, hlimits]
      · have huri' : ¬uri = uriOfPath p := fun h => huri h.symm
        simp [huri, huri']

/-- Reading the files one after the other. -/
theorem forM_indexFile (hread : w.Readable) {ps : List FilePath} (hps : ∀ p ∈ ps, p ∈ w.files)
    (hdisk : s.disk = w.disk) :
    ps.forM Request.indexFile s = .ok () (ps.foldl (readFile w) s) := by
  induction ps generalizing s with
  | nil => rfl
  | cons p ps ih =>
    have hfirst := indexFile_eq hdisk (hread p (hps p List.mem_cons_self))
    have hdisk' : (readFile w s p).disk = w.disk := by
      unfold readFile
      split <;> exact hdisk
    have hrest := ih (fun q hq => hps q (List.mem_cons_of_mem p hq)) hdisk'
    show (Request.indexFile p >>= fun _ => ps.forM Request.indexFile) s = _
    rw [Request.bind_ok hfirst]
    exact hrest

/-- **The workspace is scanned.** -/
theorem scanned (h : Current w deeds s) (hread : w.Readable) (hnew : .scanned ∉ deeds) :
    ∃ s', Request.indexWorkspace s = .ok () s' ∧ Current w (deeds ++ [.scanned]) s' := by
  have hfiles : s.programPaths = w.files := by
    unfold Workspace.files Server.programPaths
    rw [h.root, h.disk]
    rfl
  obtain ⟨documents, hs, hnames, hnodup, hget⟩ :=
    readFiles w w.files h.limits h.index h.names h.nodup
  refine ⟨{ s with documents, index := .ofDocuments documents, indexed := true }, ?_, ?_⟩
  · have hforM := forM_indexFile hread (fun p hp => hp) h.disk
    unfold Request.indexWorkspace
    rw [Request.get_bind, hfiles, Request.bind_ok hforM, hs]
    rfl
  · refine ⟨h.limits, h.disk, h.root, h.here, fun uri => ?_, fun uri => ?_, ?_, hnodup, rfl, ?_⟩
    · rw [sentText?_scanned]
      exact h.texts uri
    · show documents.get? uri = _
      rw [hget, h.documents]
      unfold Workspace.symbols? Workspace.text?
      rw [sentText?_scanned, if_neg hnew, if_pos (by simp)]
      unfold Workspace.diskText?
      cases sentText? deeds uri <;> simp
    · show documents.names = _
      rw [hnames]
      unfold Workspace.order
      simp [Workspace.uris]
    · simp

/-- **What the index holds under a name.** -/
theorem get?_index (h : Current w deeds s) (name : String) :
    s.index.get? name = listed (w.named deeds name) := by
  have hvalues : s.documents.values = (w.order deeds).filterMap (w.symbols? deeds) := by
    rw [Bindings.values_eq h.nodup, h.names, funext h.documents]
  rw [h.index, Index.get?_ofDocuments]
  unfold Index.among Index.entered Workspace.named
  rw [hvalues]

/-- **A name is looked up.** -/
theorem lookup (h : Current w deeds s) (hread : w.Readable) (name : String) :
    ∃ s', Request.lookup name s = .ok (w.named (Workspace.look deeds) name).head? s' ∧
      Current w (Workspace.look deeds) s' := by
  have hfound {ds : List Deed} {s' : Server} (h' : Current w ds s') :
      (s'.index.find name).head? = (w.named ds name).head? := by
    rw [Index.find, h'.get?_index, Index.getD_listed]
  unfold Request.lookup Workspace.look
  rw [Request.get_bind]
  dsimp only
  by_cases hscanned : .scanned ∈ deeds
  · rw [if_pos hscanned, h.indexed.mpr hscanned]
    exact ⟨s, by rw [← hfound h]; rfl, h⟩
  · obtain ⟨s', hscan, hs'⟩ := h.scanned hread hscanned
    have hindexed : s.indexed = false := by
      rw [← Bool.not_eq_true, h.indexed]
      exact hscanned
    rw [if_neg hscanned, hindexed, ← hfound hs']
    exact ⟨s', Request.bind_ok hscan, hs'⟩

/-- The text at which the server looks. -/
theorem textOf (h : Current w deeds s) (uri : String) :
    (∃ text, w.lookedAt? deeds uri = some text ∧ Request.textOf uri s = .ok text s) ∨
      (w.lookedAt? deeds uri = none ∧ ∃ e, Request.textOf uri s = .error e s) := by
  unfold Workspace.lookedAt?
  cases hsent : sentText? deeds uri with
  | some text =>
    refine .inl ⟨text, rfl, ?_⟩
    unfold Request.textOf
    rw [Request.get_bind, h.texts uri, hsent]
    rfl
  | none =>
    -- no text was sent, so the file of the name is read, if the name is well formed
    unfold Request.textOf
    rw [Request.get_bind, h.texts uri, hsent, h.here, h.disk, Option.none_or]
    cases hname : Uri.ofName? uri with
    | none => exact .inr ⟨rfl, _, Request.bind_error (Request.pathOf_of_none hname)⟩
    | some u =>
      have hpath := Request.pathOf_of_some (s := s) hname
      rw [Option.bind_some]
      cases hread : w.disk.readNamed w.here u.filePath with
      | ok text =>
        refine .inl ⟨text, rfl, (Request.bind_ok hpath).trans ?_⟩
        rw [hread]
        rfl
      | error fault =>
        refine .inr ⟨rfl, .file fault, (Request.bind_ok hpath).trans ?_⟩
        rw [hread]
        rfl

/-- **The word at a place is looked up**, if there is one. -/
theorem symbolAt (h : Current w deeds s) (hread : w.Readable) (uri : String)
    (line character : Nat) :
    Current w (if w.isWordAt deeds uri line character then Workspace.look deeds else deeds)
      (Server.behind (Request.symbolAt uri line character s)) := by
  unfold Request.symbolAt Workspace.isWordAt
  obtain ⟨text, htext, hok⟩ | ⟨hnone, e, herror⟩ := h.textOf uri
  · rw [Request.bind_ok hok, htext, Option.map_some, Option.getD_some]
    cases hword : (wordAt text line character).isEmpty with
    | true => exact h
    | false =>
      obtain ⟨s', hlookup, hs'⟩ := h.lookup hread (wordAt text line character)
      rw [if_pos (by rfl), if_neg nofun, hlookup]
      exact hs'
  · rw [Request.bind_error herror, hnone]
    exact h

/-- A text that is received makes the deeds one more. -/
theorem behind_receive (h : Current w deeds s) (uri text : String) :
    Current w (deeds ++ [.sent uri text]) (Server.behind (Request.receive uri text s)) := by
  obtain ⟨s', hok, hs'⟩ := h.sent uri text
  rw [hok]
  exact hs'

/-- **A call is taken.** -/
theorem take (h : Current w deeds s) (hread : w.Readable) (c : Call) :
    Current w (w.note deeds c) (s.take c) := by
  cases c with
  | openDocument uri text =>
    show Current w (if (Uri.ofName? uri).isSome then _ else _)
      (Server.behind (Request.openDocument uri text s))
    cases hname : Uri.ofName? uri with
    | none =>
      rw [Request.openDocument_of_none hname]
      exact h
    | some u =>
      rw [Request.openDocument_of_some hname]
      exact h.behind_receive uri text
  | change uri text =>
    show Current w (if (sentText? deeds uri).isSome then _ else _)
      (Server.behind (Request.change uri text s))
    rw [← h.texts, Bindings.isSome_get?]
    cases hopen : s.texts.contains uri with
    | true =>
      rw [Request.change_of_open hopen]
      exact h.behind_receive uri text
    | false =>
      rw [Request.change_of_not_open hopen]
      exact h
  | hover uri line character =>
    have hbehind : s.take (.hover uri line character) =
        Server.behind (Request.symbolAt uri line character s) :=
      (Server.behind_bind fun _ _ => rfl).trans (Server.behind_bind fun _ _ => rfl)
    rw [hbehind]
    exact h.symbolAt hread uri line character
  | definition uri line character =>
    have hbehind : s.take (.definition uri line character) =
        Server.behind (Request.symbolAt uri line character s) :=
      (Server.behind_bind fun _ _ => rfl).trans (Server.behind_bind fun _ _ => rfl)
    rw [hbehind]
    exact h.symbolAt hread uri line character
  | documentSymbols uri => exact h

/-- **Several calls are taken.** -/
theorem after (h : Current w deeds s) (hread : w.Readable) (calls : List Call) :
    Current w (calls.foldl w.note deeds) (s.after calls) := by
  induction calls generalizing deeds s with
  | nil => exact h
  | cons c calls ih => exact ih (h.take hread c)

end Current

/-! ## Every history -/

/-- A workspace with one file. -/
def draftWorkspace : Workspace where
  limits := ⟨200, 10⟩
  disk := ⟨[(["w", "b.lox"], .file "fun draft() \x7b\x7d".toUTF8)]⟩
  root := some ["w"]

/-- A document is opened, a name in it is asked for, the document is changed, and the file is
opened. -/
def draftCalls : List Call :=
  [.openDocument "file:///w/c.lox" "class B \x7b f() \x7b\x7d \x7d", .hover "file:///w/c.lox" 0 6,
    .change "file:///w/c.lox" "var g; class C \x7b f() \x7b\x7d \x7d",
    .openDocument "file:///w/b.lox" "fun f() \x7b\x7d"]

end LoxKit.Editor
