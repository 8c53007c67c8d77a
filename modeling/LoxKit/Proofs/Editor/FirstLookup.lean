import LoxKit.Proofs.Editor.FileNames
import LoxKit.Proofs.Editor.History
import Mathlib.Data.List.TakeWhile

/-!
# The first lookup

When a name is first looked up the server reads the files of the workspace, one after the other.
A file that the system refuses to read is logged and passed over.  Bytes that are no UTF-8 are a
fault of another sort: the lookup is refused there, what was read in front of that file is kept, and
the workspace does not count as read.  So a lookup is granted exactly if no file that is read has
such bytes, and as long as there is one no lookup is (`Workspace.lookup_granted_iff`).
-/
namespace LoxKit.Editor

/-! ## What a scan makes of the files -/

namespace Server

/-- The files that a scan has to read: those of documents that are not known. -/
def unread (s : Server) : List FilePath :=
  s.programPaths.filter fun p => !s.documents.contains (uriOfPath p)

/-- Whether a scan gets past a file. -/
def passes (s : Server) (p : FilePath) : Bool :=
  match s.disk.read p with
  | .error fault => (fault.systemMessage? p.render).isSome
  | .ok _ => true

/-- A file that can be read, as the document it is. -/
def document? (s : Server) (p : FilePath) : Option (String × List Symbol) :=
  (s.disk.read p).toOption.map fun text => (uriOfPath p, symbols s.limits (uriOfPath p) text)

/-- What the editor is told of a file that the system refuses to read. -/
def refusal? (s : Server) (p : FilePath) : Option Event :=
  match s.disk.read p with
  | .ok _ => none
  | .error fault => (fault.systemMessage? p.render).map fun message =>
      .log s!"Failed to index {p.render}: {message}"

/-- **The server after some files have been read**: it knows their documents behind the others, and
has told the editor of those it could not read. -/
def reading (s : Server) (ps : List FilePath) : Server :=
  let documents := ⟨s.documents.entries ++ ps.filterMap s.document?⟩
  { s with documents, index := .ofDocuments documents, sent := s.sent ++ ps.filterMap s.refusal? }

variable {s : Server} {p : FilePath}

theorem reading_nil (h : s.index = .ofDocuments s.documents) : s.reading [] = s := by
  unfold reading
  simp only [List.filterMap_nil, List.append_nil]
  rw [← h]

theorem document?_of_ok {text : String} (h : s.disk.read p = .ok text) :
    s.document? p = some (uriOfPath p, symbols s.limits (uriOfPath p) text) := by
  rw [document?, h]
  rfl

theorem refusal?_of_error {fault : FileFault} {message : String}
    (h : s.disk.read p = .error fault) (hmessage : fault.systemMessage? p.render = some message) :
    s.refusal? p = some (.log s!"Failed to index {p.render}: {message}") := by
  rw [refusal?, h]
  exact congrArg (Option.map _) hmessage

/-- A file that can be read is read behind the others. -/
theorem reading_ok {text : String} (done : List FilePath) (hread : s.disk.read p = .ok text)
    (hnew : (s.reading done).documents.contains (uriOfPath p) = false) :
    (s.reading done).update (uriOfPath p) text = s.reading (done ++ [p]) := by
  have hrefusal : s.refusal? p = none := by rw [refusal?, hread]
  have hput : (s.reading done).documents.put (uriOfPath p) (symbols s.limits (uriOfPath p) text) =
      (s.reading (done ++ [p])).documents := by
    unfold Bindings.put
    rw [hnew, if_neg nofun]
    simp [reading, document?_of_ok hread]
  unfold update
  rw [show (s.reading done).limits = s.limits from rfl, hput]
  simp [reading, hrefusal]

/-- A file that the system refuses to read is told of. -/
theorem reading_refused {fault : FileFault} {message : String} (done : List FilePath)
    (hread : s.disk.read p = .error fault) (hmessage : fault.systemMessage? p.render = some message) :
    (s.reading done).tell (.log s!"Failed to index {p.render}: {message}") =
      s.reading (done ++ [p]) := by
  have hdocument : s.document? p = none := by
    rw [document?, hread]
    rfl
  simp [reading, tell, hdocument, refusal?_of_error hread hmessage]

/-- A document is known after some files have been read if it was known or one of them is its. -/
theorem contains_reading {ps : List FilePath} (hnew : uriOfPath p ∉ ps.map uriOfPath) :
    (s.reading ps).documents.contains (uriOfPath p) = s.documents.contains (uriOfPath p) := by
  have hnone : (ps.filterMap s.document?).any (·.1 == uriOfPath p) = false := by
    rw [List.any_eq_false]
    intro e he hname
    obtain ⟨q, hq, he⟩ := List.mem_filterMap.mp he
    obtain ⟨text, -, rfl⟩ := Option.map_eq_some_iff.mp he
    exact hnew (List.mem_map.mpr ⟨q, hq, by simpa using hname⟩)
  simp only [reading, Bindings.contains, List.any_append, hnone, Bool.or_false]

/-- A scan does not get past bytes that are no UTF-8, and past everything else. -/
theorem passes_eq_false_iff : s.passes p = false ↔ s.disk.read p = .error .malformed := by
  unfold passes Files.read
  cases s.disk.entry? p with
  | none => simp [FileFault.systemMessage?]
  | some e =>
    cases e with
    | directory | locked => simp [FileFault.systemMessage?]
    | file bytes =>
      cases h : String.fromUTF8? bytes <;> simp [decodeFile, h, FileFault.systemMessage?]

end Server

/-! ## One file and several -/

section Scan

variable {s : Server} {p : FilePath} {done : List FilePath}

/-- Nothing is done about a file whose document is known. -/
theorem Request.indexFile_known (h : s.documents.contains (uriOfPath p) = true) :
    indexFile p s = .ok () s := by
  unfold indexFile
  rw [get_bind, if_pos h]
  rfl

/-- **One more file is read.** -/
theorem Request.indexFile_new
    (hnew : (s.reading done).documents.contains (uriOfPath p) = false) :
    indexFile p (s.reading done) = if s.passes p then .ok () (s.reading (done ++ [p]))
      else .error (.file .malformed) (s.reading done) := by
  unfold indexFile
  rw [get_bind, if_neg (by simp [hnew]), show (s.reading done).disk = s.disk from rfl]
  cases hread : s.disk.read p with
  | ok text =>
    have hpasses : s.passes p = true := by rw [Server.passes, hread]
    rw [if_pos hpasses, ← Server.reading_ok done hread hnew]
    rfl
  | error fault =>
    cases fault with
    | missing | directory | notDirectory | locked | tooLong =>
      have hpasses : s.passes p = true := by
        rw [Server.passes, hread]
        rfl
      rw [if_pos hpasses, ← Server.reading_refused done hread rfl]
      rfl
    | unnameable =>
      -- what stands under a path that is listed can be named
      have hpasses : s.passes p = false := by
        rw [Server.passes, hread]
        rfl
      have hmalformed := Server.passes_eq_false_iff.mp hpasses
      rw [hread] at hmalformed
      cases hmalformed
    | malformed =>
      have hpasses : s.passes p = false := Server.passes_eq_false_iff.mpr hread
      rw [if_neg (by simp [hpasses])]
      rfl

/-- **Files are read up to the first that a scan does not get past**, known documents left out. -/
theorem Request.forM_indexFile (ps : List FilePath)
    (hnodup : ((done ++ ps).map uriOfPath).Nodup) :
    ps.forM indexFile (s.reading done) =
      let new := ps.filter fun p => !s.documents.contains (uriOfPath p)
      let read := s.reading (done ++ new.takeWhile s.passes)
      if new.all s.passes then .ok () read else .error (.file .malformed) read := by
  induction ps generalizing done with
  | nil => simp; rfl
  | cons p ps ih =>
    have hp : uriOfPath p ∉ done.map uriOfPath := by
      rw [List.map_append, List.nodup_append] at hnodup
      exact fun h => hnodup.2.2 _ h _ (by simp) rfl
    have hknown := Server.contains_reading (s := s) hp
    show (indexFile p >>= fun _ => ps.forM indexFile) (s.reading done) = _
    cases hc : s.documents.contains (uriOfPath p) with
    | true =>
      rw [hc] at hknown
      have hrest : ((done ++ ps).map uriOfPath).Nodup :=
        hnodup.sublist (((List.sublist_cons_self p ps).append_left done).map uriOfPath)
      rw [bind_ok (indexFile_known hknown), ih hrest]
      simp [hc]
    | false =>
      rw [hc] at hknown
      have hfirst := indexFile_new hknown
      cases hpass : s.passes p with
      | true =>
        rw [if_pos hpass] at hfirst
        rw [bind_ok hfirst, ih (by simpa using hnodup)]
        simp [hc, hpass]
      | false =>
        rw [if_neg (by simp [hpass])] at hfirst
        rw [bind_error hfirst]
        simp [hc, hpass]

/-- A name is looked up without a scan once the workspace has been read. -/
theorem Request.lookup_indexed (h : s.indexed = true) (name : String) :
    lookup name s = .ok (s.index.find name).head? s := by
  unfold lookup
  rw [get_bind]
  dsimp only
  rw [h]
  rfl

/-- **The workspace is scanned.** -/
theorem Request.indexWorkspace_eq (hindex : s.index = .ofDocuments s.documents)
    (hnames : s.disk.WellNamed) :
    indexWorkspace s =
      let read := s.reading (s.unread.takeWhile s.passes)
      if s.unread.all s.passes then .ok () { read with indexed := true }
      else .error (.file .malformed) read := by
  have hscan : s.programPaths.forM indexFile s =
      if s.unread.all s.passes then .ok () (s.reading (s.unread.takeWhile s.passes))
      else .error (.file .malformed) (s.reading (s.unread.takeWhile s.passes)) := by
    have h : s.programPaths.forM indexFile (s.reading []) = _ :=
      forM_indexFile s.programPaths (Server.nodup_uris hnames)
    rwa [Server.reading_nil hindex] at h
  unfold indexWorkspace
  rw [get_bind]
  cases hall : s.unread.all s.passes with
  | true =>
    rw [hall, if_pos rfl] at hscan
    exact bind_ok hscan
  | false =>
    rw [hall, if_neg nofun] at hscan
    exact bind_error hscan

/-- **The first lookup.** -/
theorem Request.lookup_new (hindex : s.index = .ofDocuments s.documents)
    (hnames : s.disk.WellNamed) (hnew : s.indexed = false) (name : String) :
    lookup name s =
      let read := s.reading (s.unread.takeWhile s.passes)
      if s.unread.all s.passes then .ok (read.index.find name).head? { read with indexed := true }
      else .error (.file .malformed) read := by
  have hscan := indexWorkspace_eq hindex hnames
  unfold lookup
  rw [get_bind, hnew, if_pos (by rfl)]
  cases hall : s.unread.all s.passes with
  | true =>
    rw [hall] at hscan
    exact bind_ok hscan
  | false =>
    rw [hall] at hscan
    exact bind_error hscan

/-- A file that a scan did not get past is unread as before, and so is refused again. -/
theorem Server.not_passes_reading (hnames : s.disk.WellNamed)
    (hall : s.unread.all s.passes = false) :
    let read := s.reading (s.unread.takeWhile s.passes)
    read.unread.all read.passes = false := by
  obtain ⟨p, hp, hpasses⟩ := List.all_eq_false.mp hall
  obtain ⟨hfile, hnew⟩ := List.mem_filter.mp hp
  refine List.all_eq_false.mpr ⟨p, List.mem_filter.mpr ⟨hfile, ?_⟩, hpasses⟩
  rw [contains_reading fun h => ?_]
  · exact hnew
  · obtain ⟨q, hq, hname⟩ := List.mem_map.mp h
    have hqfile : q ∈ s.programPaths := List.mem_of_mem_filter ((List.takeWhile_subset _) hq)
    have heq := uriOfPath_inj (wellNamed hnames hqfile) (wellNamed hnames hfile) hname
    exact hpasses (heq ▸ List.all_eq_true.mp List.all_takeWhile q hq)

end Scan

/-! ## Every history -/

/-- **What no request changes**, granted or refused: the files, and that the index is that of the
documents. -/
structure Settled (w : Workspace) (s : Server) : Prop where
  limits : s.limits = w.limits
  disk : s.disk = w.disk
  index : s.index = .ofDocuments s.documents

/-- A request that leaves a server so. -/
def Request.Settles {α : Type} (w : Workspace) (x : Request α) : Prop :=
  ∀ s, Settled w s → Settled w (Server.behind (x s))

namespace Request.Settles

variable {α β : Type} {w : Workspace} {x : Request α}

theorem bind {f : α → Request β} (hx : Settles w x) (hf : ∀ a, Settles w (f a)) :
    Settles w (x >>= f) := by
  intro s hs
  have h := hx s hs
  cases hr : x s with
  | ok a s' =>
    rw [bind_ok hr]
    exact hf a s' (by rwa [hr] at h)
  | error e s' =>
    rw [bind_error hr]
    rwa [hr] at h

/-- A request that goes on from the server as it is. -/
theorem get_bind {f : Server → Request β} (hf : ∀ s, Settled w s → Settles w (f s)) :
    Settles w (get >>= f) := fun s hs => hf s hs s hs

theorem set {s : Server} (hs : Settled w s) : Settles w (set s) := fun _ _ => hs

theorem pure (a : α) : Settles w (pure a) := fun _ hs => hs

theorem throw (e : RequestFault) : Settles w (throw e : Request α) := fun _ hs => hs

theorem receive (uri text : String) : Settles w (Request.receive uri text) :=
  fun _ hs => ⟨hs.limits, hs.disk, rfl⟩

theorem indexFile (p : FilePath) : Settles w (Request.indexFile p) := by
  refine get_bind fun s hs => ?_
  dsimp only
  split
  · exact pure _
  · split
    · exact set ⟨hs.limits, hs.disk, rfl⟩
    · split
      · exact set ⟨hs.limits, hs.disk, hs.index⟩
      · exact throw _

theorem forM_indexFile (ps : List FilePath) : Settles w (ps.forM Request.indexFile) := by
  induction ps with
  | nil => exact pure ()
  | cons p ps ih => exact (indexFile p).bind fun _ => ih

theorem lookup (name : String) : Settles w (Request.lookup name) := by
  have hscan : Settles w indexWorkspace :=
    get_bind fun _ _ => (forM_indexFile _).bind fun _ =>
      fun _ hs => ⟨hs.limits, hs.disk, hs.index⟩
  refine get_bind fun s _ => ?_
  split
  · exact hscan.bind fun _ => get_bind fun _ _ => pure _
  · exact get_bind fun _ _ => pure _

theorem pathOf (uri : String) : Settles w (Request.pathOf uri) := by
  unfold Request.pathOf
  split
  · exact pure _
  · exact throw _

theorem symbolAt (uri : String) (line character : Nat) :
    Settles w (Request.symbolAt uri line character) := by
  refine bind (get_bind fun s _ => ?_) fun text => ?_
  · split
    · exact pure _
    · refine (pathOf uri).bind fun path => ?_
      split
      · exact pure _
      · exact throw _
  · dsimp only
    split
    · exact pure _
    · exact lookup _

/-- **Every call.** -/
theorem perform (c : Call) : Settles w c.perform := by
  cases c with
  | openDocument uri text => exact (pathOf uri).bind fun _ => receive uri text
  | change uri text =>
    refine get_bind fun s _ => ?_
    split
    · exact receive uri text
    · exact throw _
  | hover uri line character =>
    exact ((symbolAt uri line character).bind fun _ => pure _).bind fun _ => pure _
  | definition uri line character =>
    exact ((symbolAt uri line character).bind fun _ => pure _).bind fun _ => pure _
  | documentSymbols uri => exact (get_bind fun _ _ => pure _).bind fun _ => pure _

end Request.Settles

/-- **After every history** of a workspace the index is that of the documents, whatever its files
are. -/
theorem Workspace.settled (w : Workspace) (calls : List Call) :
    Settled w (w.server.after calls) := by
  have hrun (s : Server) (hs : Settled w s) : Settled w (s.after calls) := by
    induction calls generalizing s with
    | nil => exact hs
    | cons c calls ih => exact ih _ (Request.Settles.perform c s hs)
  exact hrun _ ⟨rfl, rfl, rfl⟩

/-- What stands in one of several documents is found under its name. -/
theorem Index.mem_find_ofDocuments {documents : Bindings (List Symbol)} {e : String × List Symbol}
    {d : Symbol} (he : e ∈ documents.entries) (hd : d ∈ e.2.flatMap (·.flatten)) :
    d ∈ (ofDocuments documents).find d.name := by
  have hentered : d ∈ entered documents :=
    List.mem_flatMap.mpr ⟨e.2, List.mem_map_of_mem he, hd⟩
  rw [find, get?_ofDocuments, getD_listed]
  exact List.mem_filter.mpr ⟨hentered, by simp⟩

/-- What has been read of a file: its symbols are in the index, or else the editor was told why it
cannot be read. -/
theorem Server.of_passes {s : Server} {ps : List FilePath} {p : FilePath} (hp : p ∈ ps)
    (hpasses : s.passes p = true) :
    match s.disk.read p with
    | .ok text => ∀ d ∈ (symbols s.limits (uriOfPath p) text).flatMap (·.flatten),
        d ∈ (s.reading ps).index.find d.name
    | .error fault => ∃ message, fault.systemMessage? p.render = some message ∧
        .log s!"Failed to index {p.render}: {message}" ∈ (s.reading ps).sent := by
  cases hread : s.disk.read p with
  | ok text =>
    intro d hd
    exact Index.mem_find_ofDocuments
      (List.mem_append_right _ (List.mem_filterMap.mpr ⟨p, hp, document?_of_ok hread⟩)) hd
  | error fault =>
    rw [passes, hread] at hpasses
    obtain ⟨message, hmessage⟩ := Option.isSome_iff_exists.mp hpasses
    exact ⟨message, hmessage, List.mem_append_right _
      (List.mem_filterMap.mpr ⟨p, hp, refusal?_of_error hread hmessage⟩)⟩

/-- A workspace with a directory and three files, of which one is no UTF-8. -/
def garbledWorkspace : Workspace where
  limits := ⟨200, 10⟩
  disk := ⟨[(["w", "a.lox"], .directory), (["w", "b.lox"], .file "var b;".toUTF8),
    (["w", "c.lox"], .file ⟨#[0xFF]⟩), (["w", "d.lox"], .file "var d;".toUTF8)]⟩
  root := some ["w"]

theorem garbledWorkspace_files : garbledWorkspace.files =
    [["w", "a.lox"], ["w", "b.lox"], ["w", "c.lox"], ["w", "d.lox"]] := by
  refine (List.mergeSort_of_pairwise ?_).trans ?_ <;> decide +kernel

end LoxKit.Editor
