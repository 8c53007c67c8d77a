import LoxKit.Proofs.Grammar.Shaped
import LoxKit.Proofs.Scope.Settled
import LoxKit.Session

/-!
# Batches of a session

A batch goes through two halves.  The first reads and resolves it (`Session.prepare`) and
gives the program to run, if nothing has been reported by then; the second runs that program
(`Session.run_eq`).  A program that comes out of the first half was accepted by resolution
(`Program.Accepted`), so all its visits are settled.
-/
namespace LoxKit

open Scope

/-! ## Accepted programs -/

/-- **A program that resolution has accepted**, from a shaped program as it was read. -/
def Program.Accepted (p : Program) : Prop :=
  ∃ (q : Program) (room : Nat), (∀ s ∈ q, s.Fresh) ∧ (q.resolve room).diagnostics = [] ∧
    p = (q.resolve room).result

namespace Program.Accepted

variable {p : Program}

/-- The visits of an accepted program are settled. -/
theorem settled (h : p.Accepted) : ∀ v ∈ Stmt.visitsAll p [], v.Settled := by
  obtain ⟨q, room, hq, hd, rfl⟩ := h
  exact (Program.resolve_settled (Stmt.fresh_all hq).1 hd).2.1

/-- An accepted program is shaped. -/
theorem shaped (h : p.Accepted) : Stmt.AllShaped p := by
  obtain ⟨q, room, hq, hd, rfl⟩ := h
  have hall := Stmt.fresh_all hq
  rw [← Stmt.allShaped_bareAll, (Program.resolve_settled hall.1 hd).1, Stmt.allShaped_bareAll]
  exact hall.1

/-- Resolution has noted of an accepted program what there is to note of its visits. -/
theorem noted (h : p.Accepted) :
    ∃ (q : Program) (room : Nat), p = (q.resolve room).result ∧
      (q.resolve room).annotations = (Stmt.visitsAll p []).filterMap Visit.annotation? := by
  obtain ⟨q, room, hq, hd, rfl⟩ := h
  exact ⟨q, room, rfl, (Program.resolve_settled (Stmt.fresh_all hq).1 hd).2.2⟩

end Program.Accepted

/-! ## The two halves of a batch -/

namespace Session

/-- Reads a batch, and lists it if asked to. -/
def readListed (limits : Limits) (list : Bool) (s : Session) (source : String) :
    Program × Session :=
  let (tokens, p, s) := s.read limits source
  (p, if list then s.write (listing tokens p) else s)

/-- **Reads and resolves a batch.**  Gives the program to run, if nothing has been reported,
and the session as it is before the run. -/
def prepare (limits : Limits) (list : Bool) (s : Session) (source : String) :
    Option Program × Session :=
  let (p, s) := s.readListed limits list source
  if s.reporter.hadError then (none, s)
  else
    let (p, s) := s.resolve limits p
    if s.reporter.hadError then (none, s) else (some p, s)

/-- **A batch is prepared and then run**, if there is a program to run. -/
theorem run_eq (limits : Limits) (list : Bool) (s : Session) (source : String) :
    s.run limits list source =
      match s.prepare limits list source with
      | (none, s') => (.ok (), s')
      | (some p, s') => s'.interpret limits p := by
  have hrun : s.run limits list source =
      let (p, s) := s.readListed limits list source
      if s.reporter.hadError then (.ok (), s)
      else
        let (p, s) := s.resolve limits p
        if s.reporter.hadError then (.ok (), s) else s.interpret limits p := rfl
  rw [hrun]
  unfold prepare
  obtain ⟨p, s⟩ := s.readListed limits list source
  dsimp only
  split
  · rfl
  · split <;> rfl

theorem reporter_report (s : Session) (ds : List Diagnostic) :
    (s.report ds).reporter.diagnostics = s.reporter.diagnostics ++ ds :=
  Reporter.diagnostics_reportAll ..

theorem hadError_report (s : Session) {ds : List Diagnostic} (h : ∀ d ∈ ds, d.runtime = false) :
    (s.report ds).reporter.hadError = (s.reporter.hadError || !ds.isEmpty) := by
  unfold Reporter.hadError
  rw [reporter_report, List.any_append]
  cases ds with
  | nil => rfl
  | cons d ds => simp [h d List.mem_cons_self]

/-- What is read from a source text is fresh. -/
theorem fresh_read (limits : Limits) (s : Session) (source : String) :
    ∀ stmt ∈ (s.read limits source).2.1, stmt.Fresh :=
  Program.fresh_ofTokens (fun _ ht => genuine_of_mem_scan ht) limits.room

/-- **A program to run** is what was read, resolved without a fault. -/
theorem prepare_program {limits : Limits} {list : Bool} {s s' : Session} {source : String}
    {p : Program} (h : s.prepare limits list source = (some p, s')) :
    ((s.read limits source).2.1.resolve limits.room).diagnostics = [] ∧
      p = ((s.read limits source).2.1.resolve limits.room).result := by
  have hread : (s.readListed limits list source).1 = (s.read limits source).2.1 := rfl
  rw [← hread]
  unfold prepare at h
  generalize s.readListed limits list source = read at h
  obtain ⟨q, s⟩ := read
  dsimp only at h ⊢
  split at h
  · cases h
  · split at h
    · cases h
    · rename_i hbefore hafter
      cases h
      refine ⟨?_, rfl⟩
      unfold resolve at hafter
      rw [hadError_report _ fun d hd => (Program.resolve_reported _ _ d hd).1] at hafter
      simpa [hbefore] using hafter

/-- A program to run was accepted. -/
theorem prepare_accepted {limits : Limits} {list : Bool} {s s' : Session} {source : String}
    {p : Program} (h : s.prepare limits list source = (some p, s')) : p.Accepted :=
  ⟨_, limits.room, s.fresh_read limits source, prepare_program h⟩

/-- Without its distances, a program to run is what was read. -/
theorem prepare_bare {limits : Limits} {list : Bool} {s s' : Session} {source : String}
    {p : Program} (h : s.prepare limits list source = (some p, s')) :
    Stmt.bareAll p = (s.read limits source).2.1 := by
  obtain ⟨hd, rfl⟩ := prepare_program h
  have hfresh := Stmt.fresh_all (s.fresh_read limits source)
  rw [(Program.resolve_settled hfresh.1 hd).1, hfresh.2]

/-- Preparing a batch does no more to the machine than to read and list it. -/
theorem prepare_readListed (limits : Limits) (list : Bool) (s : Session) (source : String) :
    (s.prepare limits list source).2.machine = (s.readListed limits list source).2.machine := by
  unfold prepare
  generalize s.readListed limits list source = read
  obtain ⟨q, s'⟩ := read
  dsimp only
  split
  · rfl
  · split <;> rfl

/-- Preparing a batch that is not listed leaves the machine alone. -/
theorem prepare_unlisted (limits : Limits) (s : Session) (source : String) :
    (s.prepare limits false source).2.machine = s.machine :=
  prepare_readListed limits false s source

/-- Preparing a batch leaves all of the machine alone but its output. -/
theorem prepare_machine (limits : Limits) (list : Bool) (s : Session) (source : String) :
    ∃ text, (s.prepare limits list source).2.machine = s.machine.write text := by
  rw [prepare_readListed]
  cases list with
  | true => exact ⟨_, rfl⟩
  | false =>
    refine ⟨"", ?_⟩
    show s.machine = s.machine.write ""
    simp [Machine.write]

/-- Without a program to run, something has been reported. -/
theorem hadError_of_prepare {limits : Limits} {list : Bool} {s s' : Session} {source : String}
    (h : s.prepare limits list source = (none, s')) : s'.reporter.hadError := by
  unfold prepare at h
  generalize s.readListed limits list source = read at h
  obtain ⟨q, s⟩ := read
  dsimp only at h
  split at h
  · cases h
    assumption
  · split at h
    · cases h
      assumption
    · cases h

/-- With a program to run, nothing had been reported when it was read. -/
theorem quiet_of_prepare {limits : Limits} {list : Bool} {s s' : Session} {source : String}
    {p : Program} (h : s.prepare limits list source = (some p, s')) :
    (s.readListed limits list source).2.reporter.hadError = false := by
  unfold prepare at h
  generalize s.readListed limits list source = read at h ⊢
  obtain ⟨q, s⟩ := read
  dsimp only at h ⊢
  split at h
  · cases h
  · exact (Bool.not_eq_true _).mp ‹_›

end Session
end LoxKit
