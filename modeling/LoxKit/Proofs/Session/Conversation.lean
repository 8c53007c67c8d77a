import LoxKit.Prompt
import LoxKit.Proofs.Machine.Printed
import LoxKit.Proofs.Session.ExitCode
import LoxKit.Proofs.Session.Prompt

/-!
# Conversations without their rejected lines

A conversation is told turn by turn (`Prompt.turns`): how a line ends, what it prints, shows and
reports, and the session that it leaves to the next line.  Nothing a line does depends on what was
printed or shown before, so the turns make up the conversation (`Prompt.takeAll_eq`).

A line with an error that is found before it runs leaves the session to the next line as it found
it.  So the other turns of the conversation are those of the conversation without the line
(`Prompt.converse_delete`).
-/
namespace LoxKit

/-! ## What was printed and shown before -/

namespace Reporter

/-- A reporter that has shown a text before all else. -/
def behind (text : String) (r : Reporter) : Reporter :=
  { r with transcript := text ++ r.transcript }

theorem reportAll_behind (text : String) (r : Reporter) (ds : List Diagnostic) :
    (r.behind text).reportAll ds = (r.reportAll ds).behind text := by
  induction ds generalizing r with
  | nil => rfl
  | cons d ds ih =>
    have hreport : (r.behind text).report d = (r.report d).behind text := by
      unfold report behind
      cases r.echo <;> simp [String.append_assoc]
    show ((r.behind text).report d).reportAll ds = ((r.report d).reportAll ds).behind text
    rw [hreport, ih]

end Reporter

namespace Session

variable {s : Session}

/-- **A session that has printed and shown two texts before all else.** -/
def behind (printed shown : String) (s : Session) : Session :=
  ⟨s.machine.behind printed, s.reporter.behind shown⟩

/-- **A session without what it has printed and shown.** -/
def flushed (s : Session) : Session :=
  { s with
    machine := { s.machine with output := "" }
    reporter := { s.reporter with transcript := "" } }

@[simp] theorem flushed_flushed (s : Session) : s.flushed.flushed = s.flushed := rfl

@[simp] theorem flushed_behind (printed shown : String) (s : Session) :
    (s.behind printed shown).flushed = s.flushed := rfl

/-- Any session is flushed behind what it has printed and shown. -/
theorem behind_flushed (s : Session) :
    s.flushed.behind s.machine.output s.reporter.transcript = s := by
  simp [behind, flushed, Machine.behind, Reporter.behind]

theorem behind_behind (a b c d : String) (s : Session) :
    (s.behind c d).behind a b = s.behind (a ++ c) (b ++ d) := by
  simp [behind, Machine.behind, Reporter.behind, String.append_assoc]

/-- What a step of a session leads to behind two texts. -/
def Step.behind {α : Type} (printed shown : String) (r : Step α) : Step α :=
  (r.1, r.2.behind printed shown)

variable (printed shown : String)

theorem report_behind (s : Session) (ds : List Diagnostic) :
    (s.behind printed shown).report ds = (s.report ds).behind printed shown := by
  simp only [report, behind, Reporter.reportAll_behind]

theorem write_behind (s : Session) (text : String) :
    (s.behind printed shown).write text = (s.write text).behind printed shown := by
  simp [write, behind, Machine.write, Machine.behind, String.append_assoc]

theorem interpret_behind (limits : Limits) (s : Session) (p : Program) :
    (s.behind printed shown).interpret limits p =
      (s.interpret limits p).behind printed shown := by
  have hmachine : (s.behind printed shown).machine.runProgram limits p = _ :=
    Machine.runProgram_behind limits printed s.machine p
  unfold interpret
  rw [hmachine]
  obtain ⟨outcome, m⟩ := s.machine.runProgram limits p
  cases outcome with
  | ok u => rfl
  | error e =>
    have hd : diagnostic? (m.behind printed) e = diagnostic? m e := by cases e <;> rfl
    dsimp only
    rw [hd]
    cases diagnostic? m e with
    | none => rfl
    | some d =>
      exact congrArg (Prod.mk _) (report_behind printed shown { s with machine := m } [d])

theorem readListed_behind (limits : Limits) (list : Bool) (s : Session) (source : String) :
    (s.behind printed shown).readListed limits list source =
      ((s.readListed limits list source).1,
        (s.readListed limits list source).2.behind printed shown) := by
  unfold readListed read
  dsimp only
  rw [report_behind, report_behind]
  cases list with
  | false => rfl
  | true => exact congrArg (Prod.mk _) (write_behind ..)

theorem resolve_behind (limits : Limits) (s : Session) (p : Program) :
    (s.behind printed shown).resolve limits p =
      ((s.resolve limits p).1, (s.resolve limits p).2.behind printed shown) :=
  congrArg (Prod.mk _) (report_behind ..)

theorem prepare_behind (limits : Limits) (list : Bool) (s : Session) (source : String) :
    (s.behind printed shown).prepare limits list source =
      ((s.prepare limits list source).1,
        (s.prepare limits list source).2.behind printed shown) := by
  unfold prepare
  rw [readListed_behind]
  obtain ⟨p, s'⟩ := s.readListed limits list source
  dsimp only
  rw [show (s'.behind printed shown).reporter.hadError = s'.reporter.hadError from rfl]
  split
  · rfl
  · rw [resolve_behind]
    dsimp only
    rw [show ((s'.resolve limits p).2.behind printed shown).reporter.hadError =
      (s'.resolve limits p).2.reporter.hadError from rfl]
    split <;> rfl

theorem run_behind (limits : Limits) (list : Bool) (s : Session) (source : String) :
    (s.behind printed shown).run limits list source =
      (s.run limits list source).behind printed shown := by
  rw [run_eq, run_eq, prepare_behind]
  obtain ⟨p, s'⟩ := s.prepare limits list source
  cases p with
  | none => rfl
  | some p => exact interpret_behind printed shown limits s' p

theorem runExpression_behind (limits : Limits) (s : Session) (source : String) :
    (s.behind printed shown).runExpression limits source =
      (s.runExpression limits source).behind printed shown := by
  cases he : soleExpression? limits source with
  | none =>
    unfold runExpression
    rw [he]
    rfl
  | some e =>
    rw [runExpression_eq he, runExpression_eq he, resolve_behind]
    obtain ⟨p, s'⟩ := s.resolve limits [.print e]
    dsimp only
    rw [show (s'.behind printed shown).reporter.hadError = s'.reporter.hadError from rfl,
      interpret_behind]
    split <;> rfl

theorem runLine_behind (limits : Limits) (list : Bool) (s : Session) (source : String) :
    (s.behind printed shown).runLine limits list source =
      (s.runLine limits list source).behind printed shown := by
  unfold runLine
  rw [runExpression_behind]
  obtain ⟨outcome, s'⟩ := s.runExpression limits source
  cases outcome with
  | error e => rfl
  | ok b =>
    cases b with
    | true => rfl
    | false =>
      dsimp only [Step.behind]
      rw [run_behind]
      obtain ⟨outcome, s''⟩ := s'.run limits list source
      cases outcome <;> rfl

/-! ## What is rejected -/

/-- What preparing a batch adds to the reporter are reports. -/
theorem prepare_reporter (limits : Limits) (list : Bool) (s : Session) (source : String) :
    ∃ ds, (s.prepare limits list source).2.reporter = s.reporter.reportAll ds := by
  have hread : ∃ ds, (s.readListed limits list source).2.reporter = s.reporter.reportAll ds := by
    refine ⟨readErrors limits source, ?_⟩
    have hreporter : (s.report (readErrors limits source)).reporter = _ := rfl
    rw [show s.reporter.reportAll (readErrors limits source) = _ from hreporter.symm]
    unfold readErrors
    rw [← report_report]
    cases list <;> rfl
  obtain ⟨ds, hds⟩ := hread
  unfold prepare
  generalize s.readListed limits list source = parsed at hds
  obtain ⟨p, s'⟩ := parsed
  dsimp only at hds ⊢
  split
  · exact ⟨ds, hds⟩
  · have hresolve : (s'.resolve limits p).2.reporter =
        s.reporter.reportAll (ds ++ (p.resolve limits.room).diagnostics) := by
      show s'.reporter.reportAll _ = _
      rw [hds, Reporter.reportAll, Reporter.reportAll, Reporter.reportAll, List.foldl_append]
    split <;> exact ⟨_, hresolve⟩

/-- With a program to run, nothing was reported. -/
theorem quiet_of_program {limits : Limits} {list : Bool} {s s' : Session} {source : String}
    {p : Program} (h : s.prepare limits list source = (some p, s')) :
    s'.reporter.hadError = false := by
  unfold prepare at h
  generalize s.readListed limits list source = parsed at h
  obtain ⟨q, s''⟩ := parsed
  dsimp only at h
  split at h
  · cases h
  · split at h
    · cases h
    · cases h
      exact (Bool.not_eq_true _).mp ‹_›

/-- What a run adds to the reports was not found before the run. -/
theorem hadError_interpret (limits : Limits) (s : Session) (p : Program) :
    (s.interpret limits p).2.reporter.hadError = true → s.reporter.hadError = true := by
  unfold Reporter.hadError
  simp only [List.any_eq_true]
  rintro ⟨d, hd, hstatic⟩
  obtain hd | hd := interpret_diagnostics limits s p d hd
  · exact ⟨d, hd, hstatic⟩
  · rw [hd] at hstatic
    cases hstatic

/-- **What is left of a rejected line**: what was reported and listed of it. -/
def Rejects (s s' : Session) : Prop :=
  ∃ text ds, s' = ⟨s.machine.write text, s.reporter.reportAll ds⟩

/-- A batch with an error that is found before it runs is rejected. -/
theorem run_rejects {limits : Limits} {list : Bool} {source : String}
    (h : (s.run limits list source).2.reporter.hadError = true) :
    (s.run limits list source).1 = .ok () ∧ s.Rejects (s.run limits list source).2 := by
  obtain ⟨text, hmachine⟩ := prepare_machine limits list s source
  obtain ⟨ds, hreporter⟩ := prepare_reporter limits list s source
  rw [run_eq] at h ⊢
  cases hprepare : s.prepare limits list source with
  | mk p s' =>
    rw [hprepare] at h hmachine hreporter
    cases p with
    | none => exact ⟨rfl, text, ds, by rw [← hmachine, ← hreporter]⟩
    | some p =>
      -- a run finds no such error, and preparing would not have given a program to run
      have herror := hadError_interpret limits s' p h
      rw [quiet_of_program hprepare] at herror
      cases herror

/-- An expression with an error that is found before it runs is rejected. -/
theorem runExpression_rejects {limits : Limits} {source : String} {e : Expr}
    (he : soleExpression? limits source = some e)
    (h : (s.runExpression limits source).2.reporter.hadError = true) :
    (s.runExpression limits source).1 = .ok true ∧
      s.Rejects (s.runExpression limits source).2 := by
  rw [runExpression_eq he] at h ⊢
  have hresolve : (s.resolve limits [.print e]).2 =
      s.report (Program.resolve limits.room [.print e]).diagnostics := rfl
  generalize s.resolve limits [.print e] = resolved at h hresolve ⊢
  obtain ⟨p, s'⟩ := resolved
  dsimp only at h hresolve ⊢
  split at h
  · rename_i herror
    rw [if_pos herror]
    refine ⟨rfl, "", (Program.resolve limits.room [.print e]).diagnostics, ?_⟩
    rw [hresolve]
    simp [report, Machine.write]
  · rename_i hquiet
    exact absurd (hadError_interpret limits s' p h) hquiet

theorem runExpression_ne_false {limits : Limits} {source : String} {e : Expr}
    (he : soleExpression? limits source = some e) :
    (s.runExpression limits source).1 ≠ .ok false := by
  rw [runExpression_eq he]
  dsimp only
  split
  · nofun
  · generalize (s.resolve limits [.print e]).2.interpret limits _ = result
    obtain ⟨outcome, s'⟩ := result
    cases outcome <;> nofun

/-- **A line with an error that is found before it runs is rejected**, whether it was tried as an
expression or run as a batch. -/
theorem runLine_rejects {limits : Limits} {list : Bool} {source : String}
    (h : (s.runLine limits list source).2.reporter.hadError = true) :
    (∃ b, (s.runLine limits list source).1 = .ok b) ∧
      s.Rejects (s.runLine limits list source).2 := by
  cases he : soleExpression? limits source with
  | none =>
    have hnothing : s.runExpression limits source = (.ok false, s) := by
      unfold runExpression
      rw [he]
    unfold runLine at h ⊢
    rw [hnothing] at h ⊢
    dsimp only at h ⊢
    have hrun (h : (s.run limits list source).2.reporter.hadError = true) := run_rejects h
    generalize s.run limits list source = result at h hrun ⊢
    obtain ⟨outcome, s'⟩ := result
    cases outcome with
    | ok u => exact ⟨⟨false, rfl⟩, (hrun h).2⟩
    | error e => cases (hrun h).1
  | some e =>
    -- what is one expression is never handed on to be run as a batch
    have hsame : s.runLine limits list source = s.runExpression limits source := by
      have hne := runExpression_ne_false (s := s) he
      unfold runLine
      split
      · rename_i hread
        rw [hread] at hne
        exact absurd rfl hne
      · rfl
    rw [hsame] at h ⊢
    obtain ⟨hok, hrejects⟩ := runExpression_rejects he h
    exact ⟨⟨true, hok⟩, hrejects⟩

end Session

/-! ## Turns -/

namespace Prompt

/-- A line that is run: it is not blank, and does not ask to leave. -/
def isRun (line : String) : Bool :=
  !leaveWords.contains (Text.trim line) && !(Text.trim line).isEmpty

/-- **What a line does in a conversation.** -/
structure Turn where
  /-- Whether the conversation goes on, or why it does not. -/
  outcome : Except Failure Bool
  printed : String
  shown : String
  /-- What is reported of the line. -/
  reported : List Diagnostic
  /-- The session for the next line, without what was printed and shown. -/
  session : Session

/-- The diagnostics of a line. -/
def reported (limits : Limits) (list : Bool) (s : Session) (line : String) : List Diagnostic :=
  if isRun line then (s.runLine limits list line).2.reporter.diagnostics else []

/-- **Takes a line** in a session, and tells what it did alone. -/
def turn (limits : Limits) (list : Bool) (s : Session) (line : String) : Turn :=
  let taken := take limits list s.flushed line
  { outcome := taken.1
    printed := taken.2.machine.output
    shown := taken.2.reporter.transcript
    reported := reported limits list s.flushed line
    session := taken.2.flushed }

/-- **The turns of a conversation**, up to the line that ends it. -/
def turns (limits : Limits) (list : Bool) (s : Session) : List String → List Turn
  | [] => []
  | line :: rest =>
    let t := turn limits list s line
    match t.outcome with
    | .ok true => t :: turns limits list t.session rest
    | _ => [t]

/-- The session behind some turns. -/
def behind (s : Session) : List Turn → Session
  | [] => s.flushed
  | t :: ts => behind t.session ts

/-- How some turns end, if they end the conversation by a failure. -/
def outcome : List Turn → Except Failure Unit
  | [] => .ok ()
  | t :: ts =>
    match t.outcome with
    | .ok _ => outcome ts
    | .error e => .error e

/-- What is printed through some turns, the marks included, and the farewell if no line ends the
conversation. -/
def printed (ending : Ending) : List Turn → String
  | [] => mark ++ ending.farewell
  | t :: ts =>
    mark ++ t.printed ++
      match t.outcome with
      | .ok true => printed ending ts
      | _ => ""

/-- What is shown through some turns. -/
def shown (ts : List Turn) : String := String.join (ts.map (·.shown))

variable {limits : Limits} {list : Bool} {s : Session}

theorem take_behind (limits : Limits) (list : Bool) (a b : String) (s : Session) (line : String) :
    take limits list (s.behind a b) line = (take limits list s line).behind a b := by
  unfold take
  dsimp only
  rw [Session.runLine_behind]
  obtain ⟨outcome, s'⟩ := s.runLine limits list line
  split
  · rfl
  · split
    · rfl
    · cases outcome <;> rfl

/-- A line does what its turn tells, behind what was printed and shown before. -/
theorem take_eq (limits : Limits) (list : Bool) (s : Session) (line : String) :
    take limits list s line =
      ((turn limits list s line).outcome,
        (turn limits list s line).session.behind
          (s.machine.output ++ (turn limits list s line).printed)
          (s.reporter.transcript ++ (turn limits list s line).shown)) := by
  have htake := take_behind limits list s.machine.output s.reporter.transcript s.flushed line
  rw [s.behind_flushed] at htake
  rw [htake]
  unfold turn Session.Step.behind
  dsimp only
  rw [← Session.behind_behind, Session.behind_flushed]

theorem turns_flushed (limits : Limits) (list : Bool) (s : Session) (lines : List String) :
    turns limits list s.flushed lines = turns limits list s lines := by
  cases lines <;> rfl

/-- What a turn leaves is flushed. -/
theorem session_turn (limits : Limits) (list : Bool) (s : Session) (line : String) :
    (turn limits list s line).session.flushed = (turn limits list s line).session :=
  Session.flushed_flushed (take limits list s.flushed line).2

/-- What was printed and shown before does not change the session behind some turns. -/
theorem behind_flushed (s : Session) (ts : List Turn) : behind s.flushed ts = behind s ts := by
  cases ts <;> rfl

theorem flushed_behind (s : Session) (ts : List Turn) : (behind s ts).flushed = behind s ts := by
  induction ts generalizing s with
  | nil => rfl
  | cons t ts ih => exact ih t.session

theorem output_write (s : Session) (text : String) :
    (s.write text).machine.output = s.machine.output ++ text := rfl

/-- **The turns make up the conversation.** -/
theorem takeAll_eq (limits : Limits) (list : Bool) (ending : Ending) (s : Session)
    (lines : List String) :
    takeAll limits list ending s lines =
      (outcome (turns limits list s lines),
        (behind s (turns limits list s lines)).behind
          (s.machine.output ++ printed ending (turns limits list s lines))
          (s.reporter.transcript ++ shown (turns limits list s lines))) := by
  induction lines generalizing s with
  | nil =>
    have hshown : s.reporter.transcript ++ shown [] = s.reporter.transcript := String.append_empty
    unfold turns
    rw [hshown]
    exact congrArg (Prod.mk _) (s.write (mark ++ ending.farewell)).behind_flushed.symm
  | cons line rest ih =>
    have htake := take_eq limits list (s.write mark) line
    rw [show turn limits list (s.write mark) line = turn limits list s line from rfl] at htake
    have hflushed := session_turn limits list s line
    unfold takeAll turns
    rw [htake, output_write, show (s.write mark).reporter = s.reporter from rfl]
    generalize turn limits list s line = t at hflushed
    have houtput : t.session.machine.output = "" := by rw [← hflushed]; rfl
    have htranscript : t.session.reporter.transcript = "" := by rw [← hflushed]; rfl
    have hshown (ts : List Turn) : shown (t :: ts) = t.shown ++ shown ts := by simp [shown]
    have hnone : shown [] = "" := rfl
    cases ht : t.outcome with
    | error e =>
      simp only [outcome, printed, behind, ht, hshown, hnone, hflushed, String.append_empty,
        String.append_assoc]
    | ok b =>
      cases b with
      | false =>
        simp only [outcome, printed, behind, ht, hshown, hnone, hflushed, String.append_empty,
          String.append_assoc]
      | true =>
        dsimp only
        rw [ih, ← turns_flushed, Session.flushed_behind, turns_flushed,
          ← behind_flushed, Session.flushed_behind, behind_flushed]
        simp only [outcome, printed, behind, ht, hshown, Session.behind, Machine.behind,
          Reporter.behind, houtput, htranscript, String.append_empty, String.append_assoc]

/-! ## Rejected lines -/

/-- What is left of a rejected line is forgotten, and shown. -/
theorem flushed_of_rejects {s s' : Session} (hs : s.reporter.diagnostics = [])
    (h : s.Rejects s') : s'.reset.flushed = s.flushed := by
  obtain ⟨text, ds, rfl⟩ := h
  simp [Session.reset, Session.flushed, Reporter.reset, Reporter.echo_reportAll, Machine.write, hs]

/-- A line that is run. -/
theorem take_of_isRun (limits : Limits) (list : Bool) {line : String} (h : isRun line = true)
    (s : Session) :
    take limits list s line =
      ((s.runLine limits list line).1.map fun _ => true,
        match (s.runLine limits list line).1 with
        | .ok _ => (s.runLine limits list line).2.reset
        | .error _ => (s.runLine limits list line).2) := by
  simp only [isRun, Bool.and_eq_true, Bool.not_eq_true'] at h
  unfold take
  dsimp only
  rw [h.1, h.2, if_neg nofun, if_neg nofun]
  obtain ⟨outcome, s'⟩ := s.runLine limits list line
  cases outcome <;> rfl

/-- A line that is not run leaves the session alone. -/
theorem take_of_not_isRun {line : String} (h : isRun line = false) (s : Session) :
    (take limits list s line).2 = s := by
  unfold take
  dsimp only
  split
  · rfl
  · split
    · rfl
    · rename_i hleave hblank
      simp only [isRun, hleave, hblank] at h
      cases h

/-- **A rejected line leaves no trace.** -/
theorem turn_rejected {line : String} (hs : s.reporter.diagnostics = [])
    (h : ∃ d ∈ (turn limits list s line).reported, d.runtime = false) :
    (turn limits list s line).outcome = .ok true ∧
      (turn limits list s line).session = s.flushed := by
  obtain ⟨d, hd, hstatic⟩ := h
  change d ∈ reported limits list s.flushed line at hd
  unfold reported at hd
  split at hd
  · rename_i hrun
    have herror : (s.flushed.runLine limits list line).2.reporter.hadError = true :=
      List.any_eq_true.mpr ⟨d, hd, by rw [hstatic]; rfl⟩
    obtain ⟨⟨b, hok⟩, hrejects⟩ := Session.runLine_rejects herror
    have htake := take_of_isRun limits list hrun s.flushed
    rw [hok] at htake
    have hflushed := flushed_of_rejects (s := s.flushed) hs hrejects
    unfold turn
    dsimp only
    rw [htake]
    exact ⟨rfl, hflushed⟩
  · cases hd

/-- Nothing is reported when the next line is taken. -/
theorem turn_quiet {line : String} (hs : s.reporter.diagnostics = [])
    (h : (turn limits list s line).outcome = .ok true) :
    (turn limits list s line).session.reporter.diagnostics = [] := by
  unfold turn at h ⊢
  dsimp only at h ⊢
  cases hrun : isRun line with
  | false =>
    rw [take_of_not_isRun hrun]
    exact hs
  | true =>
    rw [take_of_isRun limits list hrun] at h ⊢
    generalize s.flushed.runLine limits list line = result at h ⊢
    obtain ⟨outcome, s'⟩ := result
    cases outcome with
    | ok b => rfl
    | error e => cases h

/-- The conversation without a rejected line has the other turns, and ends alike. -/
theorem turns_delete (hs : s.reporter.diagnostics = []) {before : List String} {line : String}
    {after : List String} {t : Turn}
    (ht : (turns limits list s (before ++ line :: after))[before.length]? = some t)
    (hd : ∃ d ∈ t.reported, d.runtime = false) :
    turns limits list s (before ++ after) =
        (turns limits list s (before ++ line :: after)).eraseIdx before.length ∧
      behind s (turns limits list s (before ++ after)) =
        behind s (turns limits list s (before ++ line :: after)) ∧
      outcome (turns limits list s (before ++ after)) =
        outcome (turns limits list s (before ++ line :: after)) := by
  induction before generalizing s with
  | nil =>
    have hfirst : (turns limits list s (line :: after))[0]? = some (turn limits list s line) := by
      unfold turns
      dsimp only
      split <;> rfl
    obtain rfl : turn limits list s line = t := Option.some.inj (hfirst.symm.trans ht)
    obtain ⟨hok, hsession⟩ := turn_rejected hs hd
    have hturns : turns limits list s (line :: after) =
        turn limits list s line :: turns limits list s after := by
      rw [turns, hok]
      dsimp only
      rw [hsession, turns_flushed]
    rw [List.nil_append, List.nil_append, hturns]
    refine ⟨rfl, ?_, ?_⟩
    · rw [behind, hsession]
      exact (behind_flushed s _).symm
    · rw [outcome, hok]
  | cons first before ih =>
    rw [List.cons_append, List.cons_append] at *
    unfold turns at ht ⊢
    dsimp only at ht ⊢
    have hquiet (h : (turn limits list s first).outcome = .ok true) := turn_quiet hs h
    generalize turn limits list s first = t₀ at ht hquiet ⊢
    split
    · rename_i hgoes
      rw [hgoes] at ht
      obtain ⟨hturns, hbehind, hends⟩ := ih (hquiet hgoes) ht
      refine ⟨congrArg (List.cons t₀) hturns, ?_, ?_⟩
      · rw [behind, behind, hbehind]
      · rw [outcome, outcome, hgoes]
        exact hends
    · -- the conversation is over before the line
      rename_i hends
      split at ht
      · rename_i hgoes
        exact absurd hgoes hends
      · cases ht

/-- **A conversation without a rejected line.**  If an error is reported of a line before it runs,
then without the line all other turns are the same: each prints, shows and reports the same and
leaves the same session.  The conversation ends alike, in the same session.  What a conversation
prints and shows is what its turns do, apart from its greeting, its marks and its farewell. -/
theorem converse_delete (hs : s.reporter.diagnostics = []) (ending : Ending)
    {before after : List String} {line : String} {t : Turn}
    (ht : (turns limits list s (before ++ line :: after))[before.length]? = some t)
    (hd : ∃ d ∈ t.reported, d.runtime = false) :
    turns limits list s (before ++ after) =
        (turns limits list s (before ++ line :: after)).eraseIdx before.length ∧
      (converse limits list s (before ++ after) ending).1 =
        (converse limits list s (before ++ line :: after) ending).1 ∧
      (converse limits list s (before ++ after) ending).2.flushed =
        (converse limits list s (before ++ line :: after) ending).2.flushed ∧
      ∀ lines,
        (converse limits list s lines ending).2.machine.output =
          s.machine.output ++ greeting ++ printed ending (turns limits list s lines) ∧
        (converse limits list s lines ending).2.reporter.transcript =
          s.reporter.transcript ++ shown (turns limits list s lines) := by
  have hconverse (lines : List String) : converse limits list s lines ending =
      (outcome (turns limits list s lines),
        (behind s (turns limits list s lines)).behind
          (s.machine.output ++ greeting ++ printed ending (turns limits list s lines))
          (s.reporter.transcript ++ shown (turns limits list s lines))) := by
    have hgreeted : (s.write greeting).flushed = s.flushed := rfl
    unfold converse
    rw [takeAll_eq, ← turns_flushed, ← behind_flushed, hgreeted, behind_flushed, turns_flushed,
      output_write]
    rfl
  obtain ⟨hturns, hbehind, hends⟩ := turns_delete hs ht hd
  refine ⟨hturns, ?_, ?_, fun lines => ?_⟩
  · rw [hconverse, hconverse, hends]
  · rw [hconverse, hconverse, hbehind, Session.flushed_behind, Session.flushed_behind]
  · rw [hconverse, ← flushed_behind]
    exact ⟨String.append_empty, String.append_empty⟩

/-- Lines of which the second declares a local variable twice. -/
def withSlip : List String := ["var a = \"kept\";", "\x7b var b; var b; \x7d", "print a; a();"]

/-- The slip is reported, and the other lines do what they do without it. -/
theorem converse_delete_of_withSlip :
    let s := Session.new fun _ => 0
    ∃ t, (turns ⟨200, 10⟩ false s withSlip)[1]? = some t ∧
      (∃ d ∈ t.reported, d.runtime = false) ∧
      turns ⟨200, 10⟩ false s ["var a = \"kept\";", "print a; a();"] =
        (turns ⟨200, 10⟩ false s withSlip).eraseIdx 1 ∧
      (turns ⟨200, 10⟩ false s withSlip).map (·.printed) = ["", "", "kept\n"] ∧
      (turns ⟨200, 10⟩ false s withSlip).map (·.shown) =
        ["", "[line 1] Error at 'b': Already a variable with this name in this scope.\n",
          "Can only call functions and classes.\n[line 1]\n"] := by
  intro s
  have hlength : 1 < (turns ⟨200, 10⟩ false s withSlip).length := by decide +kernel
  have hsecond : (turns ⟨200, 10⟩ false s (["var a = \"kept\";"] ++
      "\x7b var b; var b; \x7d" :: ["print a; a();"]))[1]? =
      some (turns ⟨200, 10⟩ false s withSlip)[1] := List.getElem?_eq_getElem hlength
  have hreported : (((turns ⟨200, 10⟩ false s withSlip)[1]?.map (·.reported)).getD []).any
      (!·.runtime) = true := by
    decide +kernel
  rw [show (turns ⟨200, 10⟩ false s withSlip)[1]? = _ from hsecond] at hreported
  have hd : ∃ d ∈ (turns ⟨200, 10⟩ false s withSlip)[1].reported, d.runtime = false := by
    obtain ⟨d, hd, hstatic⟩ := List.any_eq_true.mp hreported
    exact ⟨d, hd, by simpa using hstatic⟩
  have hdelete := converse_delete (s := s) rfl .endOfInput hsecond hd
  exact ⟨_, hsecond, hd, hdelete.1, by decide +kernel, by decide +kernel⟩

end Prompt
end LoxKit
