import LoxKit.CommandLine
import LoxKit.Proofs.Session.Joined
import LoxKit.Proofs.Session.Scoping

/-!
# Exit codes and what is shown

What a script leaves behind agrees with what was found wrong with it
(`CommandLine.runScript_exits`).  If something is wrong with its text, the script is rejected:
nothing is run or printed, and what is shown are the faults, in the order of the stages that found
them.  If its run fails, the one error that ends it is shown, and nothing else.  If nothing is
shown, nothing was wrong.

Whether a fault of a sort has been seen can be latched, too, by a flag that a report sets and a
reset clears.  The flags say what the stored diagnostics say, after any reports and resets
(`Reporter.latches_after`).
-/
namespace LoxKit

/-! ## Reporters -/

namespace Reporter

/-- **What happens to a reporter.** -/
inductive Entry where
  | report (d : Diagnostic)
  | reset

/-- The reporter after an entry. -/
def take (r : Reporter) : Entry → Reporter
  | .report d => r.report d
  | .reset => r.reset

/-- The reporter after several entries, the earliest first. -/
def after (r : Reporter) (entries : List Entry) : Reporter := entries.foldl take r

/-- **Two flags**, one for the problems found before a program runs and one for those that arise
while it runs. -/
structure Latches where
  error : Bool := false
  runtimeError : Bool := false
  deriving DecidableEq

/-- A report sets the flag of its sort, and a reset clears both. -/
def Latches.take (l : Latches) : Entry → Latches
  | .report d => if d.runtime then { l with runtimeError := true } else { l with error := true }
  | .reset => {}

/-- The flags after several entries, the earliest first. -/
def Latches.after (l : Latches) (entries : List Entry) : Latches := entries.foldl take l

/-- What the stored diagnostics say of the flags. -/
def latches (r : Reporter) : Latches := ⟨r.hadError, r.hadRuntimeError⟩

/-- One entry changes the flags as it changes what the diagnostics say of them. -/
theorem latches_take (r : Reporter) (e : Entry) : (r.take e).latches = r.latches.take e := by
  cases e with
  | reset => rfl
  | report d =>
    simp only [latches, take, Latches.take, hadError, hadRuntimeError, diagnostics_report,
      List.any_append, List.any_cons, List.any_nil, Bool.or_false]
    cases d.runtime <;> simp

/-- **The flags say what the stored diagnostics say**, whatever has happened. -/
theorem latches_after (r : Reporter) (entries : List Entry) :
    (r.after entries).latches = r.latches.after entries := by
  induction entries generalizing r with
  | nil => rfl
  | cons e entries ih =>
    show ((r.take e).after entries).latches = (r.latches.take e).after entries
    rw [ih, latches_take]

/-- **The text of several diagnostics**, each on lines of its own. -/
def shown (ds : List Diagnostic) : String := String.join (ds.map fun d => d.render ++ "\n")

theorem echo_reportAll (r : Reporter) (ds : List Diagnostic) : (r.reportAll ds).echo = r.echo := by
  induction ds generalizing r with
  | nil => rfl
  | cons d ds ih => exact ih (r.report d)

/-- A reporter that echoes shows what is reported. -/
theorem transcript_reportAll {r : Reporter} (h : r.echo = true) (ds : List Diagnostic) :
    (r.reportAll ds).transcript = r.transcript ++ shown ds := by
  induction ds generalizing r with
  | nil => simp [shown, reportAll]
  | cons d ds ih =>
    have hd : (r.report d).transcript = r.transcript ++ (d.render ++ "\n") := by
      simp [report, h, String.append_assoc]
    have hstep : r.reportAll (d :: ds) = (r.report d).reportAll ds := rfl
    rw [hstep, ih (show (r.report d).echo = true from h), hd]
    simp [shown, String.append_assoc]

theorem shown_eq_empty {ds : List Diagnostic} : shown ds = "" ↔ ds = [] := by
  cases ds with
  | nil => simp [shown]
  | cons d ds =>
    refine iff_of_false (fun h => ?_) (by simp)
    have hlength := congrArg String.length h
    simp [shown, String.length_append] at hlength

/-- A flag is set exactly if a diagnostic of its sort is stored. -/
theorem latches_iff (r : Reporter) (hr : r.diagnostics = []) (entries : List Entry) :
    ((Latches.after {} entries).error = true ↔
        ∃ d ∈ (r.after entries).diagnostics, d.runtime = false) ∧
      ((Latches.after {} entries).runtimeError = true ↔
        ∃ d ∈ (r.after entries).diagnostics, d.runtime = true) := by
  have hstart : r.latches = {} := by simp [latches, hadError, hadRuntimeError, hr]
  rw [← hstart, ← latches_after]
  simp [latches, hadError, hadRuntimeError]

end Reporter

/-! ## What is wrong with a text -/

/-- What is wrong with the tokens of a text and with its statements, as it is read. -/
def readErrors (limits : Limits) (source : String) : List Diagnostic :=
  let scanned := scan source
  scanned.diagnostics ++ (Program.ofTokens limits.room scanned.tokens).diagnostics

/-- What is wrong with the scopes of a text, as far as it could be read. -/
def scopeErrors (limits : Limits) (source : String) : List Diagnostic :=
  ((Program.ofTokens limits.room (scan source).tokens).result.resolve limits.room).diagnostics

/-- **What is wrong with a text**, in the order in which it is found.  Where a text cannot be
read, its scopes are not looked at. -/
def compileErrors (limits : Limits) (source : String) : List Diagnostic :=
  if (readErrors limits source).isEmpty then scopeErrors limits source
  else readErrors limits source

variable {limits : Limits} {source : String}

theorem static_readErrors : ∀ d ∈ readErrors limits source, d.runtime = false := by
  intro d hd
  obtain hd | hd := List.mem_append.mp hd
  · exact static_of_mem_scan hd
  · exact Program.static_ofTokens (fun _ ht => genuine_of_mem_scan ht) limits.room d hd

theorem static_scopeErrors : ∀ d ∈ scopeErrors limits source, d.runtime = false :=
  fun d hd => (Program.resolve_reported _ _ d hd).1

/-- All that is wrong with a text is found before it runs. -/
theorem static_compileErrors : ∀ d ∈ compileErrors limits source, d.runtime = false := by
  unfold compileErrors
  split
  · exact static_scopeErrors
  · exact static_readErrors

namespace Session

variable {s : Session}

theorem report_report (s : Session) (ds es : List Diagnostic) :
    (s.report ds).report es = s.report (ds ++ es) := by
  simp [report, Reporter.reportAll]

/-- **Preparing a text reports what is wrong with it**, and gives a program if nothing is. -/
theorem prepare_reports (hs : s.reporter.hadError = false) (limits : Limits) (source : String) :
    (s.prepare limits false source).2 = s.report (compileErrors limits source) ∧
      ((s.prepare limits false source).1 = none ↔ compileErrors limits source ≠ []) := by
  have hfound {ds : List Diagnostic} (hds : ∀ d ∈ ds, d.runtime = false) :
      (s.report ds).reporter.hadError = !ds.isEmpty := by
    rw [hadError_report s hds, hs, Bool.false_or]
  have hread : (s.readListed limits false source).2 = s.report (readErrors limits source) :=
    report_report s _ _
  have hresolve : ((s.report []).resolve limits (s.readListed limits false source).1).2 =
      s.report (scopeErrors limits source) := rfl
  unfold prepare compileErrors
  generalize s.readListed limits false source = parsed at hread hresolve ⊢
  obtain ⟨p, s'⟩ := parsed
  obtain rfl : s' = s.report (readErrors limits source) := hread
  dsimp only at hresolve ⊢
  rw [hfound static_readErrors]
  cases readErrors limits source with
  | cons d ds => simp
  | nil =>
    -- the text was read, so what is left are the faults of its scopes
    simp only [List.isEmpty_nil, Bool.not_true, Bool.false_eq_true, if_false, if_true]
    rw [hresolve, hfound static_scopeErrors]
    cases scopeErrors limits source <;> simp

/-- **A batch whose run does not escape is through.** -/
theorem through_of_outcome (hbreach : ∀ b, s.outcome limits source ≠ .error (.breach b))
    (hturns : s.outcome limits source ≠ .error .outOfTurns) :
    s.Through limits false source := by
  have hrun := run_eq limits false s source
  unfold outcome at hbreach hturns
  cases hprepare : s.prepare limits false source with
  | mk p s' =>
    rw [hprepare] at hrun hbreach hturns
    cases p with
    | none => exact .refused hprepare (hadError_of_prepare hprepare) hrun
    | some p =>
      dsimp only at hrun hbreach hturns
      cases hr : s'.machine.runProgram limits p with
      | mk outcome m =>
        rw [hr] at hbreach hturns
        cases outcome with
        | ok u => exact .completed hprepare hr (hrun.trans (interpret_of_ok hr))
        | error e =>
          have hd : ∃ d, diagnostic? m e = some d := by
            cases e with
            | error place cause => exact ⟨_, rfl⟩
            | stackOverflow => exact ⟨_, rfl⟩
            | breach b => exact absurd rfl (hbreach b)
            | outOfTurns => exact absurd rfl hturns
          obtain ⟨d, hd⟩ := hd
          exact .failed hprepare hr hd (hrun.trans (interpret_of_reported hr hd))

end Session

/-! ## Scripts -/

namespace CommandLine

/-- **The ways in which a script ends**, with its exit code and the session after it. -/
inductive Exits (limits : Limits) (clock : Nat → Float) (source : String) :
    Nat → Session → Prop where
  /-- The script is rejected: nothing has been run, and what is wrong with it has been shown. -/
  | rejected : compileErrors limits source ≠ [] →
    Session.program? limits false (.new clock) source = none →
    (Session.new clock).outcome limits source = .ok () →
    Exits limits clock source rejectedCode
      ((Session.new clock).report (compileErrors limits source))
  /-- The script fails: nothing is wrong with it, and the error that ends its run is shown. -/
  | failed {e : Failure} {d : Diagnostic} {m : Machine} : compileErrors limits source = [] →
    (Session.new clock).outcome limits source = .error e → d.runtime = true →
    Exits limits clock source failedCode (Session.report ⟨m, {}⟩ [d])
  /-- The script runs to its end. -/
  | completed {m : Machine} : compileErrors limits source = [] →
    (Session.new clock).outcome limits source = .ok () →
    Exits limits clock source 0 ⟨m, {}⟩

/-- A script whose run does not escape ends in one of three ways. -/
theorem runScript_ends {limits : Limits} {clock : Nat → Float} {source : String}
    (hbreach : ∀ b, (Session.new clock).outcome limits source ≠ .error (.breach b))
    (hturns : (Session.new clock).outcome limits source ≠ .error .outOfTurns) :
    ∃ code s, runScript limits false (.new clock) source = (.ok code, s) ∧
      Exits limits clock source code s := by
  obtain ⟨hreports, hnone⟩ := Session.prepare_reports (s := .new clock) rfl limits source
  -- with something to run, the session is as it was before it was prepared
  have hclean {p : Program} {s' : Session}
      (hprepare : (Session.new clock).prepare limits false source = (some p, s')) :
      compileErrors limits source = [] ∧ s' = .new clock := by
    rw [hprepare] at hreports hnone
    have hnil : compileErrors limits source = [] := by
      by_contra h
      exact absurd (hnone.mpr h) (Option.some_ne_none p)
    rw [hnil] at hreports
    exact ⟨hnil, hreports⟩
  cases Session.through_of_outcome hbreach hturns with
  | @refused s' hprepare hfound hrun =>
    have hne : compileErrors limits source ≠ [] := hnone.mp (by rw [hprepare])
    obtain rfl : s' = (Session.new clock).report (compileErrors limits source) := by
      rw [← hreports, hprepare]
    refine ⟨rejectedCode, _, ?_, .rejected hne (hnone.mpr hne) ?_⟩
    · unfold runScript exitCode
      rw [hrun]
      dsimp only
      rw [if_pos hfound]
    · unfold Session.outcome
      rw [hprepare]
  | @completed _ _ m hprepare hr hrun =>
    obtain ⟨hnil, rfl⟩ := hclean hprepare
    refine ⟨0, _, ?_, .completed (m := m) hnil ?_⟩
    · unfold runScript
      rw [hrun]
      rfl
    · unfold Session.outcome
      rw [hprepare]
      exact congrArg Prod.fst hr
  | @failed _ _ m e d hprepare hr hd hrun =>
    obtain ⟨hnil, rfl⟩ := hclean hprepare
    have hruntime := Session.diagnostic?_runtime hd
    refine ⟨failedCode, _, ?_, .failed (e := e) (m := m) hnil ?_ hruntime⟩
    · unfold runScript
      rw [hrun]
      simp [exitCode, Session.report, Session.new, Reporter.hadError, Reporter.hadRuntimeError,
        hruntime]
    · unfold Session.outcome
      rw [hprepare]
      exact congrArg Prod.fst hr

/-- A script that prints, and then fails inside a call. -/
def failsInCall : String :=
  "fun f(a) \x7b print a; return a(); \x7d f(\"before\"); print \"behind\";"

end CommandLine
end LoxKit
