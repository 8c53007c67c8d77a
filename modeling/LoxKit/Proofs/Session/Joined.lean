import LoxKit.Proofs.Grammar.Joined
import LoxKit.Proofs.Machine.Exits
import LoxKit.Proofs.Machine.Unlined
import LoxKit.Proofs.Scope.Joined
import LoxKit.Proofs.Session.Outcome

/-!
# Batches split and joined

Where two texts compile, and the first runs to its end, it makes no difference whether they are
run one after the other or as one text with a line feed in between
(`Session.run_joined`): no stage of a batch lets the first text touch the second, apart from the
lines on which the second stands, and the machine carries nothing from batch to batch but what
it carries from statement to statement.
-/
namespace LoxKit

open Scope

/-- **A text compiles to a program**: nothing is wrong with its tokens, its statements and its
scopes. -/
structure CompilesTo (limits : Limits) (source : String) (p : Program) : Prop where
  tokens : (scan source).diagnostics = []
  program : Program.ofTokens limits.room (scan source).tokens = ⟨p, []⟩
  scopes : (p.resolve limits.room).diagnostics = []

/-- **A text compiles.** -/
def Compiles (limits : Limits) (source : String) : Prop := ∃ p, CompilesTo limits source p

theorem compiles_of_diagnostics {limits : Limits} {source : String}
    (htokens : (scan source).diagnostics = [])
    (hprogram : (Program.ofTokens limits.room (scan source).tokens).diagnostics = [])
    (hscopes : ((Program.ofTokens limits.room (scan source).tokens).result.resolve
      limits.room).diagnostics = []) : Compiles limits source := by
  cases h : Program.ofTokens limits.room (scan source).tokens with
  | mk p ds =>
    rw [h] at hprogram hscopes
    exact ⟨p, htokens, h.trans (congrArg (Grammar.Outcome.mk p) hprogram), hscopes⟩

namespace CompilesTo

variable {limits : Limits} {source a b : String} {p q : Program}

theorem fresh (h : CompilesTo limits source p) : ∀ s ∈ p, s.Fresh := by
  have hgenuine : ∀ t ∈ (scan source).tokens, t.Genuine := fun _ ht => genuine_of_mem_scan ht
  have hfresh := Program.fresh_ofTokens hgenuine limits.room
  rwa [h.program] at hfresh

theorem shaped (h : CompilesTo limits source p) : Stmt.AllShaped p := (Stmt.fresh_all h.fresh).1

/-- **Two texts that compile do so together**, the second to the same program on other lines. -/
theorem joined (ha : CompilesTo limits a p) (hb : CompilesTo limits b q) :
    ∃ q' r, CompilesTo limits (joined a b) (p ++ q') ∧
      ((p ++ q').resolve limits.room).result = (p.resolve limits.room).result ++ r ∧
      Stmt.unlinedAll r = Stmt.unlinedAll (q.resolve limits.room).result := by
  obtain ⟨q', hq', hprogram⟩ :=
    Program.ofTokens_joined ha.tokens hb.tokens ha.program hb.program
  obtain ⟨hdiagnostics, r, hr, hrq⟩ := Program.resolve_append ha.shaped ha.scopes hq'
  rw [hb.scopes] at hdiagnostics
  have hscopes := List.map_eq_nil_iff.mp hdiagnostics
  exact ⟨q', r, ⟨(scan_joined ha.tokens hb.tokens).1, hprogram, hscopes⟩, hr, hrq⟩

end CompilesTo

namespace Session

variable {limits : Limits} {s : Session} {source a b : String} {p q : Program}

/-- A text that compiles is run, if nothing has been reported before. -/
theorem run_of_compilesTo (hs : s.reporter.diagnostics = []) (h : CompilesTo limits source p) :
    s.run limits false source = s.interpret limits (p.resolve limits.room).result := by
  have hquiet : s.reporter.hadError = false := by rw [Reporter.hadError, hs]; rfl
  have hread : s.read limits source = ((scan source).tokens, p, s) := by
    unfold read
    dsimp only
    rw [h.tokens, h.program]
    rfl
  have hresolve : s.resolve limits p = ((p.resolve limits.room).result, s) := by
    unfold resolve
    dsimp only
    rw [h.scopes]
    rfl
  unfold run
  rw [hread]
  simp only [Bool.false_eq_true, if_false, hresolve, hquiet]

/-- A batch is only run if its text compiles. -/
theorem compilesTo_of_prepare {s' : Session} {list : Bool}
    (h : s.prepare limits list source = (some p, s')) :
    ∃ q, CompilesTo limits source q ∧ p = (q.resolve limits.room).result := by
  obtain ⟨hscopes, rfl⟩ := prepare_program h
  have hread : (s.readListed limits list source).2.reporter =
      (s.read limits source).2.2.reporter := by
    cases list <;> rfl
  have hquiet := quiet_of_prepare h
  have htokens : ∀ x ∈ (scan source).diagnostics, x.runtime = false :=
    fun _ hx => static_of_mem_scan hx
  have hprogram : ∀ x ∈ (Program.ofTokens limits.room (scan source).tokens).diagnostics,
      x.runtime = false :=
    Program.static_ofTokens (fun _ ht => genuine_of_mem_scan ht) limits.room
  rw [hread] at hquiet
  unfold read at hquiet hscopes ⊢
  rw [hadError_report _ hprogram, hadError_report _ htokens] at hquiet
  simp only [Bool.or_eq_false_iff, Bool.not_eq_false', List.isEmpty_iff] at hquiet
  obtain ⟨⟨-, htokens⟩, hprogram⟩ := hquiet
  refine ⟨_, ⟨htokens, ?_, hscopes⟩, rfl⟩
  rw [← hprogram]

/-- What a batch leads to, without lines. -/
def unlinedStep : Step Unit → Except Failure Unit × Machine × List Diagnostic
  | (outcome, s) => (outcome.mapError Failure.unlined, s.machine.unlined,
      s.reporter.diagnostics.map Diagnostic.unlined)

/-- What is left of the machine does not show lines. -/
theorem machine_of_unlinedStep {x y : Step Unit} (h : unlinedStep x = unlinedStep y) :
    x.2.machine.output = y.2.machine.output ∧
      x.2.machine.globals.map Value.unlined = y.2.machine.globals.map Value.unlined := by
  have hmachine : x.2.machine.unlined = y.2.machine.unlined := congrArg (·.2.1) h
  have hglobals (m : Machine) : m.unlined.globals = m.globals.map Value.unlined :=
    Store.bindings_map ..
  have houtput := congrArg Machine.output hmachine
  exact ⟨houtput, by rw [← hglobals, ← hglobals, hmachine]⟩

/-- What becomes of the result of a run, behind what was reported before. -/
def concluded (before : List Diagnostic) :
    EStateM.Result Failure Machine Unit → Except Failure Unit × Machine × List Diagnostic
  | .ok _ m => (.ok (), m, before)
  | .error e m =>
    match diagnostic? m e with
    | some d => (.ok (), m, before ++ [d])
    | none => (.error e, m, before)

theorem diagnostic?_unlined (m : Machine) (e : Failure) :
    diagnostic? m.unlined e.unlined = (diagnostic? m e).map Diagnostic.unlined := by
  cases e <;> rfl

/-- **What is reported of a run** depends on its lines only in its own. -/
theorem unlinedStep_interpret (limits : Limits) (s : Session) (p : Program) :
    unlinedStep (s.interpret limits p) =
      concluded (s.reporter.diagnostics.map Diagnostic.unlined)
        (unlining.result id
          (Machine.runAll (Machine.exec limits.turns limits.room) p s.machine)) := by
  unfold interpret Machine.runProgram Machine.after
  cases Machine.runAll (Machine.exec limits.turns limits.room) p s.machine with
  | ok u m => rfl
  | error e m =>
    have hd := diagnostic?_unlined m e
    simp only [Erasure.result, unlining, concluded, hd]
    cases diagnostic? m e with
    | some d => simp [unlinedStep, report, Except.mapError]
    | none => rfl

/-- A run that nothing is reported of went to its end. -/
theorem interpret_clean (hrun : (s.interpret limits p).1 = .ok ())
    (hclean : (s.interpret limits p).2.reporter.diagnostics = []) :
    ∃ m, Machine.runAll (Machine.exec limits.turns limits.room) p s.machine = .ok () m ∧
      s.interpret limits p = (.ok (), { s with machine := m }) := by
  unfold interpret Machine.runProgram Machine.after at hrun hclean ⊢
  cases hp : Machine.runAll (Machine.exec limits.turns limits.room) p s.machine with
  | ok u m => exact ⟨m, rfl, rfl⟩
  | error e m =>
    rw [hp] at hrun hclean
    dsimp only at hrun hclean
    cases hd : diagnostic? m e with
    | some d =>
      rw [hd] at hclean
      simp [report] at hclean
    | none =>
      rw [hd] at hrun
      cases hrun

/-- **Batches may be split or joined.**  In a session in which nothing has been reported, two
texts that compile may be run one after the other or together, if the first runs to its end: the
output is the same, the global names have the same values, and the second text ends in the same
way, by the same error if there is one, apart from lines in both. -/
theorem run_joined (hs : s.reporter.diagnostics = []) (ha : Compiles limits a)
    (hb : Compiles limits b) (hrun : (s.run limits false a).1 = .ok ())
    (hclean : (s.run limits false a).2.reporter.diagnostics = []) :
    let apart := (s.run limits false a).2.run limits false b
    let together := s.run limits false (joined a b)
    together.2.machine.output = apart.2.machine.output ∧
      together.2.machine.globals.map Value.unlined = apart.2.machine.globals.map Value.unlined ∧
      unlinedStep together = unlinedStep apart := by
  intro apart together
  obtain ⟨p, hp⟩ := ha
  obtain ⟨q, hq⟩ := hb
  obtain ⟨q', r, hjoined, hr, hrq⟩ := hp.joined hq
  have hreturns : ¬Stmt.AnyExits .giveBack (p.resolve limits.room).result := by
    rw [← Stmt.anyExits_bareAll, (Program.resolve_settled hp.shaped hp.scopes).1,
      Stmt.anyExits_bareAll]
    exact Program.not_exits_of_resolve hp.scopes
  rw [run_of_compilesTo hs hp] at hrun hclean
  obtain ⟨m, hm, hfirst⟩ := interpret_clean hrun hclean
  have hapart : apart = Session.interpret limits { s with machine := m }
      (q.resolve limits.room).result := by
    show (s.run limits false a).2.run limits false b = _
    rw [run_of_compilesTo hs hp, hfirst]
    exact run_of_compilesTo hs hq
  have htogether : together = s.interpret limits ((p.resolve limits.room).result ++ r) := by
    rw [← hr]
    exact run_of_compilesTo hs hjoined
  have hsame : unlinedStep together = unlinedStep apart := by
    rw [hapart, htogether, unlinedStep_interpret, unlinedStep_interpret,
      Machine.runAll_append hreturns]
    simp only [Bind.bind, EStateM.bind, hm]
    -- both are runs of one program without lines from one machine without lines
    have hr' := Machine.unlines_runAll limits.turns limits.room r m
    have hq' := Machine.unlines_runAll limits.turns limits.room (q.resolve limits.room).result m
    rw [← hr', ← hq', hrq]
  obtain ⟨houtput, hglobals⟩ := machine_of_unlinedStep hsame
  exact ⟨houtput, hglobals, hsame⟩

/-- A text with a function in it, that ends in a comment. -/
def definesF : String := "fun f() { print 1; } // f"

/-- A text that calls the function, and fails. -/
def callsF : String := "f();\nf(2);"

/-- Run one after the other or together, the texts print a number and fail for the same reason,
on another line. -/
theorem run_joined_of_callsF :
    let s := Session.new fun _ => 0
    let apart := (s.run ⟨200, 10⟩ false definesF).2.run ⟨200, 10⟩ false callsF
    let together := s.run ⟨200, 10⟩ false (joined definesF callsF)
    apart.2.machine.output = "1\n" ∧
      apart.2.reporter.messages = ["Expected 0 arguments but got 1.\n[line 2]"] ∧
      together.2.reporter.messages = ["Expected 0 arguments but got 1.\n[line 3]"] ∧
      together.2.machine.output = apart.2.machine.output ∧
      together.2.machine.globals.map Value.unlined = apart.2.machine.globals.map Value.unlined ∧
      unlinedStep together = unlinedStep apart := by
  intro s apart together
  have hdef : Compiles ⟨200, 10⟩ definesF :=
    compiles_of_diagnostics (by decide +kernel) (by decide +kernel) (by decide +kernel)
  have hcall : Compiles ⟨200, 10⟩ callsF :=
    compiles_of_diagnostics (by decide +kernel) (by decide +kernel) (by decide +kernel)
  have hok : (s.run ⟨200, 10⟩ false definesF).1.isOk = true := by decide +kernel
  have hrun : (s.run ⟨200, 10⟩ false definesF).1 = .ok () := by
    cases h : (s.run ⟨200, 10⟩ false definesF).1 with
    | ok u => rfl
    | error e => rw [h] at hok; cases hok
  exact ⟨by decide +kernel, by decide +kernel, by decide +kernel,
    run_joined rfl hdef hcall hrun (by decide +kernel)⟩

end Session
end LoxKit
