import LoxKit.Proofs.Grammar.Echo
import LoxKit.Proofs.Grammar.Framed
import LoxKit.Proofs.Session.Outcome

/-!
# Expressions at a prompt

A line of a prompt that reads as an expression does what the batch that prints the expression
does, if nothing at all is wrong with the line (`Session.runExpression_eq_run`).  A line that
does not read as one does nothing.

Some faults do not keep a line from being read as an expression: the target of an assignment
that nothing can be assigned to, and an argument too many.  They are overlooked at the prompt,
and the rest of the line is evaluated.  The batch reports them and runs nothing, so there the
two differ (`Session.runExpression_agrees_iff`).
-/
namespace LoxKit

open Scope

namespace Session

variable {limits : Limits} {s : Session} {source : String} {e : Expr}

/-- **The faults that are overlooked** when a line is read as an expression. -/
def overlooked (limits : Limits) (source : String) : List Diagnostic :=
  (Expr.ofTokens? limits.room (scan source).tokens).diagnostics

/-- **The room in which a text can be read** as an expression, whatever it is, and in which it
can be printed. -/
def printingRoom (source : String) : Nat := 24 * (scan source).tokens.length + 9

theorem report_nil (s : Session) : s.report [] = s := rfl

theorem soleExpression?_eq_some (h : soleExpression? limits source = some e) :
    (scan source).diagnostics = [] ∧
      (Expr.ofTokens? limits.room (scan source).tokens).result = some e := by
  unfold soleExpression? at h
  dsimp only at h
  split at h
  · rename_i hclean
    exact ⟨List.isEmpty_iff.mp hclean, h⟩
  · cases h

/-- **The batch that prints an expression** is read to the statement that does, with the faults
overlooked in the expression, all of them faults that reading passes over. -/
theorem read_printed (h : soleExpression? limits source = some e)
    (hroom : printingRoom source ≤ limits.room) (s : Session) :
    (s.read limits (printed source)).2 = ([.print e], s.report (overlooked limits source)) ∧
      ∀ x ∈ overlooked limits source, x.PassedOver := by
  obtain ⟨hclean, hresult⟩ := soleExpression?_eq_some h
  obtain ⟨ts, n, hts, htokens, hprinted, hclean'⟩ := scan_printed hclean
  unfold printingRoom at hroom
  unfold overlooked
  rw [htokens] at hresult hroom ⊢
  rw [List.length_append, List.length_singleton] at hroom
  have hlength : 24 * ts.length + 33 ≤ limits.room := by omega
  have hprogram := Program.ofTokens_print hts (show (Token.endAt (n + 1)).isEnd = true from rfl)
    (show (Token.endAt (n + 2)).isEnd = true from rfl)
    (show (⟨.printWord, "print", 1⟩ : Token).kind = .printWord from rfl)
    (show (⟨.semicolon, ";", n + 2⟩ : Token).kind = .semicolon from rfl) hlength hresult
  refine ⟨?_, hprogram.2⟩
  unfold read
  dsimp only
  rw [hclean', hprinted, hprogram.1, report_nil]

/-- A line that reads as an expression is resolved and run. -/
theorem runExpression_eq (h : soleExpression? limits source = some e) (s : Session) :
    s.runExpression limits source =
      let (p, s) := s.resolve limits [.print e]
      if s.reporter.hadError then (.ok true, s)
      else ((s.interpret limits p).1.map fun _ => true, (s.interpret limits p).2) := by
  unfold runExpression
  rw [h]
  dsimp only
  split
  · rfl
  · obtain ⟨outcome, s'⟩ := (s.resolve limits [.print e]).2.interpret limits
      (s.resolve limits [.print e]).1
    cases outcome <;> rfl

/-- A batch from what is read of it. -/
theorem run_of_read {p : Program} {s' : Session} (h : (s.read limits source).2 = (p, s')) :
    s.run limits false source =
      if s'.reporter.hadError then (.ok (), s')
      else
        let (p, s) := s'.resolve limits p
        if s.reporter.hadError then (.ok (), s) else s.interpret limits p := by
  have hread : s.read limits source = ((s.read limits source).1, p, s') := by rw [← h]
  unfold run
  rw [hread]
  rfl

/-- **A line that reads as an expression without a fault** does what the batch does that prints
the expression. -/
theorem runExpression_eq_run (hs : s.reporter.hadError = false)
    (h : soleExpression? limits source = some e) (hroom : printingRoom source ≤ limits.room)
    (hclean : overlooked limits source = []) :
    s.run limits false (printed source) =
      ((s.runExpression limits source).1.map fun _ => (), (s.runExpression limits source).2) := by
  obtain ⟨hread, -⟩ := read_printed h hroom s
  rw [hclean, report_nil] at hread
  rw [run_of_read hread, runExpression_eq h, hs]
  dsimp only
  rw [if_neg nofun]
  by_cases herror : (s.resolve limits [.print e]).2.reporter.hadError = true
  · rw [if_pos herror, if_pos herror]
    rfl
  · rw [if_neg herror, if_neg herror]
    obtain ⟨outcome, s'⟩ := (s.resolve limits [.print e]).2.interpret limits
      (s.resolve limits [.print e]).1
    cases outcome <;> rfl

/-- **What is overlooked at the prompt is reported by the batch**, which runs nothing then. -/
theorem run_of_overlooked (h : soleExpression? limits source = some e)
    (hroom : printingRoom source ≤ limits.room) (hfaults : overlooked limits source ≠ []) :
    s.run limits false (printed source) = (.ok (), s.report (overlooked limits source)) := by
  obtain ⟨hread, hpassed⟩ := read_printed h hroom s
  have herror : (s.report (overlooked limits source)).reporter.hadError = true := by
    rw [hadError_report s fun x hx => (hpassed x hx).1]
    simp [hfaults]
  rw [run_of_read hread, if_pos herror]

/-! ## What is reported -/

/-- What is reported of a run are problems of the run. -/
theorem interpret_diagnostics (limits : Limits) (s : Session) (p : Program) :
    ∀ x ∈ (s.interpret limits p).2.reporter.diagnostics,
      x ∈ s.reporter.diagnostics ∨ x.runtime = true := by
  intro x hx
  cases hr : s.machine.runProgram limits p with
  | mk outcome m =>
    cases outcome with
    | ok u =>
      rw [interpret_of_ok hr] at hx
      exact .inl hx
    | error failure =>
      cases hd : diagnostic? m failure with
      | some d =>
        rw [interpret_of_reported hr hd, reporter_report] at hx
        rcases List.mem_append.mp hx with hx | hx
        · exact .inl hx
        · rw [List.mem_singleton.mp hx]
          exact .inr (diagnostic?_runtime hd)
      | none =>
        rw [interpret_of_unreported hr hd] at hx
        exact .inl hx

/-- What is reported of a line that reads as an expression are faults that resolution finds,
and problems of its run. -/
theorem runExpression_diagnostics (h : soleExpression? limits source = some e)
    (hs : s.reporter.diagnostics = []) :
    ∀ x ∈ (s.runExpression limits source).2.reporter.diagnostics,
      Fault.Reported x ∨ x.runtime = true := by
  have hresolve : ∀ x ∈ (s.resolve limits [.print e]).2.reporter.diagnostics,
      Fault.Reported x := by
    intro x hx
    unfold resolve at hx
    rw [reporter_report, hs] at hx
    exact Program.resolve_reported _ _ x hx
  intro x hx
  rw [runExpression_eq h] at hx
  dsimp only at hx
  split at hx
  · exact .inl (hresolve x hx)
  · rcases interpret_diagnostics _ _ _ x hx with hx | hx
    · exact .inl (hresolve x hx)
    · exact .inr hx

/-- No fault that resolution finds is one that reading passes over. -/
theorem not_passedOver_of_reported {x : Diagnostic} (h : Fault.Reported x) : ¬x.PassedOver := by
  obtain ⟨-, f, hf⟩ := h
  rintro ⟨-, hx | hx⟩
  · rw [hf] at hx
    revert hx
    cases f <;> decide
  · rw [hf] at hx
    revert hx
    cases f <;> decide

/-- **Where the prompt and the batch agree.**  A line that does not read as an expression does
nothing.  Any other does what the batch does that prints the expression, exactly if no fault
is overlooked in it; otherwise the batch reports these faults, and runs nothing. -/
theorem runExpression_agrees_iff (s : Session) (hs : s.reporter.diagnostics = [])
    (limits : Limits) (source : String) (hroom : printingRoom source ≤ limits.room) :
    ((s.runExpression limits source).1 = .ok false → (s.runExpression limits source).2 = s) ∧
    ((s.runExpression limits source).1 ≠ .ok false →
      ((s.run limits false (printed source)).2 = (s.runExpression limits source).2 ↔
        overlooked limits source = []) ∧
      (overlooked limits source = [] → (s.run limits false (printed source)).1 =
        (s.runExpression limits source).1.map fun _ => ()) ∧
      (overlooked limits source ≠ [] → s.run limits false (printed source) =
        (.ok (), s.report (overlooked limits source)))) := by
  have hs' : s.reporter.hadError = false := by rw [Reporter.hadError, hs]; rfl
  cases h : soleExpression? limits source with
  | none =>
    have hnothing : s.runExpression limits source = (.ok false, s) := by
      unfold runExpression
      rw [h]
    rw [hnothing]
    exact ⟨fun _ => rfl, fun hne => absurd rfl hne⟩
  | some e =>
    have hread : (s.runExpression limits source).1 ≠ .ok false := by
      rw [runExpression_eq h]
      dsimp only
      split
      · nofun
      · generalize (s.resolve limits [.print e]).2.interpret limits _ = r
        obtain ⟨outcome, s'⟩ := r
        cases outcome <;> nofun
    have hagree := runExpression_eq_run hs' h hroom
    have hdiffer := run_of_overlooked (s := s) h hroom
    refine ⟨fun heq => absurd heq hread, fun _ => ⟨⟨fun heq => ?_, fun hclean => ?_⟩,
      fun hclean => ?_, hdiffer⟩⟩
    · -- a fault that the batch reports is not reported at the prompt
      rcases hfaults : overlooked limits source with - | ⟨x, faults⟩
      · rfl
      · have hne : overlooked limits source ≠ [] := by rw [hfaults]; nofun
        have hx : x ∈ (s.runExpression limits source).2.reporter.diagnostics := by
          rw [← heq, hdiffer hne, reporter_report, hfaults]
          simp
        have hpassed := (read_printed h hroom s).2 x (by rw [hfaults]; exact List.mem_cons_self)
        rcases runExpression_diagnostics h hs x hx with hreported | hruntime
        · exact absurd hpassed (not_passedOver_of_reported hreported)
        · rw [hpassed.1] at hruntime
          cases hruntime
    · rw [hagree hclean]
    · rw [hagree hclean]

/-- A literal that is assigned to. -/
def literalTarget : String := "nil = nil"

/-- The prompt prints the literal; the batch reports the assignment and prints nothing. -/
theorem runExpression_agrees_iff_of_literalTarget :
    let s := Session.new fun _ => 0
    (s.runExpression ⟨200, 10⟩ literalTarget).2.machine.output = "nil\n" ∧
    (overlooked ⟨200, 10⟩ literalTarget).map (·.render) =
      ["[line 1] Error at '=': Invalid assignment target."] ∧
    s.run ⟨200, 10⟩ false (printed literalTarget) =
      (.ok (), s.report (overlooked ⟨200, 10⟩ literalTarget)) := by
  intro s
  have hprinted : (s.runExpression ⟨200, 10⟩ literalTarget).2.machine.output = "nil\n" := by
    decide +kernel
  have hfaults : (overlooked ⟨200, 10⟩ literalTarget).map (·.render) =
      ["[line 1] Error at '=': Invalid assignment target."] := by
    decide +kernel
  have hroom : printingRoom literalTarget ≤ (⟨200, 10⟩ : Limits).room := by
    decide +kernel
  have hread : (s.runExpression ⟨200, 10⟩ literalTarget).1 ≠ .ok false := by
    intro hread
    have hs := (runExpression_agrees_iff s rfl ⟨200, 10⟩ literalTarget hroom).1 hread
    rw [hs] at hprinted
    exact absurd hprinted (by decide)
  have hne : overlooked ⟨200, 10⟩ literalTarget ≠ [] := by
    intro hnil
    rw [hnil] at hfaults
    cases hfaults
  exact ⟨hprinted, hfaults,
    ((runExpression_agrees_iff s rfl ⟨200, 10⟩ literalTarget hroom).2 hread).2.2 hne⟩

end Session
end LoxKit
