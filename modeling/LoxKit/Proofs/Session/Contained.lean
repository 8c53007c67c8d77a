import LoxKit.Proofs.Grammar.Enclosed
import LoxKit.Proofs.Machine.Controlled
import LoxKit.Proofs.Scope.Returns
import LoxKit.Proofs.Session.History
import LoxKit.Proofs.Session.Joined
import LoxKit.Proofs.Session.Prompt

/-!
# Breaks and returns are contained

In a text that compiles, reading has seen to it that each `break` stands in a loop of its
function, and resolution that each `return` stands in a function.  So no statement of the
program is left by either, and in the runs of a session, which also call functions of earlier
batches, each `break` ends the innermost loop and each `return` the innermost call
(`Session.Arises.run_contained`).
-/
namespace LoxKit

open Scope

/-! ## Programs that compile -/

/-- **The statements of a program fit outside all loops and calls**, if what was read is
enclosed, is left by no `break`, and was accepted by resolution. -/
theorem Program.fitsIn_of_resolve {p : Program} {room : Nat} (hshaped : Stmt.AllShaped p)
    (hscopes : (p.resolve room).diagnostics = []) (henclosed : Stmt.AllEnclosed p)
    (hleave : ¬Stmt.AnyExits .leave p) : ∀ s ∈ (p.resolve room).result, s.FitsIn [] := by
  -- resolution changes distances alone, on which neither property depends
  have hbare := (Program.resolve_settled hshaped hscopes).1
  intro s hs
  refine ⟨?_, fun x hx => ?_⟩
  · rw [← Stmt.allEnclosed_bareAll, ← hbare, Stmt.allEnclosed_bareAll] at henclosed
    exact Stmt.allEnclosed_iff.mp henclosed s hs
  · have hexits : Stmt.AnyExits x p := by
      rw [← Stmt.anyExits_bareAll, ← hbare, Stmt.anyExits_bareAll]
      exact Stmt.anyExits_iff.mpr ⟨s, hs, hx⟩
    cases x with
    | leave => exact absurd hexits hleave
    | giveBack => exact absurd hexits (Program.not_exits_of_resolve hscopes)

/-- The statements of a text that compiles fit outside all loops and calls. -/
theorem CompilesTo.fitsIn {limits : Limits} {source : String} {p : Program}
    (h : CompilesTo limits source p) : ∀ s ∈ (p.resolve limits.room).result, s.FitsIn [] :=
  have ⟨henclosed, hleave⟩ := Program.enclosed_of_ofTokens h.program
  Program.fitsIn_of_resolve h.shaped h.scopes henclosed hleave

/-- A statement that fits outside all loops and calls ends normally, on every machine. -/
theorem Stmt.FitsIn.normal {s : Stmt} (h : s.FitsIn []) {turns room : Nat} {m m' : Machine}
    {c : Completion FrameId} (hrun : Machine.exec turns room s m = .ok c m') : c = .normal := by
  cases c with
  | normal => rfl
  | leave | giveBack v =>
    exact absurd (h.caught _ (Machine.exec_exits hrun rfl)) Exit.not_caught_nil

/-! ## Runs told with their signals -/

/-- The signals of loops and calls, in short. -/
def Signal.word? : Signal → Option String
  | .loopBegun => some "while"
  | .loopEnded _ => some "done"
  | .callBegun f => some f.name.lexeme
  | .callEnded _ _ => some "back"
  | .left _ => some "break"
  | .gaveBack _ _ => some "return"
  | _ => none

/-- **Runs a program with signals**: the machine behind the run, and the signals of the run. -/
def Machine.trace (limits : Limits) (m : Machine) (p : Program) : Noted Signal :=
  match runAll (traceExec limits.turns limits.room) p ⟨m, []⟩ with
  | .ok _ n | .error _ n => n

theorem Machine.trace_machine (limits : Limits) (m : Machine) (p : Program) :
    (m.trace limits p).machine = (m.runProgram limits p).2 := by
  have h := traceRunAll_shows limits.turns limits.room p ⟨m, []⟩
  unfold runProgram after trace
  rw [← h]
  cases runAll (traceExec limits.turns limits.room) p ⟨m, []⟩ <;> rfl

/-- **The signals of a program do not leak**, and it leaves only enclosed functions behind. -/
theorem Machine.trace_contained (limits : Limits) {m : Machine} {p : Program}
    (hm : m.Holds FunDecl.Enclosed) (hp : ∀ s ∈ p, s.FitsIn []) :
    (m.trace limits p).machine.Holds FunDecl.Enclosed ∧
      Signal.Contained (m.trace limits p).notes := by
  have h := controlled_traceRunAll limits.turns limits.room hp ⟨m, []⟩ hm
  unfold trace
  cases hrun : runAll (traceExec limits.turns limits.room) p ⟨m, []⟩ with
  | ok u n =>
    rw [hrun] at h
    obtain ⟨hholds, es, k, hnotes, hfollows, hk, -⟩ := h
    rw [hk] at hfollows
    refine ⟨hholds, ?_⟩
    rw [show n.notes = es from hnotes]
    exact hfollows.contained
  | error e n =>
    rw [hrun] at h
    obtain ⟨hholds, es, st, hnotes, hfollows⟩ := h
    refine ⟨hholds, ?_⟩
    rw [show n.notes = es from hnotes]
    exact hfollows.contained

namespace Session

/-- **Runs a batch with signals**, if there is a program to run. -/
def trace (limits : Limits) (list : Bool) (s : Session) (source : String) : Noted Signal :=
  match s.prepare limits list source with
  | (none, s') => ⟨s'.machine, []⟩
  | (some p, s') => s'.machine.trace limits p

/-- The machine of a run that is told with signals is the machine of the run. -/
theorem trace_machine (limits : Limits) (list : Bool) (s : Session) (source : String) :
    (s.trace limits list source).machine = (s.run limits list source).2.machine := by
  rw [run_eq]
  unfold trace
  obtain ⟨p, s'⟩ := s.prepare limits list source
  cases p with
  | none => rfl
  | some p =>
    dsimp only
    rw [interpret_machine, Machine.trace_machine]

/-! ## Sessions and their functions -/

/-- **The sessions that come about**: by batches, by lines of a prompt, by what is written in
between, and by forgetting what was reported.  No journal is kept of them, as it is in
`Session.Reached`. -/
inductive Arises : Session → Prop where
  | new (clock : Nat → Float) (echo : Bool) : Arises (.new clock echo)
  | write {s : Session} (text : String) : Arises s → Arises (s.write text)
  | reset {s : Session} : Arises s → Arises s.reset
  | run {s : Session} (limits : Limits) (list : Bool) (source : String) :
    Arises s → Arises (s.run limits list source).2
  | line {s : Session} (limits : Limits) (list : Bool) (source : String) :
    Arises s → Arises (s.runLine limits list source).2

/-- **What a session runs**: what a text compiles to, or at a prompt the statement that prints an
expression. -/
inductive Runs (limits : Limits) : Program → Prop where
  | batch {source : String} {p : Program} : CompilesTo limits source p →
    Runs limits (p.resolve limits.room).result
  | print {source : String} {e : Expr} : soleExpression? limits source = some e →
    (Program.resolve limits.room [.print e]).diagnostics = [] →
    Runs limits (Program.resolve limits.room [.print e]).result

section Invariants

variable {P : Machine → Prop} {s : Session}

/-- A batch writes, and perhaps runs a program. -/
theorem invariant_run (hwrite : ∀ m text, P m → P (m.write text))
    (hrun : ∀ m limits p, Runs limits p → P m → P (m.runProgram limits p).2) (limits : Limits)
    (list : Bool) (source : String) (hs : P s.machine) :
    P (s.run limits list source).2.machine := by
  obtain ⟨text, hmachine⟩ := prepare_machine limits list s source
  rw [run_eq]
  cases hprepare : s.prepare limits list source with
  | mk p s' =>
    rw [hprepare] at hmachine
    have hs' : P s'.machine := by
      rw [show s'.machine = s.machine.write text from hmachine]
      exact hwrite _ _ hs
    cases p with
    | none => exact hs'
    | some p =>
      obtain ⟨q, hq, rfl⟩ := compilesTo_of_prepare hprepare
      dsimp only
      rw [interpret_machine]
      exact hrun _ _ _ (.batch hq) hs'

/-- An expression at a prompt is perhaps run. -/
theorem invariant_runExpression
    (hrun : ∀ m limits p, Runs limits p → P m → P (m.runProgram limits p).2) (limits : Limits)
    (source : String) (hs : P s.machine) : P (s.runExpression limits source).2.machine := by
  unfold runExpression
  cases he : soleExpression? limits source with
  | none => exact hs
  | some e =>
    have hstatic : ∀ d ∈ (Program.resolve limits.room [.print e]).diagnostics,
        d.runtime = false := fun d hd => (Program.resolve_reported _ _ d hd).1
    unfold resolve
    dsimp only
    split
    · exact hs
    · rename_i hquiet
      have hscopes : (Program.resolve limits.room [.print e]).diagnostics = [] := by
        rw [hadError_report _ hstatic] at hquiet
        simp only [Bool.not_eq_true, Bool.or_eq_false_iff, Bool.not_eq_false',
          List.isEmpty_iff] at hquiet
        exact hquiet.2
      have hinterpret : P ((s.report (Program.resolve limits.room [.print e]).diagnostics).interpret
          limits (Program.resolve limits.room [.print e]).result).2.machine := by
        rw [interpret_machine]
        exact hrun _ _ _ (.print he hscopes) hs
      split
      all_goals
        rename_i hresult
        rw [hresult] at hinterpret
        exact hinterpret

/-- A line of a prompt is tried as an expression, and perhaps run as a batch. -/
theorem invariant_runLine (hwrite : ∀ m text, P m → P (m.write text))
    (hrun : ∀ m limits p, Runs limits p → P m → P (m.runProgram limits p).2) (limits : Limits)
    (list : Bool) (source : String) (hs : P s.machine) :
    P (s.runLine limits list source).2.machine := by
  have hline := invariant_runExpression hrun limits source hs
  unfold runLine
  generalize s.runExpression limits source = result at hline ⊢
  split
  · -- the line is no expression, so it is run as a batch
    have hbatch := invariant_run hwrite hrun limits list source hline
    split
    all_goals
      rename_i hresult
      rw [hresult] at hbatch
      exact hbatch
  · exact hline

/-- **What output and the runs of programs keep**, the machine of a session keeps. -/
theorem Arises.invariant (h : s.Arises) (hnew : ∀ clock, P (.initial clock))
    (hwrite : ∀ m text, P m → P (m.write text))
    (hrun : ∀ m limits p, Runs limits p → P m → P (m.runProgram limits p).2) : P s.machine := by
  induction h with
  | new clock echo => exact hnew clock
  | write text _ ih => exact hwrite _ text ih
  | reset _ ih => exact ih
  | run limits list source _ ih => exact invariant_run hwrite hrun limits list source ih
  | line limits list source _ ih => exact invariant_runLine hwrite hrun limits list source ih

end Invariants

/-- The statement that prints an expression of a prompt has the shape of a program. -/
theorem shaped_of_soleExpression? {limits : Limits} {source : String} {e : Expr}
    (he : soleExpression? limits source = some e) : Stmt.AllShaped [.print e] :=
  ⟨(Expr.fresh_ofTokens? (fun _ ht => genuine_of_mem_scan ht) (soleExpression?_eq_some he).2).1,
    trivial⟩

/-- **What a session runs has the shape of a program.** -/
theorem Runs.shaped {limits : Limits} {p : Program} (h : Runs limits p) : Stmt.AllShaped p := by
  have hresolved {q : Program} (hq : Stmt.AllShaped q)
      (hscopes : (q.resolve limits.room).diagnostics = []) :
      Stmt.AllShaped (q.resolve limits.room).result := by
    rw [← Stmt.allShaped_bareAll, (Program.resolve_settled hq hscopes).1, Stmt.allShaped_bareAll]
    exact hq
  cases h with
  | batch hq => exact hresolved hq.shaped hq.scopes
  | print he hscopes => exact hresolved (shaped_of_soleExpression? he) hscopes

/-- What a session runs fits outside all loops and calls. -/
theorem Runs.fitsIn {limits : Limits} {p : Program} (h : Runs limits p) :
    ∀ stmt ∈ p, stmt.FitsIn [] := by
  cases h with
  | batch hq => exact hq.fitsIn
  | @print source e he hscopes =>
    -- the one statement prints a value: it has no way out and declares no function
    exact Program.fitsIn_of_resolve (shaped_of_soleExpression? he) hscopes ⟨trivial, trivial⟩
      (by simp [Stmt.AnyExits, Stmt.Exits])

/-- **No `break` leaves a function** of the machine of a session. -/
theorem Arises.holds {s : Session} (h : s.Arises) : s.machine.Holds FunDecl.Enclosed := by
  refine h.invariant Machine.Holds.initial (fun m text hm => hm.of_eq rfl rfl) ?_
  intro m limits p hp hm
  rw [← Machine.trace_machine]
  exact (Machine.trace_contained limits hm hp.fitsIn).1

/-- The signals of a batch do not leak. -/
theorem trace_contained {s : Session} (limits : Limits) (list : Bool) (source : String)
    (hs : s.machine.Holds FunDecl.Enclosed) :
    Signal.Contained (s.trace limits list source).notes := by
  obtain ⟨text, hmachine⟩ := prepare_machine limits list s source
  unfold trace
  cases hprepare : s.prepare limits list source with
  | mk p s' =>
    rw [hprepare] at hmachine
    have hs' : s'.machine.Holds FunDecl.Enclosed := by
      rw [show s'.machine = _ from hmachine]
      exact hs.of_eq rfl rfl
    cases p with
    | none => exact (Control.Follows.nil ⟨[], .going⟩).contained
    | some p =>
      obtain ⟨q, hq, rfl⟩ := compilesTo_of_prepare hprepare
      exact (Machine.trace_contained limits hs' hq.fitsIn).2

/-- **Breaks and returns are contained**, in every run of a text that compiles.  On whatever
machine a statement of the program is executed, it ends neither by a `break` nor by a `return`.
In the run of the batch no body of a function ends by a `break`, each `break` ends the innermost
loop and nothing else, and each `return` ends the innermost call and the loops in it, and nothing
else.  The functions that are called may be those of any earlier batch. -/
theorem Arises.run_contained {s : Session} (hs : s.Arises) {limits : Limits} {source : String}
    {p : Program} (h : CompilesTo limits source p) (list : Bool) :
    (∀ stmt ∈ (p.resolve limits.room).result, ∀ turns room m m' c,
      Machine.exec turns room stmt m = .ok c m' → c = .normal) ∧
    (s.trace limits list source).machine = (s.run limits list source).2.machine ∧
    Signal.Contained (s.trace limits list source).notes :=
  ⟨fun stmt hstmt _ _ _ _ _ hrun => (h.fitsIn stmt hstmt).normal hrun,
    trace_machine limits list s source, trace_contained limits list source hs.holds⟩

/-- A `break` and a `return` behind blocks, branches and loops, in a function and in an
initializer. -/
def nestedLoops : String :=
  "fun f() { while (true) { while (true) { if (true) break; } return A(); } }" ++
    "class A { init() { while (true) { { return; } } } } print f();"

/-- Each signal ends what it should. -/
theorem Arises.run_contained_of_nestedLoops :
    let s := Session.new fun _ => 0
    ∃ p, CompilesTo ⟨200, 10⟩ nestedLoops p ∧
      (s.trace ⟨200, 10⟩ false nestedLoops).notes.filterMap Signal.word? =
        ["f", "while", "while", "break", "done",
          "init", "while", "return", "done", "back", "return", "done", "back"] ∧
      (∀ stmt ∈ (p.resolve 200).result, ∀ turns room m m' c,
        Machine.exec turns room stmt m = .ok c m' → c = .normal) ∧
      (s.trace ⟨200, 10⟩ false nestedLoops).machine =
        (s.run ⟨200, 10⟩ false nestedLoops).2.machine ∧
      Signal.Contained (s.trace ⟨200, 10⟩ false nestedLoops).notes := by
  intro s
  obtain ⟨p, hp⟩ : Compiles ⟨200, 10⟩ nestedLoops :=
    compiles_of_diagnostics (by decide +kernel) (by decide +kernel) (by decide +kernel)
  have hs : s.Arises := .new (fun _ => 0) true
  exact ⟨p, hp, by decide +kernel, hs.run_contained hp false⟩

end Session
end LoxKit
