import LoxKit.Proofs.Grammar.Names
import LoxKit.Proofs.Grammar.Reworded
import LoxKit.Proofs.Machine.Renamed
import LoxKit.Proofs.Scope.Renamed
import LoxKit.Proofs.Session.Contained

/-!
# Local names do not matter

In a text that compiles, a local variable may be renamed to an identifier that the text does not
have, together with the references that lead to it.  The new text compiles as well, each name of it
leads where it did, and its run writes and reports the same (`Session.Arises.run_renamed`).  There
is one renaming, which each stage keeps to: the tree is respelled, so its tokens are, and so is the
text; resolution finds the same distances in it; and the two runs go abreast.
-/
namespace LoxKit

open Scope

/-! ## Runs of programs -/

/-- **Two runs end alike**: both normally, or with failures that are alike. -/
inductive EndsAlike : Except Failure Unit → Except Failure Unit → Prop where
  | ok : EndsAlike (.ok ()) (.ok ())
  | error {e e' : Failure} : e.Respelled e' → EndsAlike (.error e) (.error e')

/-- Failures that are alike are reported alike. -/
theorem Session.diagnostic?_respelled {e e' : Failure} (h : e.Respelled e') {m m' : Machine}
    (hline : m'.line = m.line) : diagnostic? m' e' = diagnostic? m e := by
  cases h with
  | error cause hplace => simp [diagnostic?, hplace]
  | stackOverflow => simp [diagnostic?, hline]
  | breach | outOfTurns => rfl

namespace Pair

variable {R : Renaming} {t : Pair} {p p' : Program}

/-- **Two machines run a program and the program renamed**: they agree afterwards, and the runs
end alike. -/
theorem Agrees.runProgram (ht : t.Agrees R) (hcurrent : t.left.current = globalFrame)
    (hp : Stmt.AllRenamed R .none p p') (limits : Limits) :
    EndsAlike (t.left.runProgram limits p).1 (t.right.runProgram limits p').1 ∧
      ∃ t' : Pair, t'.Agrees R ∧ t'.left.current = globalFrame ∧
        t'.left = (t.left.runProgram limits p).2 ∧ t'.right = (t.right.runProgram limits p').2 := by
  have habreast := abreast_runAll R limits.turns limits.room p p' t hcurrent hp ht
  unfold Machine.runProgram Machine.after
  generalize Machine.runAll (Machine.exec limits.turns limits.room) p t.left = r at habreast ⊢
  generalize Machine.runAll (Machine.exec limits.turns limits.room) p' t.right = r' at habreast ⊢
  cases habreast with
  | @ok _ _ t' hgoes _ =>
    exact ⟨.ok, t', hgoes.agrees, hgoes.current.trans hcurrent, rfl, rfl⟩
  | @error _ _ t' hgoes he =>
    exact ⟨.error he, t', hgoes.agrees, hgoes.current.trans hcurrent, rfl, rfl⟩

end Pair

/-! ## Machines between two batches -/

/-- **A machine agrees with itself**, and its global frame is current. -/
def Machine.Regular (R : Renaming) (m : Machine) : Prop :=
  (∃ marks, (Pair.mk marks m m).Agrees R) ∧ m.current = globalFrame

namespace Machine.Regular

variable {R : Renaming} {m : Machine}

theorem initial (R : Renaming) (clock : Nat → Float) : (Machine.initial clock).Regular R := by
  -- the one name of a new machine is bound to a native function
  have hnative : ∀ f x, Option.Rel (Value.Respelled R ⟨fun _ => false, initialFrames⟩)
      ((initialFrames.bindings f).get? x) ((initialFrames.bindings f).get? x) := by
    intro f x
    cases hv : (initialFrames.bindings f).get? x with
    | none => exact .none
    | some v =>
      obtain ⟨-, rfl⟩ := Machine.of_get?_initialFrames hv
      exact .some (.native _)
  refine ⟨⟨fun _ => false, ?_⟩, rfl⟩
  exact {
    outermost := rfl
    size_pos := Nat.zero_lt_one
    global := rfl
    size_eq := rfl
    enclosing := fun _ => rfl
    bindings := hnative
    fields_size := rfl
    fields := fun _ _ => by simp only [Machine.initial]; exact .none
    current := rfl
    classCount := rfl
    line := rfl
    output := rfl
    clock := rfl
    readings := rfl }

theorem write (h : m.Regular R) (text : String) : (m.write text).Regular R := by
  obtain ⟨⟨marks, hagrees⟩, hcurrent⟩ := h
  exact ⟨⟨marks, (hagrees.write text).agrees⟩, hcurrent⟩

theorem runProgram (h : m.Regular R) (limits : Limits) (p : Program) :
    (m.runProgram limits p).2.Regular R := by
  obtain ⟨⟨marks, hagrees⟩, hcurrent⟩ := h
  obtain ⟨-, ⟨marks', left, right⟩, hagrees', hcurrent', hleft, hright⟩ :=
    hagrees.runProgram hcurrent (.refl R p) limits
  dsimp only at hcurrent' hleft hright
  rw [hleft] at hcurrent'
  rw [hleft, hright] at hagrees'
  exact ⟨⟨marks', hagrees'⟩, hcurrent'⟩

end Machine.Regular

namespace Session

/-- The machine of a session agrees with itself. -/
theorem Arises.regular {s : Session} (h : s.Arises) (R : Renaming) : s.machine.Regular R :=
  h.invariant (Machine.Regular.initial R) (fun _ text hm => hm.write text)
    fun _ limits p _ hm => hm.runProgram limits p

/-- **Runs of a program and of the program renamed** write and report the same, and end alike. -/
theorem interpret_renamed {R : Renaming} {s : Session} (hs : s.machine.Regular R)
    {p p' : Program} (hp : Stmt.AllRenamed R .none p p') (limits : Limits) :
    (s.interpret limits p').2.machine.output = (s.interpret limits p).2.machine.output ∧
      (s.interpret limits p').2.reporter = (s.interpret limits p).2.reporter ∧
      EndsAlike (s.interpret limits p).1 (s.interpret limits p').1 := by
  obtain ⟨⟨marks, hagrees⟩, hcurrent⟩ := hs
  obtain ⟨hends, t, ht, -, hleft, hright⟩ := hagrees.runProgram hcurrent hp limits
  dsimp only at hends hleft hright
  have houtput : (s.machine.runProgram limits p').2.output =
      (s.machine.runProgram limits p).2.output := by
    rw [← hleft, ← hright]
    exact ht.output
  have hline : (s.machine.runProgram limits p').2.line =
      (s.machine.runProgram limits p).2.line := by
    rw [← hleft, ← hright]
    exact ht.line
  refine ⟨by rw [interpret_machine, interpret_machine, houtput], ?_⟩
  unfold interpret
  generalize s.machine.runProgram limits p = r at hends hline ⊢
  generalize s.machine.runProgram limits p' = r' at hends hline ⊢
  obtain ⟨outcome, m⟩ := r
  obtain ⟨outcome', m'⟩ := r'
  cases hends with
  | ok => exact ⟨rfl, .ok⟩
  | @error e e' he =>
    dsimp only
    rw [diagnostic?_respelled he hline]
    cases diagnostic? m e with
    | none => exact ⟨rfl, .error he⟩
    | some d => exact ⟨rfl, .ok⟩

end Session

/-! ## Texts -/

/-- **A text that compiles, with names spelled anew**: a text in which the tokens have these names
is read as the tree that has them. -/
theorem CompilesTo.respelled {R : Renaming} {limits : Limits} {source : String} {p p' : Program}
    (h : CompilesTo limits source p) (hp : Stmt.AllRespelled R p p') :
    ∃ source', List.Forall₂ (Piece.Respelled R) (Piece.split source.toList)
        (Piece.split source'.toList) ∧
      (scan source').diagnostics = [] ∧
      Program.ofTokens limits.room (scan source').tokens = ⟨p', []⟩ := by
  have hwritten := (Program.ofTokens_scan_iff source).mp h.program
  obtain ⟨ts, hts, hwritten'⟩ := hwritten.respelled p' hp
  obtain ⟨source', hpieces, hinner, hclean⟩ := scan_respelled h.tokens hts
  refine ⟨source', hpieces, hclean, (Program.ofTokens_scan_iff source').mpr ?_⟩
  rw [hinner]
  exact hwritten'

/-- The names of a program are tokens of its text. -/
theorem CompilesTo.named {P : Token → Prop} {limits : Limits} {source : String} {p : Program}
    (h : CompilesTo limits source p) (hP : ∀ t ∈ (scan source).tokens, P t) :
    Stmt.AllNamed P p :=
  ((Program.ofTokens_scan_iff source).mp h.program).named fun t ht =>
    hP t (List.mem_append_left _ ht)

/-- **Local names do not matter.**  Of a text that compiles, let a local variable of its resolved
program be renamed, together with the references that lead to it, to an identifier that the text
does not have.  Then there is a text that has these names in place of the old ones and is the same
piece by piece otherwise, and it compiles.  Resolution makes the renamed program of it, and notes
the same distances in the same order.  In every session, to run any text that compiles to the
renamed program writes and reports the same as to run the first text, and ends alike. -/
theorem Session.run_renamed {limits : Limits} {source : String} {p r : Program} {R : Renaming}
    (h : CompilesTo limits source p) (hfresh : ∀ t ∈ (scan source).tokens, t.lexeme ≠ R.new)
    (hr : (p.resolve limits.room).result.Renames R r) :
    (∃ source', List.Forall₂ (Piece.Respelled R) (Piece.split source.toList)
        (Piece.split source'.toList) ∧ CompilesTo limits source' (Stmt.bareAll r)) ∧
      (Program.resolve limits.room (Stmt.bareAll r)).result = r ∧
      List.Forall₂ (SameUse R) (p.resolve limits.room).annotations
        (Program.resolve limits.room (Stmt.bareAll r)).annotations ∧
      ∀ source', CompilesTo limits source' (Stmt.bareAll r) →
        ∀ s : Session, s.Arises → s.reporter.diagnostics = [] →
          (s.run limits false source').2.machine.output =
              (s.run limits false source).2.machine.output ∧
            (s.run limits false source').2.reporter = (s.run limits false source).2.reporter ∧
            EndsAlike (s.run limits false source).1 (s.run limits false source').1 := by
  have hnamed : Stmt.AllNamed (Old R) p := h.named hfresh
  -- the shape and the names of the resolved tree are those of the tree that was read
  obtain ⟨hbare, hsettled, -⟩ := Program.resolve_settled h.shaped h.scopes
  have hbare : Stmt.bareAll (p.resolve limits.room).result = p :=
    hbare.trans (Stmt.fresh_all h.fresh).2
  have hrenamed : Stmt.AllRenamed R .none (p.resolve limits.room).result r := by
    refine hr.renamed ?_ ?_ hsettled
    · rw [← Stmt.allShaped_bareAll, hbare]
      exact h.shaped
    · rw [← Stmt.allNamed_bareAll, hbare]
      exact hnamed
  obtain ⟨hresult, hscopes, hannotations⟩ := Scope.resolve_renamed hnamed h.scopes hrenamed
  refine ⟨?_, hresult, hannotations, fun source' h' s hs hquiet => ?_⟩
  · have hrespelled := Stmt.AllRenamed.respelled_bare _ hrenamed
    rw [hbare] at hrespelled
    obtain ⟨source', hpieces, htokens, hprogram⟩ := h.respelled hrespelled
    exact ⟨source', hpieces, htokens, hprogram, hscopes⟩
  · rw [run_of_compilesTo hquiet h, run_of_compilesTo hquiet h', hresult]
    exact interpret_renamed (hs.regular R) hrenamed limits

namespace Session

/-- A block that uses a global name before it declares a variable of this name, which a function
captures. -/
def shadowing : String :=
  "var x = \"global\"; \x7b fun show() \x7b print x; \x7d var x = \"local\"; show();\n" ++
  "fun tell() \x7b print x; \x7d x = \"changed\"; tell(); \x7d print x;"

set_option maxRecDepth 100000 in
/-- **A variable that shadows a global one** is renamed in its block, in front of which the global
one is captured. -/
theorem run_renamed_of_shadowing :
    let R : Renaming := ⟨"x", "y", by decide, by decide⟩
    let s := Session.new fun _ => 0
    ∃ p r source', CompilesTo ⟨200, 10⟩ shadowing p ∧
      (∀ t ∈ (scan shadowing).tokens, t.lexeme ≠ R.new) ∧
      (p.resolve 200).result.Renames R r ∧ CompilesTo ⟨200, 10⟩ source' (Stmt.bareAll r) ∧
      (s.run ⟨200, 10⟩ false shadowing).2.machine.output = "global\nchanged\nglobal\n" ∧
      (s.run ⟨200, 10⟩ false source').2.machine.output = "global\nchanged\nglobal\n" := by
  intro R s
  -- the block is the second of three statements, and its second statement declares the variable
  obtain ⟨p, first, body, last, hp, hscopes, hresult, hold⟩ :
      ∃ p first body last, Program.ofTokens 200 (scan shadowing).tokens = ⟨p, []⟩ ∧
        (p.resolve 200).diagnostics = [] ∧
        (p.resolve 200).result = [first] ++ .block body :: [last] ∧
        ∃ stmt ∈ body, stmt.DeclaresVar R.old :=
    ⟨_, _, _, _, rfl, rfl, rfl, _, List.Mem.tail _ (.head _), rfl⟩
  have hcompiles : CompilesTo ⟨200, 10⟩ shadowing p := ⟨by decide +kernel, hp, hscopes⟩
  have hfresh : ∀ t ∈ (scan shadowing).tokens, t.lexeme ≠ R.new := by decide +kernel
  have hrenames : (p.resolve 200).result.Renames R ([first] ++ .block (R.scope body) :: [last]) := by
    rw [hresult]
    exact .inside (.block hold)
  have houtput : (s.run ⟨200, 10⟩ false shadowing).2.machine.output =
      "global\nchanged\nglobal\n" := by decide +kernel
  obtain ⟨⟨source', -, hcompiles'⟩, -, -, hruns⟩ := run_renamed hcompiles hfresh hrenames
  have hsame := (hruns source' hcompiles' s (.new _ _) rfl).1
  exact ⟨p, _, source', hcompiles, hfresh, hrenames, hcompiles', houtput, hsame.trans houtput⟩

end Session
end LoxKit
