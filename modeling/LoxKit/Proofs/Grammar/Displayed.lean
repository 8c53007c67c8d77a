import LoxKit.Proofs.Grammar.Joined
import LoxKit.Proofs.Grammar.Legible
import LoxKit.Proofs.Tree.Displayed

/-!
# The display form identifies the program

The tokens of a text are spelled as they should be, so a program that is read from them without a
fault is legible (`Program.allLegible_ofTokens`), if no numeral of the text is infinite.  A legible
program is known by its display form up to its lines, and with it the constants that its numerals
stand for: two texts that are displayed alike were read as the same program
(`Program.ofTokens_displayed`).  The numerals themselves may be spelled in different ways.
-/
namespace LoxKit

open Grammar

/-- **All numerals of a text are of finite value.** -/
def Scan.Finite (s : Scan) : Prop :=
  ∀ t ∈ s.tokens, t.kind = .number → Binary64.isFinite (readNumeral t.lexeme)

theorem Scan.Finite.sound {source : String} (h : (scan source).Finite) :
    ∀ t ∈ inner source, t.Sound := fun t ht =>
  ⟨spelled_of_mem_split ht,
    fun hkind => Binary64.plain_readNumeral (h t (List.mem_append_left _ ht) hkind)⟩

/-- **A program that is read from a text without a fault is legible.** -/
theorem Program.allLegible_ofTokens {source : String} {room : Nat} {p : Program}
    (hfinite : (scan source).Finite) (h : Program.ofTokens room (scan source).tokens = ⟨p, []⟩) :
    Stmt.AllLegible p :=
  Passage.Written.legible ((ofTokens_scan_iff source).mp h) hfinite.sound

/-- Legible statements are known by their display forms. -/
theorem Stmt.unlinedAll_eq_of_display {ss ss' : List Stmt} (hss : Stmt.AllLegible ss)
    (hss' : Stmt.AllLegible ss') (h : ss.map Stmt.display = ss'.map Stmt.display) :
    Stmt.unlinedAll ss = Stmt.unlinedAll ss' := by
  induction ss generalizing ss' with
  | nil =>
    cases ss' with
    | nil => rfl
    | cons s' ss' => cases h
  | cons s ss ih =>
    cases ss' with
    | nil => cases h
    | cons s' ss' =>
      obtain ⟨hdisplay, hmore⟩ := List.cons.inj h
      have hs : s.unlined = s'.unlined ∧ ([] : List Char) = [] :=
        s.display_inj s' hss.1 hss'.1 (fun _ => nofun) (fun _ => nofun) (by rw [hdisplay])
      rw [Stmt.unlinedAll, Stmt.unlinedAll, hs.1, ih hss.2 hss'.2 hmore]

/-- **The display form identifies the program.**  If two texts with numerals of finite value are
read as programs without a fault, each in some room, and their statements are displayed by the same
texts, then the programs are the same, up to the lines of their tokens.  It does not matter whether
something was wrong with the texts between their tokens. -/
theorem Program.ofTokens_displayed {source source' : String} {room room' : Nat} {p p' : Program}
    (hfinite : (scan source).Finite) (hfinite' : (scan source').Finite)
    (hp : Program.ofTokens room (scan source).tokens = ⟨p, []⟩)
    (hp' : Program.ofTokens room' (scan source').tokens = ⟨p', []⟩)
    (h : p.map Stmt.display = p'.map Stmt.display) :
    Stmt.unlinedAll p = Stmt.unlinedAll p' :=
  Stmt.unlinedAll_eq_of_display (allLegible_ofTokens hfinite hp)
    (allLegible_ofTokens hfinite' hp') h

/-- The lines of a loop and the spelling of its numerals are not seen in its display form. -/
theorem Program.ofTokens_displayed_of_respelled :
    let source := "while (x < 2.50) x = x + 1;"
    let source' := "while (x < 2.5)\n  x = x + 1.0;"
    (scan source).Finite ∧ (scan source').Finite ∧
      ∃ p p', Program.ofTokens 200 (scan source).tokens = ⟨p, []⟩ ∧
        Program.ofTokens 200 (scan source').tokens = ⟨p', []⟩ ∧
        p.map Stmt.display = ["while (< x 2.5) (= x (+ x 1));"] ∧
        p'.map Stmt.display = p.map Stmt.display ∧ Stmt.unlinedAll p = Stmt.unlinedAll p' := by
  intro source source'
  have hfinite : (scan source).Finite := by
    unfold Scan.Finite
    decide +kernel
  have hfinite' : (scan source').Finite := by
    unfold Scan.Finite
    decide +kernel
  have hread (text : String) (h : (Program.ofTokens 200 (scan text).tokens).diagnostics = []) :
      Program.ofTokens 200 (scan text).tokens =
        ⟨(Program.ofTokens 200 (scan text).tokens).result, []⟩ := by
    rw [← h]
  have hp := hread source (by decide +kernel)
  have hp' := hread source' (by decide +kernel)
  have hdisplay : (Program.ofTokens 200 (scan source).tokens).result.map Stmt.display =
      ["while (< x 2.5) (= x (+ x 1));"] := by decide +kernel
  have hdisplay' : (Program.ofTokens 200 (scan source').tokens).result.map Stmt.display =
      (Program.ofTokens 200 (scan source).tokens).result.map Stmt.display := by decide +kernel
  exact ⟨hfinite, hfinite', _, _, hp, hp', hdisplay, hdisplay',
    Program.ofTokens_displayed hfinite hfinite' hp hp' hdisplay'.symm⟩

end LoxKit
