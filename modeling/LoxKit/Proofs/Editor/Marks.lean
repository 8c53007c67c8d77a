import LoxKit.Editor.Diagnostics
import LoxKit.Proofs.Scan.Account
import LoxKit.Proofs.Scope.Moved
import LoxKit.Proofs.Text.Lines

/-!
# What a problem marks

Every problem of a text is on one of its lines (`line_of_problem`): scanning counts line feeds, and
what is found later is found at a token.  An editor shows the problem on the line of that number,
but counts lines in its own way to find out how long the line is.  So the mark covers the line that
was reported as long as that line and those in front of it are shown as they are
(`Mark.range_of_problem`).
-/
namespace LoxKit

/-- Every piece of a text ends on one of its lines. -/
theorem Piece.Account.line_le {source : List Char} {pieces : List Piece}
    (h : Piece.Account source pieces) {p : Piece} (hp : p ∈ pieces) :
    1 ≤ p.line ∧ p.line ≤ 1 + Scan.feeds source := by
  obtain ⟨before, after, rfl⟩ := List.append_of_mem hp
  have htext := h.text
  rw [List.flatMap_append, List.flatMap_cons, ← List.append_assoc] at htext
  rw [h.line before p after rfl, ← htext, Scan.feeds_append (_ ++ p.text)]
  omega

/-- Every token of a text is on one of its lines. -/
theorem line_of_token {source : String} {t : Token} (ht : t ∈ (scan source).tokens) :
    1 ≤ t.line ∧ t.line ≤ 1 + Scan.feeds source.toList := by
  obtain ⟨pieces, haccount, htokens, -, -⟩ := scan_accounts source
  rw [htokens, List.mem_append, List.mem_filterMap, List.mem_singleton] at ht
  rcases ht with ⟨p, hp, htoken⟩ | rfl
  · have hline := haccount.line_le hp
    unfold Piece.token? at htoken
    split at htoken
    · injection htoken with htoken
      subst htoken
      dsimp only
      omega
    · cases htoken
  · simp only [Token.endAt]
    omega

/-- Every diagnostic of scanning is on one of the lines. -/
theorem line_of_scan {source : String} {d : Diagnostic} (hd : d ∈ (scan source).diagnostics) :
    1 ≤ d.line ∧ d.line ≤ 1 + Scan.feeds source.toList := by
  obtain ⟨pieces, haccount, -, -, hdiagnostics⟩ := scan_accounts source
  rw [hdiagnostics, List.mem_filterMap] at hd
  obtain ⟨p, hp, hdiagnostic⟩ := hd
  have hline := haccount.line_le hp
  unfold Piece.diagnostic? at hdiagnostic
  split at hdiagnostic
  · injection hdiagnostic with hdiagnostic
    subst hdiagnostic
    simp only [Diagnostic.atLine]
    omega
  · cases hdiagnostic

/-- Lines from the first to the given one stay, all others are moved. -/
def stayingTo (last : Int) (x : Int) : Int := if 1 ≤ x ∧ x ≤ last then x else x + 1

theorem stayingTo_eq_self {last x : Int} : stayingTo last x = x ↔ 1 ≤ x ∧ x ≤ last := by
  unfold stayingTo
  split <;> omega

/-- Diagnostics that stay where they are are on one of the lines. -/
theorem line_of_stays {last : Int} {ds : List Diagnostic}
    (h : ds.map (Diagnostic.moved (stayingTo last)) = ds) {d : Diagnostic} (hd : d ∈ ds) :
    1 ≤ d.line ∧ d.line ≤ last := by
  have hmoved : d.moved (stayingTo last) = d :=
    List.map_inj_left.mp (h.trans (List.map_id ds).symm) d hd
  exact stayingTo_eq_self.mp (congrArg Diagnostic.line hmoved)

namespace Editor

open Text

/-- **Every problem of a text is on one of its lines.** -/
theorem line_of_problem {limits : Limits} {text : String} {d : Diagnostic}
    (hd : d ∈ problems limits text) :
    1 ≤ d.line ∧ d.line ≤ (feedLines text.toList).length := by
  have hlength : ((feedLines text.toList).length : Int) = 1 + Scan.feeds text.toList := by
    rw [length_feedLines, Scan.feeds]
    omega
  rw [hlength]
  have hend : ∃ t ∈ (scan text).tokens, t.isEnd = true :=
    ⟨_, List.mem_append_right _ List.mem_cons_self, rfl⟩
  have hfixed : ∀ t ∈ (scan text).tokens,
      t.moved (stayingTo (1 + Scan.feeds text.toList)) = t := fun t ht => by
    rw [Token.moved, stayingTo_eq_self.mpr (line_of_token ht)]
  have hparsed := Program.ofTokens_stays limits.room hend hfixed
  unfold problems at hd
  dsimp only at hd
  split at hd
  · have hfirst : stayingTo (1 + Scan.feeds text.toList) 1 = 1 :=
      stayingTo_eq_self.mpr (by omega)
    have hprogram := congrArg Grammar.Outcome.result hparsed
    exact line_of_stays (Program.resolve_stays hfirst hprogram limits.room) hd
  · rcases List.mem_append.mp hd with hd | hd
    · exact line_of_scan hd
    · exact line_of_stays (congrArg Grammar.Outcome.diagnostics hparsed) hd

/-- The range of a mark, by the number of the line that was reported. -/
theorem Mark.range_of (text : String) {d : Diagnostic} {n : Nat} (hn : d.line = n) (hpos : 1 ≤ n) :
    (Mark.of (documentLines text) d).range =
      .ofLine (n - 1 : Nat) ((shownLines text.toList).getD (n - 1) []).length := by
  have hline : (d.line - 1).toNat = n - 1 := by omega
  have hlength : (((documentLines text)[n - 1]?.map (·.length)).getD 0) =
      ((shownLines text.toList).getD (n - 1) []).length := by
    rw [show shownLines text.toList = documentLines text ++ [[]] from rfl, List.getD_eq_getElem?_getD,
      List.getElem?_append]
    split
    · rename_i hlt
      simp [hlt]
    · rename_i hge
      rw [List.getElem?_eq_none (Nat.le_of_not_lt hge)]
      cases n - 1 - (documentLines text).length <;> rfl
  unfold Mark.of
  simp only [hline, hlength]

/-- **What a problem marks.**  Each mark of a text is that of one of its problems, and this problem
is on one of the lines of the text.  The mark covers the line of the same number as it is shown,
from its beginning to its end.  The lines up to there are shown as they are exactly if none of them
holds a character that ends a line for an editor alone; then the mark covers the very line that was
reported. -/
theorem Mark.range_of_problem (limits : Limits) (text : String) {i : Nat} {mark : Mark}
    (hmark : (diagnostics limits text)[i]? = some mark) :
    let lines := feedLines text.toList
    ∃ d n, (problems limits text)[i]? = some d ∧ mark.message = d.headline ∧
      d.line = (n : Nat) ∧ 1 ≤ n ∧ n ≤ lines.length ∧
      mark.range = .ofLine (n - 1 : Nat) ((shownLines text.toList).getD (n - 1) []).length ∧
      ((shownLines text.toList).take n = (lines.take n).map withoutReturn ↔
        ∀ l ∈ lines.take n, Unbroken l) ∧
      ((∀ l ∈ lines.take n, Unbroken l) →
        mark.range = .ofLine (n - 1 : Nat) (withoutReturn (lines.getD (n - 1) [])).length) := by
  intro lines
  unfold diagnostics at hmark
  rw [List.getElem?_map] at hmark
  obtain ⟨d, hd, rfl⟩ := Option.map_eq_some_iff.mp hmark
  obtain ⟨hpos, hle⟩ := line_of_problem (List.mem_of_getElem? hd)
  obtain ⟨n, hn⟩ := Int.eq_ofNat_of_zero_le (show 0 ≤ d.line by omega)
  have hn' : n ≤ lines.length := Int.ofNat_le.mp (hn ▸ hle)
  have hlt : n - 1 < n := by omega
  have hrange := Mark.range_of text hn (by omega)
  refine ⟨d, n, hd, rfl, hn, by omega, hn', hrange, first_lines_agree_iff hn', fun hplain => ?_⟩
  have hline : (shownLines text.toList)[n - 1]? = (lines[n - 1]?).map withoutReturn := by
    have hagree := congrArg (·[n - 1]?) (first_lines_agree hn' hplain)
    simpa [List.getElem?_take, hlt] using hagree
  rw [hrange, List.getD_eq_getElem?_getD, List.getD_eq_getElem?_getD, hline,
    List.getElem?_eq_getElem (Nat.lt_of_lt_of_le hlt hn')]
  rfl

/-- A text whose first line is shown as two. -/
def pagedText : String := "// page\x0cbreak\nprint 1 +;"

/-- The problem is on the second line, of ten characters, and the mark is as long as the second half
of the first. -/
theorem Mark.range_of_paged :
    ∃ mark d, (diagnostics ⟨200, 10⟩ pagedText)[0]? = some mark ∧
      (problems ⟨200, 10⟩ pagedText)[0]? = some d ∧ d.line = 2 ∧
      ¬Unbroken ((feedLines pagedText.toList).getD 0 []) ∧
      ((feedLines pagedText.toList).getD 1 []).length = 10 ∧ mark.range = .ofLine 1 5 := by
  have hmark : (diagnostics ⟨200, 10⟩ pagedText)[0]? =
      some ⟨.ofLine 1 5, "Error at ';': Expect expression."⟩ := by decide +kernel
  obtain ⟨d, n, hd, -, hn, -, -, hrange, -⟩ := Mark.range_of_problem _ _ hmark
  have hline : ((problems ⟨200, 10⟩ pagedText)[0]?.map (·.line)) = some 2 := by decide +kernel
  rw [hd] at hline
  exact ⟨_, d, hmark, hd, Option.some.inj hline, by decide +kernel, by decide +kernel, rfl⟩

end Editor
end LoxKit
