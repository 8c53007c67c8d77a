import LoxKit.Proofs.Grammar.Genuine

/-!
# Scanning a text between two others

The pieces of a text do not depend on what stands around it, as long as nothing is wrong in the
text: a line feed ends every piece that is not closed otherwise, so more text may follow behind
one (`Scan.cutOnto_append`), and blank space in front leaves the tokens alone
(`Scan.filterMap_cutOnto_space`).

So a text between `print` and a semicolon on the next line scans to the tokens of the text
between those two (`scan_printed`).
-/
namespace LoxKit

/-- **A text to be printed**: the statement that prints the expression that the text is. -/
def printed (source : String) : String := "print " ++ source ++ "\n;"

namespace Scan

/-- The pieces of a text behind the word that prints. -/
theorem filterMap_split_print {α : Type} {f : Piece → Option α}
    (hf : ∀ text line, f ⟨.blank, text, line⟩ = none) (cs : List Char) :
    (Piece.split ("print ".toList ++ cs)).filterMap f =
      (f ⟨.token .printWord, "print".toList, 1⟩).toList ++ (Piece.split cs).filterMap f := by
  have hprint : Form 'p' ("rint".toList ++ ' ' :: cs) (.token .printWord) "rint".toList.length :=
    lead_eq_iff.mp rfl
  have hsplit : Piece.split ("print ".toList ++ cs) =
      ⟨.token .printWord, "print".toList, 1⟩ :: cutOnto [] 1 0 (' ' :: cs) := cutOnto_form hprint 1
  rw [hsplit, List.filterMap_cons, filterMap_cutOnto_space hf 1 rfl]
  cases f ⟨.token .printWord, "print".toList, 1⟩ <;> rfl

/-! ## Tokens -/

/-- The end of the input is no piece of a text. -/
theorem Form.ne_end {c : Char} {t cs : List Char} {kind : TokenKind}
    (h : Form c (t ++ cs) (.token kind) t.length) : kind ≠ .endOfInput := by
  rcases h.token_cases with rfl | rfl | hkind | hkind | hkind
  · exact nofun
  · exact nofun
  · rintro rfl
    have hword := TokenKind.mem_reserved_of_ofWord hkind.symm (by decide)
    simp [TokenKind.reserved] at hword
  · rintro rfl
    unfold withEqual? at hkind
    split at hkind <;> cases hkind
  · rintro rfl
    unfold single? at hkind
    split at hkind <;> cases hkind

end Scan

/-- The pieces of a text that is to be printed: those of the text, and those around it. -/
theorem filterMap_split_printed {α : Type} {f : Piece → Option α}
    (hf : ∀ text line, f ⟨.blank, text, line⟩ = none) {source : String}
    (h : (scan source).diagnostics = []) :
    (Piece.split (printed source).toList).filterMap f =
      (f ⟨.token .printWord, "print".toList, 1⟩).toList ++
        ((Piece.split source.toList).filterMap f ++
          (f ⟨.token .semicolon, [';'], Scan.feeds source.toList + 2⟩).toList) := by
  have hclean : ∀ p ∈ Piece.split source.toList, p.diagnostic? = none :=
    List.filterMap_eq_nil_iff.mp h
  have htext : (printed source).toList = "print ".toList ++ (source.toList ++ ['\n', ';']) := by
    simp [printed]
  have hbehind : Piece.split (source.toList ++ ['\n', ';']) = Piece.split source.toList ++
      Scan.cutOnto [] (1 + Scan.feeds source.toList) 0 ['\n', ';'] :=
    Scan.cutOnto_append hclean [';']
  have hlast : ∀ line, Scan.cutOnto [] line 0 ['\n', ';'] =
      [⟨.blank, ['\n'], line + 1⟩, ⟨.token .semicolon, [';'], line + 1⟩] := fun _ => rfl
  have hline : 1 + Scan.feeds source.toList + 1 = Scan.feeds source.toList + 2 := by omega
  rw [htext, Scan.filterMap_split_print hf, hbehind, List.filterMap_append, hlast,
    List.filterMap_cons_none (hf _ _), hline, List.filterMap_cons]
  cases f ⟨.token .semicolon, [';'], Scan.feeds source.toList + 2⟩ <;> rfl

/-- No token of a text ends the input, up to the last. -/
theorem isEnd_of_mem_split {cs : List Char} {t : Token}
    (h : t ∈ (Piece.split cs).filterMap (·.token?)) : t.isEnd = false := by
  obtain ⟨c, u, rest, hform, -⟩ := Scan.form_of_mem_split h
  exact beq_false_of_ne hform.ne_end

/-- **The tokens of a text that is to be printed** are those of the text, between `print` and
the semicolon. -/
theorem scan_printed {source : String} (h : (scan source).diagnostics = []) :
    ∃ (ts : List Token) (n : Nat), (∀ t ∈ ts, t.isEnd = false) ∧
      (scan source).tokens = ts ++ [.endAt (n + 1)] ∧
      (scan (printed source)).tokens =
        ⟨.printWord, "print", 1⟩ :: (ts ++ [⟨.semicolon, ";", n + 2⟩, .endAt (n + 2)]) ∧
      (scan (printed source)).diagnostics = [] := by
  have hfeeds : Scan.feeds (printed source).toList = Scan.feeds source.toList + 1 := by
    simp [printed, Scan.feeds]
  refine ⟨(Piece.split source.toList).filterMap (·.token?), Scan.feeds source.toList,
    fun t ht => isEnd_of_mem_split ht, ?_, ?_, ?_⟩
  · show _ ++ [Token.endAt (1 + (Scan.feeds source.toList : Nat))] = _
    rw [Int.add_comm]
  · show (Piece.split (printed source).toList).filterMap (·.token?) ++
      [Token.endAt (1 + (Scan.feeds (printed source).toList : Nat))] = _
    have hend : (1 : Int) + ((Scan.feeds source.toList + 1 : Nat) : Int) =
        (Scan.feeds source.toList : Int) + 2 := by omega
    rw [filterMap_split_printed (fun _ _ => rfl) h, hfeeds, hend, List.append_assoc,
      List.append_assoc]
    rfl
  · show (Piece.split (printed source).toList).filterMap (·.diagnostic?) = []
    rw [filterMap_split_printed (fun _ _ => rfl) h]
    show [] ++ ((scan source).diagnostics ++ []) = []
    rw [h]
    rfl

end LoxKit
