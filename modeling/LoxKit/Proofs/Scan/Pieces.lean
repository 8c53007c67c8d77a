import LoxKit.Proofs.Scan.Forms

/-!
# A text piece by piece

A text that is not empty is its first piece and the rest, and its pieces are that one and those of
the rest (`Scan.cutOnto_form`).  So a fact about all texts is shown by adding a piece in front
(`Scan.pieces_induction`).

A line feed ends every piece that is not closed otherwise, so more text may follow behind one
(`Scan.cutOnto_append`).
-/
namespace LoxKit
namespace Scan

variable {c : Char} {t cs : List Char} {role : Role}

theorem cutOnto_cut (cut : List Piece) (line within : Nat) (cs : List Char) :
    cutOnto cut line within cs = cut.reverse ++ cutOnto [] line within cs := by
  induction cs generalizing cut line within with
  | nil => simp [cutOnto]
  | cons c rest ih =>
    cases within with
    | succ n => exact ih cut line n
    | zero =>
      unfold cutOnto
      dsimp only
      rw [ih (_ :: cut), ih [_]]
      simp

theorem cutOnto_skip (line : Nat) (t cs : List Char) :
    cutOnto [] line t.length (t ++ cs) = cutOnto [] line 0 cs := by
  induction t with
  | nil => rfl
  | cons c t ih => exact ih

/-- **The first piece of a text, and the pieces of what is behind it.** -/
theorem cutOnto_form (h : Form c (t ++ cs) role t.length) (line : Nat) :
    cutOnto [] line 0 (c :: (t ++ cs)) =
      ⟨role, c :: t, line + feeds (c :: t)⟩ :: cutOnto [] (line + feeds (c :: t)) 0 cs := by
  have hcut : cutOnto [] line 0 (c :: (t ++ cs)) =
      let text := c :: (t ++ cs).take (lead c (t ++ cs)).2
      cutOnto [⟨(lead c (t ++ cs)).1, text, line + feeds text⟩] (line + feeds text)
        (lead c (t ++ cs)).2 (t ++ cs) := rfl
  rw [hcut, h.lead_eq]
  dsimp only
  rw [List.take_left, cutOnto_cut, cutOnto_skip, List.reverse_singleton, List.singleton_append]

/-- A line feed is a piece of its own. -/
theorem cutOnto_feed (line : Nat) (cs : List Char) :
    cutOnto [] line 0 ('\n' :: cs) = ⟨.blank, ['\n'], line + 1⟩ :: cutOnto [] (line + 1) 0 cs :=
  cutOnto_form (t := []) (.feed rfl) line

/-- **Induction over the pieces of a text.** -/
theorem pieces_induction {motive : List Char → Prop} (nil : motive [])
    (piece : ∀ c t cs role, Form c (t ++ cs) role t.length → motive cs → motive (c :: (t ++ cs)))
    (cs : List Char) : motive cs := by
  induction hlength : cs.length using Nat.strongRecOn generalizing cs with
  | _ n ih =>
    cases cs with
    | nil => exact nil
    | cons c rest =>
      have hle := (form_lead c rest).le
      obtain ⟨t, cs, rfl, ht⟩ : ∃ t cs, rest = t ++ cs ∧ t.length = (lead c rest).2 :=
        ⟨_, _, (List.take_append_drop _ rest).symm, List.length_take_of_le hle⟩
      have hform := form_lead c (t ++ cs)
      rw [← ht] at hform
      refine piece c t cs _ hform (ih _ ?_ cs rfl)
      rw [← hlength, List.length_cons, List.length_append]
      omega

/-- Every piece has a form. -/
theorem form_of_mem_cutOnto {line : Nat} {p : Piece} (h : p ∈ cutOnto [] line 0 cs) :
    ∃ c t cs, Form c (t ++ cs) p.role t.length ∧ p.text = c :: t := by
  induction cs using pieces_induction generalizing line with
  | nil => cases h
  | piece c t cs role hform ih =>
    rw [cutOnto_form hform] at h
    rcases List.mem_cons.mp h with rfl | h
    · exact ⟨c, t, cs, hform, rfl⟩
    · exact ih h

/-- Every token is a piece that has a form. -/
theorem form_of_mem_split {t : Token} (h : t ∈ (Piece.split cs).filterMap (·.token?)) :
    ∃ c u cs, Form c (u ++ cs) (.token t.kind) u.length ∧ t.lexeme = .ofList (c :: u) := by
  obtain ⟨p, hp, ht⟩ := List.mem_filterMap.mp h
  obtain ⟨c, u, cs, hform, htext⟩ := form_of_mem_cutOnto hp
  unfold Piece.token? at ht
  split at ht
  · rename_i kind hkind
    cases ht
    exact ⟨c, u, cs, hkind ▸ hform, congrArg String.ofList htext⟩
  · cases ht

/-- **The pieces of a text without faults are the same in front of a line feed.** -/
theorem cutOnto_append {line : Nat} (h : ∀ p ∈ cutOnto [] line 0 cs, p.diagnostic? = none)
    (more : List Char) :
    cutOnto [] line 0 (cs ++ '\n' :: more) =
      cutOnto [] line 0 cs ++ cutOnto [] (line + feeds cs) 0 ('\n' :: more) := by
  induction cs using pieces_induction generalizing line with
  | nil => rfl
  | piece c t cs role hform ih =>
    rw [cutOnto_form hform, List.forall_mem_cons] at h
    have hrole : ∀ cause, role ≠ .fault cause := by
      rintro cause rfl
      cases h.1
    have hfeeds : feeds (c :: (t ++ cs)) = feeds (c :: t) + feeds cs := by
      rw [← List.cons_append]
      exact List.count_append
    rw [List.cons_append, List.append_assoc, cutOnto_form (hform.ahead hrole (.feed cs more)),
      cutOnto_form hform, ih h.2, List.cons_append, hfeeds, Nat.add_assoc]

/-! ## Blanks in front -/

/-- Blanks in front of a text are a piece in which no line ends. -/
theorem cutOnto_space {line : Nat} (hc : isSpace c) (hrun : run isSpace (t ++ cs) = t.length) :
    cutOnto [] line 0 (c :: (t ++ cs)) = ⟨.blank, c :: t, line⟩ :: cutOnto [] line 0 cs := by
  have hform : Form c (t ++ cs) .blank t.length := by
    rw [← hrun]
    exact .space hc
  have hblank : ∀ d ∈ c :: t, isSpace d :=
    List.forall_mem_cons.mpr ⟨hc, (run_eq_length.mp hrun).1⟩
  have hfeeds : feeds (c :: t) = 0 :=
    List.count_eq_zero.mpr fun hfeed => absurd (hblank _ hfeed) (by decide)
  rw [cutOnto_form hform, hfeeds]
  rfl

/-- **A blank in front** is not seen by what looks at other pieces only. -/
theorem filterMap_cutOnto_space {α : Type} {f : Piece → Option α}
    (hf : ∀ text line, f ⟨.blank, text, line⟩ = none) (line : Nat) (hc : isSpace c)
    (cs : List Char) :
    (cutOnto [] line 0 (c :: cs)).filterMap f = (cutOnto [] line 0 cs).filterMap f := by
  -- both sides are what is behind the blanks
  have hsplit : cs.takeWhile isSpace ++ cs.dropWhile isSpace = cs := List.takeWhile_append_dropWhile
  have hrun : run isSpace (cs.takeWhile isSpace ++ cs.dropWhile isSpace) =
      (cs.takeWhile isSpace).length := by
    rw [hsplit]
    rfl
  rw [← hsplit]
  generalize cs.takeWhile isSpace = t at hrun ⊢
  generalize cs.dropWhile isSpace = rest at hrun ⊢
  rw [cutOnto_space hc hrun, List.filterMap_cons_none (hf _ _)]
  cases t with
  | nil => rfl
  | cons d t =>
    obtain ⟨ht, hrest⟩ := run_eq_length.mp hrun
    rw [List.forall_mem_cons] at ht
    rw [List.cons_append, cutOnto_space ht.1 (run_eq_length.mpr ⟨ht.2, hrest⟩),
      List.filterMap_cons_none (hf _ _)]

end Scan
end LoxKit
