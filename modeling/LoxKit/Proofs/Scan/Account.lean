import LoxKit.Proofs.Grammar.Framed

/-!
# Every character and every line is accounted for

What a piece is shows in its characters alone (`Role.Spells`): a comment begins with two slashes
and stays on its line, or is closed where its end occurs first, and so on for blanks, for each kind
of token and for the stretches that fit nowhere.

The pieces of a text make up the text, each is spelled as its role demands, and each lies on the
line that the line feeds up to its end give (`Piece.Account`).  Tokens and diagnostics are those of
the pieces, in order (`scan_accounts`), so no branch of the scanner loses a character or a line.
-/
namespace LoxKit

/-- **How the pieces of each role are spelled.** -/
inductive Role.Spells : Role → List Char → Prop where
  | feed : Spells .blank ['\n']
  | space {t : List Char} : t ≠ [] → (∀ c ∈ t, c = ' ' ∨ c = '\t' ∨ c = '\r') → Spells .blank t
  | lineComment {t : List Char} : '\n' ∉ t → Spells .comment ('/' :: '/' :: t)
  /-- The comment ends where `*/` occurs first. -/
  | blockComment {t : List Char} : ¬['*', '/'] <:+: t ++ ['*'] →
    Spells .comment ('/' :: '*' :: (t ++ ['*', '/']))
  | openComment {t : List Char} : ¬['*', '/'] <:+: t →
    Spells (.fault .unterminatedComment) ('/' :: '*' :: t)
  | whole {t : List Char} : t ≠ [] → (∀ c ∈ t, Scan.isDigit c) → Spells (.token .number) t
  | decimal {t u : List Char} : t ≠ [] → u ≠ [] → (∀ c ∈ t, Scan.isDigit c) →
    (∀ c ∈ u, Scan.isDigit c) → Spells (.token .number) (t ++ '.' :: u)
  | string {t : List Char} : '"' ∉ t → Spells (.token .string) ('"' :: (t ++ ['"']))
  | openString {t : List Char} : '"' ∉ t → Spells (.fault .unterminatedString) ('"' :: t)
  /-- A word is a keyword if it is reserved, else an identifier. -/
  | word {c : Char} {t : List Char} : Scan.isLetter c → (∀ d ∈ t, Scan.isWordChar d) →
    Spells (.token (.ofWord (.ofList (c :: t)))) (c :: t)
  | double {c : Char} {kind : TokenKind} : Scan.withEqual? c = some kind →
    Spells (.token kind) [c, '=']
  | single {c : Char} {kind : TokenKind} : Scan.single? c = some kind → Spells (.token kind) [c]
  /-- No piece of another role begins with this character. -/
  | unexpected {c : Char} : Scan.single? c = none → Scan.isDigit c = false →
    Scan.isLetter c = false → Scan.isSpace c = false → c ≠ '"' → c ≠ '\n' →
    Spells (.fault (.unexpected c)) [c]

/-- **An account of a text**: pieces that make it up, each with its spelling and with the line on
which it ends. -/
structure Piece.Account (source : List Char) (pieces : List Piece) : Prop where
  text : pieces.flatMap (·.text) = source
  spells : ∀ p ∈ pieces, p.text ≠ [] ∧ p.role.Spells p.text
  line : ∀ before p after, pieces = before ++ p :: after →
    p.line = 1 + Scan.feeds (before.flatMap (·.text) ++ p.text)

namespace Scan

variable {c : Char} {t cs : List Char} {role : Role} {p : Char → Bool}

/-! ## Spelling -/

/-- What stands where a run ends inside a text. -/
theorem run_lt (h : run p cs < cs.length) :
    ∃ u d rest, cs = u ++ d :: rest ∧ u.length = run p cs ∧ (∀ c ∈ u, p c) ∧ p d = false := by
  induction cs with
  | nil => cases h
  | cons c cs ih =>
    by_cases hc : p c
    · have hrun : run p (c :: cs) = run p cs + 1 := by simp [run, hc]
      rw [hrun] at h
      obtain ⟨u, d, rest, rfl, hlength, hu, hd⟩ := ih (Nat.lt_of_succ_lt_succ h)
      refine ⟨c :: u, d, rest, rfl, ?_, List.forall_mem_cons.mpr ⟨hc, hu⟩, hd⟩
      rw [hrun, List.length_cons, hlength]
    · exact ⟨[], c, cs, rfl, by simp [run, hc], List.forall_mem_nil _, by simpa using hc⟩

/-- A comment is closed where its end occurs first. -/
theorem closing?_eq_some {n : Nat} (h : closing? cs = some n) :
    ∃ u rest, cs = u ++ '*' :: '/' :: rest ∧ n = u.length + 2 ∧ ¬['*', '/'] <:+: u ++ ['*'] := by
  fun_induction closing? cs generalizing n with
  | case1 => cases h
  | case2 rest =>
    cases h
    exact ⟨[], rest, rfl, rfl, by decide⟩
  | case3 c cs hnot ih =>
    obtain ⟨m, hm, rfl⟩ := Option.map_eq_some_iff.mp h
    obtain ⟨u, rest, rfl, rfl, hu⟩ := ih hm
    refine ⟨c :: u, rest, rfl, rfl, fun hinfix => ?_⟩
    rcases List.infix_cons_iff.mp hinfix with hfirst | hlater
    · -- the end would be right here
      obtain ⟨more, hmore⟩ := hfirst
      obtain ⟨rfl, htail⟩ := List.cons.inj hmore
      rcases u with - | ⟨d, u⟩
      · cases htail
      · exact hnot (u ++ '*' :: '/' :: rest) rfl (by rw [List.cons_append, (List.cons.inj htail).1])
    · exact hu hlater

/-- A comment is open if its end does not occur. -/
theorem closing?_eq_none (h : closing? cs = none) : ¬['*', '/'] <:+: cs := by
  fun_induction closing? cs with
  | case1 => simp
  | case2 => cases h
  | case3 c cs hnot ih =>
    intro hinfix
    rcases List.infix_cons_iff.mp hinfix with ⟨more, hmore⟩ | hlater
    · obtain ⟨rfl, htail⟩ := List.cons.inj hmore
      exact hnot more rfl htail.symm
    · exact ih (Option.map_eq_none_iff.mp h) hlater

/-- A fraction is a point with digits behind it. -/
theorem fraction_eq_length (h : fraction (t ++ cs) = t.length) :
    t = [] ∨ ∃ u, t = '.' :: u ∧ u ≠ [] ∧ ∀ c ∈ u, isDigit c := by
  rcases t with - | ⟨c, - | ⟨d, t⟩⟩
  · exact .inl rfl
  · -- a point and a digit are two characters
    exfalso
    rw [List.singleton_append] at h
    unfold fraction at h
    split at h
    · split at h <;> simp at h
      omega
    · cases h
  · by_cases hc : c = '.'
    · subst hc
      by_cases hd : isDigit d
      · simp only [List.cons_append, fraction, hd, if_true, List.length_cons] at h
        have hrun : run isDigit (t ++ cs) = t.length := by omega
        exact .inr ⟨d :: t, rfl, List.cons_ne_nil _ _,
          List.forall_mem_cons.mpr ⟨hd, (run_eq_length.mp hrun).1⟩⟩
      · simp [fraction, hd] at h
    · simp [fraction, hc] at h

/-- A number is digits, perhaps with a point and digits behind them. -/
theorem spells_number (hc : isDigit c)
    (h : run isDigit (t ++ cs) + fraction ((t ++ cs).drop (run isDigit (t ++ cs))) = t.length) :
    Role.Spells (.token .number) (c :: t) := by
  obtain ⟨u, v, rfl, hu⟩ : ∃ u v, t = u ++ v ∧ u.length = run isDigit (t ++ cs) :=
    ⟨_, _, (List.take_append_drop (run isDigit (t ++ cs)) t).symm,
      List.length_take_of_le (by omega)⟩
  rw [← hu, List.append_assoc, List.drop_left, List.length_append] at h
  rw [List.append_assoc] at hu
  have hwhole : ∀ d ∈ c :: u, isDigit d :=
    List.forall_mem_cons.mpr ⟨hc, (run_eq_length.mp hu.symm).1⟩
  rcases fraction_eq_length (Nat.add_left_cancel h) with rfl | ⟨w, rfl, hw, hdigits⟩
  · rw [List.append_nil]
    exact .whole (List.cons_ne_nil _ _) hwhole
  · exact .decimal (List.cons_ne_nil _ _) hw hwhole hdigits

/-- **A piece is spelled as its role demands.** -/
theorem Form.spells (h : Form c (t ++ cs) role t.length) : role.Spells (c :: t) := by
  generalize hlength : t.length = n at h
  cases h with
  | comment hc hopen hclose =>
    subst hc
    rcases t with - | ⟨d, t⟩
    · rw [List.length_nil] at hlength
      omega
    · obtain rfl : d = '*' := Option.some.inj hopen
      rw [List.cons_append, List.tail_cons] at hclose
      obtain ⟨u, rest, heq, rfl, hu⟩ := closing?_eq_some hclose
      obtain ⟨rfl, -⟩ : t = u ++ ['*', '/'] ∧ cs = rest := by
        refine List.append_inj (by simpa using heq) ?_
        simp only [List.length_cons, List.length_append, List.length_nil] at hlength ⊢
        omega
      exact .blockComment hu
  | openComment hc hopen hclose =>
    subst hc
    obtain rfl : cs = [] := by simpa using hlength
    rw [List.append_nil] at hopen hclose
    rcases t with - | ⟨d, t⟩
    · cases hopen
    · obtain rfl : d = '*' := Option.some.inj hopen
      exact .openComment (closing?_eq_none hclose)
  | line hc hopen =>
    subst hc
    obtain ⟨ht, hcs⟩ := run_eq_length.mp hlength.symm
    rcases t with - | ⟨d, t⟩
    · rw [List.nil_append] at hopen
      rw [hopen] at hcs
      cases hcs
    · obtain rfl : d = '/' := Option.some.inj hopen
      exact .lineComment fun hfeed => absurd (ht _ (List.mem_cons_of_mem _ hfeed)) (by decide)
  | number hc => exact spells_number hc hlength.symm
  | string hc hinner =>
    subst hc
    obtain ⟨u, d, rest, heq, hu, hinside, hd⟩ := run_lt hinner
    obtain rfl : d = '"' := by simpa using hd
    obtain ⟨rfl, -⟩ : t = u ++ ['"'] ∧ cs = rest :=
      List.append_inj (by simpa using heq) (by simp [hu, hlength])
    exact .string fun hquote => absurd (hinside _ hquote) (by decide)
  | openString hc hinner =>
    subst hc
    obtain rfl : cs = [] := by simpa using hlength
    have hrun : run (· != '"') (t ++ []) = t.length := by
      have hle := run_le (· != '"') (t ++ [])
      omega
    exact .openString fun hquote => absurd ((run_eq_length.mp hrun).1 _ hquote) (by decide)
  | word hc =>
    rw [← hlength, List.take_left]
    exact .word hc (run_eq_length.mp hlength.symm).1
  | feed hc =>
    obtain rfl := List.length_eq_zero_iff.mp hlength
    exact hc ▸ .feed
  | space hc =>
    refine .space (List.cons_ne_nil _ _) (List.forall_mem_cons.mpr ⟨isSpace_iff.mp hc, ?_⟩)
    exact fun d hd => isSpace_iff.mp ((run_eq_length.mp hlength.symm).1 d hd)
  | double hkind hequal =>
    obtain ⟨d, rfl⟩ := List.length_eq_one_iff.mp hlength
    obtain rfl : d = '=' := Option.some.inj hequal
    exact .double hkind
  | single hkind =>
    obtain rfl := List.length_eq_zero_iff.mp hlength
    exact .single hkind
  | unexpected =>
    obtain rfl := List.length_eq_zero_iff.mp hlength
    exact .unexpected ‹_› ‹_› ‹_› ‹_› ‹_› ‹_›

/-! ## The account -/

/-- The pieces make up the text. -/
theorem flatMap_text_cutOnto (line : Nat) (cs : List Char) :
    (cutOnto [] line 0 cs).flatMap (·.text) = cs := by
  induction cs using pieces_induction generalizing line with
  | nil => rfl
  | piece c t cs role hform ih =>
    rw [cutOnto_form hform, List.flatMap_cons, ih]
    rfl

theorem feeds_append (t u : List Char) : feeds (t ++ u) = feeds t + feeds u := List.count_append

/-- **Each piece lies on the line that the text up to its end gives.** -/
theorem line_of_cutOnto {line : Nat} {before after : List Piece} {p : Piece}
    (h : cutOnto [] line 0 cs = before ++ p :: after) :
    p.line = line + feeds (before.flatMap (·.text) ++ p.text) := by
  induction cs using pieces_induction generalizing line before with
  | nil => exact absurd h.symm (List.append_ne_nil_of_right_ne_nil _ (List.cons_ne_nil _ _))
  | piece c t cs role hform ih =>
    rw [cutOnto_form hform] at h
    rcases before with - | ⟨q, before⟩
    · obtain ⟨rfl, -⟩ := List.cons.inj h
      rfl
    · obtain ⟨rfl, hrest⟩ := List.cons.inj h
      rw [ih hrest, List.flatMap_cons, List.append_assoc, feeds_append (c :: t), Nat.add_assoc]

end Scan

/-- The pieces that scanning cuts a text into account for it. -/
theorem Piece.account_split (cs : List Char) : Piece.Account cs (Piece.split cs) where
  text := Scan.flatMap_text_cutOnto 1 cs
  spells p hp := by
    obtain ⟨c, t, rest, hform, htext⟩ := Scan.form_of_mem_cutOnto hp
    rw [htext]
    exact ⟨List.cons_ne_nil _ _, hform.spells⟩
  line _ _ _ := Scan.line_of_cutOnto

/-- **Scanning accounts for every character and every line.**  A text is made up of pieces, none
empty, each spelled as its role demands and each on the line on which the text up to its end lies.
The tokens are those of the pieces, and the end of the input behind the last of them only.  Each
piece that fits nowhere gives one diagnostic, and there are no others. -/
theorem scan_accounts (source : String) : ∃ pieces, Piece.Account source.toList pieces ∧
    (scan source).tokens =
      pieces.filterMap Piece.token? ++ [.endAt (1 + Scan.feeds source.toList)] ∧
    (∀ t ∈ pieces.filterMap Piece.token?, t.kind ≠ .endOfInput) ∧
    (scan source).diagnostics = pieces.filterMap Piece.diagnostic? :=
  ⟨Piece.split source.toList, Piece.account_split _, rfl,
    fun _ ht => ne_of_beq_false (isEnd_of_mem_split ht), rfl⟩

end LoxKit
