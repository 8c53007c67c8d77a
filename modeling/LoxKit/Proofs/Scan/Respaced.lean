import LoxKit.Literal
import LoxKit.Proofs.Scan.Account

/-!
# Lexemes with blanks between them

How a token is spelled decides how it is scanned, if a blank or nothing at all stands behind it
(`Role.Spells.form`): a piece cannot go on over a blank, and no shorter piece of another sort
begins as it does.  So the lexemes of a text need only be kept apart, by one blank of any sort, to
be scanned as the tokens they were (`scan_respaced`).
-/
namespace LoxKit

/-- **A token that is spelled as its kind demands.** -/
def Token.Spelled (t : Token) : Prop := Role.Spells (.token t.kind) t.lexeme.toList

/-- What a token is, wherever it stands. -/
def Token.content (t : Token) : TokenKind × String × Option Literal :=
  (t.kind, t.lexeme, Literal.ofToken? t)

/-- **A blank between two lexemes.** -/
inductive Separator where
  | space | tab | carriageReturn | lineFeed
  deriving DecidableEq

/-- The character of a blank. -/
def Separator.char : Separator → Char
  | space => ' '
  | tab => '\t'
  | carriageReturn => '\r'
  | lineFeed => '\n'

/-- The lexemes of the tokens of a scan, but for the closing one. -/
def Scan.lexemes (s : Scan) : List String := (s.tokens.filter (!·.isEnd)).map (·.lexeme)

namespace Scan

variable {c : Char} {t u cs : List Char} {p : Char → Bool} {kind : TokenKind}

/-- **Nothing stands ahead, or a blank does.** -/
def Clear (cs : List Char) : Prop := ∀ c ∈ cs.head?, isSpace c ∨ c = '\n'

theorem clear_separator (s : Separator) (cs : List Char) : Clear (s.char :: cs) := by
  rintro c ⟨⟩
  cases s <;> decide

/-- A test that blanks fail. -/
structure Blankless (p : Char → Bool) : Prop where
  space : p ' ' = false
  tab : p '\t' = false
  carriageReturn : p '\r' = false
  feed : p '\n' = false

theorem blankless_isDigit : Blankless isDigit := ⟨rfl, rfl, rfl, rfl⟩

theorem blankless_isWordChar : Blankless isWordChar := ⟨rfl, rfl, rfl, rfl⟩

theorem Blankless.any_head? (hp : Blankless p) (h : Clear cs) : cs.head?.any p = false := by
  cases hhead : cs.head? with
  | none => rfl
  | some c =>
    rcases h c hhead with hspace | rfl
    · rcases isSpace_iff.mp hspace with rfl | rfl | rfl
      · exact hp.space
      · exact hp.tab
      · exact hp.carriageReturn
    · exact hp.feed

/-- A run ends at a blank. -/
theorem Blankless.run_append (hp : Blankless p) (ht : ∀ c ∈ t, p c) (h : Clear cs) :
    run p (t ++ cs) = t.length :=
  run_eq_length.mpr ⟨ht, hp.any_head? h⟩

/-- A blank is no other character. -/
theorem Clear.head?_ne (h : Clear cs) {d : Char} (hd : Blankless (· == d)) :
    cs.head? ≠ some d := by
  intro hhead
  have hany := hd.any_head? h
  rw [hhead] at hany
  simp at hany

/-- No fraction begins with a blank. -/
theorem Clear.fraction_eq_zero (h : Clear cs) : fraction cs = 0 :=
  Scan.fraction_eq_zero.mpr fun hpoint => absurd hpoint (h.head?_ne ⟨rfl, rfl, rfl, rfl⟩)

/-- A whole number in front of a blank. -/
theorem form_whole (hdigits : ∀ d ∈ c :: t, isDigit d) (h : Clear cs) :
    Form c (t ++ cs) (.token .number) t.length := by
  rw [List.forall_mem_cons] at hdigits
  have hrun : run isDigit (t ++ cs) = t.length := blankless_isDigit.run_append hdigits.2 h
  have hform := @Form.number c (t ++ cs) hdigits.1
  rwa [hrun, List.drop_left, h.fraction_eq_zero, Nat.add_zero] at hform

/-- A number with a fraction in front of a blank. -/
theorem form_decimal (hwhole : ∀ d ∈ c :: t, isDigit d) (hu : u ≠ [])
    (hdigits : ∀ d ∈ u, isDigit d) (h : Clear cs) :
    Form c (t ++ '.' :: u ++ cs) (.token .number) (t ++ '.' :: u).length := by
  obtain ⟨d, u, rfl⟩ := List.exists_cons_of_ne_nil hu
  rw [List.forall_mem_cons] at hwhole hdigits
  have hrun : run isDigit (t ++ '.' :: d :: u ++ cs) = t.length := by
    rw [List.append_assoc]
    exact run_eq_length.mpr ⟨hwhole.2, rfl⟩
  have hfraction : fraction ('.' :: d :: u ++ cs) = u.length + 2 := by
    rw [List.cons_append, List.cons_append, fraction, if_pos hdigits.1,
      blankless_isDigit.run_append hdigits.2 h, Nat.add_comm]
  have hform := @Form.number c (t ++ '.' :: d :: u ++ cs) hwhole.1
  rw [hrun, List.append_assoc, List.drop_left, hfraction] at hform
  rw [List.append_assoc, List.length_append]
  exact hform

/-- A string, whatever stands behind it. -/
theorem form_string (ht : '"' ∉ t) :
    Form '"' (t ++ ['"'] ++ cs) (.token .string) (t ++ ['"']).length := by
  have hrun : run (· != '"') (t ++ ['"'] ++ cs) = t.length := by
    rw [List.append_assoc]
    exact run_eq_length.mpr ⟨fun c hc => bne_iff_ne.mpr fun h => ht (h ▸ hc), rfl⟩
  have hform := @Form.string '"' (t ++ ['"'] ++ cs) rfl (by rw [hrun]; simp)
  rw [hrun] at hform
  rw [List.length_append]
  exact hform

/-- A word in front of a blank. -/
theorem form_word (hc : isLetter c) (ht : ∀ d ∈ t, isWordChar d) (h : Clear cs) :
    Form c (t ++ cs) (.token (.ofWord (.ofList (c :: t)))) t.length := by
  have hrun : run isWordChar (t ++ cs) = t.length := blankless_isWordChar.run_append ht h
  have hform := @Form.word c (t ++ cs) hc
  rwa [hrun, List.take_left] at hform

/-- A mark of one character in front of a blank. -/
theorem form_single (hkind : single? c = some kind) (h : Clear cs) :
    Form c cs (.token kind) 0 :=
  .single hkind
    (fun _ => ⟨h.head?_ne ⟨rfl, rfl, rfl, rfl⟩, h.head?_ne ⟨rfl, rfl, rfl, rfl⟩⟩)
    (.inr (h.head?_ne ⟨rfl, rfl, rfl, rfl⟩))

end Scan

/-- **A token is scanned as it is spelled**, in front of a blank and at the end of a text. -/
theorem Role.Spells.form {kind : TokenKind} {c : Char} {t cs : List Char}
    (h : Role.Spells (.token kind) (c :: t)) (hcs : Scan.Clear cs) :
    Scan.Form c (t ++ cs) (.token kind) t.length := by
  generalize hrole : Role.token kind = role at h
  generalize htext : c :: t = text at h
  cases h with
  | whole _ hdigits =>
    cases hrole
    subst htext
    exact Scan.form_whole hdigits hcs
  | @decimal whole u hwhole hu hdigits hfraction =>
    cases hrole
    obtain ⟨d, whole, rfl⟩ := List.exists_cons_of_ne_nil hwhole
    obtain ⟨rfl, rfl⟩ := List.cons.inj htext
    exact Scan.form_decimal hdigits hu hfraction hcs
  | string hquote =>
    cases hrole
    obtain ⟨rfl, rfl⟩ := List.cons.inj htext
    exact Scan.form_string hquote
  | word hc ht =>
    cases hrole
    obtain ⟨rfl, rfl⟩ := List.cons.inj htext
    exact Scan.form_word hc ht hcs
  | double hkind =>
    cases hrole
    obtain ⟨rfl, rfl⟩ := List.cons.inj htext
    exact .double hkind rfl
  | single hkind =>
    cases hrole
    obtain ⟨rfl, rfl⟩ := List.cons.inj htext
    exact Scan.form_single hkind hcs
  | _ => cases hrole

/-- A token is not empty. -/
theorem Role.Spells.ne_nil {kind : TokenKind} {text : List Char}
    (h : Role.Spells (.token kind) text) : text ≠ [] := by
  generalize hrole : Role.token kind = role at h
  cases h with
  | whole ht => exact ht
  | decimal ht => exact List.append_ne_nil_of_left_ne_nil ht _
  | string | word | double | single => exact List.cons_ne_nil _ _
  | _ => cases hrole

/-- **The form of a token that is spelled as it should be.** -/
theorem Token.Spelled.exists_form {t : Token} (h : t.Spelled) :
    ∃ c u, t.lexeme.toList = c :: u ∧
      ∀ cs, Scan.Clear cs → Scan.Form c (u ++ cs) (.token t.kind) u.length := by
  obtain ⟨c, u, htext⟩ := List.exists_cons_of_ne_nil (Role.Spells.ne_nil h)
  unfold Spelled at h
  rw [htext] at h
  exact ⟨c, u, htext, fun cs hcs => h.form hcs⟩

/-- **The tokens of a text are spelled as they should be.** -/
theorem spelled_of_mem_split {cs : List Char} {t : Token}
    (h : t ∈ (Piece.split cs).filterMap (·.token?)) : t.Spelled := by
  obtain ⟨c, u, rest, hform, htext⟩ := Scan.form_of_mem_split h
  unfold Token.Spelled
  rw [htext, String.toList_ofList]
  exact hform.spells

/-! ## Lexemes behind blanks -/

namespace Scan

/-- The lexemes, each with a blank in front. -/
def behindBlanks : (Nat → Separator) → List String → List Char
  | _, [] => []
  | between, w :: ws =>
    (between 0).char :: (w.toList ++ behindBlanks (fun n => between (n + 1)) ws)

/-- **The lexemes with a blank between any two**, the n-th behind the n-th lexeme. -/
def respaced (between : Nat → Separator) : List String → List Char
  | [] => []
  | w :: ws => w.toList ++ behindBlanks between ws

theorem clear_behindBlanks (between : Nat → Separator) (ws : List String) :
    Clear (behindBlanks between ws) := by
  cases ws with
  | nil => exact nofun
  | cons w ws => exact clear_separator _ _

/-- **A blank of any sort in front** is not seen by what looks at other pieces only. -/
theorem filterMap_cutOnto_separator {α : Type} {f : Piece → Option α}
    (hf : ∀ text line, f ⟨.blank, text, line⟩ = none) (line : Nat) (s : Separator)
    (cs : List Char) : ∃ line', (cutOnto [] line 0 (s.char :: cs)).filterMap f =
      (cutOnto [] line' 0 cs).filterMap f := by
  cases s with
  | space | tab | carriageReturn => exact ⟨line, filterMap_cutOnto_space hf line rfl cs⟩
  | lineFeed =>
    refine ⟨line + 1, ?_⟩
    rw [show Separator.lineFeed.char = '\n' from rfl, cutOnto_feed,
      List.filterMap_cons_none (hf _ _)]

variable {t : Token} {cs : List Char}

/-- The first piece of a text that begins with a token. -/
theorem cutOnto_spelled (ht : t.Spelled) (hcs : Clear cs) (line : Nat) :
    cutOnto [] line 0 (t.lexeme.toList ++ cs) =
      ⟨.token t.kind, t.lexeme.toList, line + feeds t.lexeme.toList⟩ ::
        cutOnto [] (line + feeds t.lexeme.toList) 0 cs := by
  obtain ⟨c, u, htext, hform⟩ := ht.exists_form
  rw [htext]
  exact cutOnto_form (hform cs hcs) line

/-- What the tokens are of a text that begins with one. -/
theorem contents_spelled (ht : t.Spelled) (hcs : Clear cs) (line : Nat) :
    ((cutOnto [] line 0 (t.lexeme.toList ++ cs)).filterMap (·.token?)).map Token.content =
      t.content :: ((cutOnto [] (line + feeds t.lexeme.toList) 0 cs).filterMap
        (·.token?)).map Token.content := by
  have htoken (n : Nat) : Piece.token? ⟨.token t.kind, t.lexeme.toList, n⟩ =
      some { t with line := n } := by
    rw [Piece.token?, String.ofList_toList]
  rw [cutOnto_spelled ht hcs, List.filterMap_cons_some (htoken _)]
  rfl

variable {ts : List Token}

/-- **Tokens behind blanks are the tokens they are.** -/
theorem contents_behindBlanks (hts : ∀ t ∈ ts, t.Spelled) (between : Nat → Separator)
    (line : Nat) :
    ((cutOnto [] line 0 (behindBlanks between (ts.map (·.lexeme)))).filterMap (·.token?)).map
      Token.content = ts.map Token.content := by
  induction ts generalizing between line with
  | nil => rfl
  | cons t ts ih =>
    rw [List.forall_mem_cons] at hts
    obtain ⟨line', hblank⟩ := filterMap_cutOnto_separator (f := Piece.token?) (fun _ _ => rfl) line
      (between 0) (t.lexeme.toList ++
        behindBlanks (fun n => between (n + 1)) (ts.map (·.lexeme)))
    rw [List.map_cons, behindBlanks, hblank, contents_spelled hts.1 (clear_behindBlanks _ _),
      ih hts.2, List.map_cons]

/-- Nothing is wrong with tokens behind blanks. -/
theorem diagnostics_behindBlanks (hts : ∀ t ∈ ts, t.Spelled) (between : Nat → Separator)
    (line : Nat) :
    (cutOnto [] line 0 (behindBlanks between (ts.map (·.lexeme)))).filterMap (·.diagnostic?) =
      [] := by
  induction ts generalizing between line with
  | nil => rfl
  | cons t ts ih =>
    rw [List.forall_mem_cons] at hts
    obtain ⟨line', hblank⟩ := filterMap_cutOnto_separator (f := Piece.diagnostic?)
      (fun _ _ => rfl) line (between 0) (t.lexeme.toList ++
        behindBlanks (fun n => between (n + 1)) (ts.map (·.lexeme)))
    rw [List.map_cons, behindBlanks, hblank, cutOnto_spelled hts.1 (clear_behindBlanks _ _)]
    exact ih hts.2 _ _

/-- **Lexemes with blanks between them are scanned as the tokens they were.** -/
theorem scan_respaced_spelled (hts : ∀ t ∈ ts, t.Spelled) (between : Nat → Separator) :
    (scan (.ofList (respaced between (ts.map (·.lexeme))))).diagnostics = [] ∧
      (scan (.ofList (respaced between (ts.map (·.lexeme))))).tokens.map Token.content =
        ts.map Token.content ++ [(Token.endAt 0).content] := by
  unfold scan Piece.split
  rw [String.toList_ofList, List.map_append]
  cases ts with
  | nil => exact ⟨rfl, rfl⟩
  | cons t ts =>
    rw [List.forall_mem_cons] at hts
    have hclear := clear_behindBlanks between (ts.map (·.lexeme))
    rw [List.map_cons, respaced]
    constructor
    · rw [cutOnto_spelled hts.1 hclear]
      exact diagnostics_behindBlanks hts.2 _ _
    · rw [contents_spelled hts.1 hclear, contents_behindBlanks hts.2]
      rfl

end Scan

/-- **Scanning the lexemes of a text gives its tokens back.**  Whatever blanks are put between the
lexemes of a text, one between any two, nothing is found wrong with what they make up, and its
tokens are of the same kinds, with the same lexemes and the same values.  It does not matter what
stood between the lexemes, nor whether something was wrong with the text there. -/
theorem scan_respaced (source : String) (between : Nat → Separator) :
    let again := scan (.ofList (Scan.respaced between (scan source).lexemes))
    again.diagnostics = [] ∧
      again.tokens.map (fun t => (t.kind, t.lexeme, Literal.ofToken? t)) =
        (scan source).tokens.map fun t => (t.kind, t.lexeme, Literal.ofToken? t) := by
  intro again
  have hlexemes : (scan source).lexemes =
      ((Piece.split source.toList).filterMap (·.token?)).map (·.lexeme) := by
    unfold Scan.lexemes scan
    rw [List.filter_append, List.filter_eq_self.mpr fun t ht => by rw [isEnd_of_mem_split ht]; rfl]
    exact congrArg _ (List.append_nil _)
  have hspelled : ∀ t ∈ (Piece.split source.toList).filterMap (·.token?), t.Spelled :=
    fun _ ht => spelled_of_mem_split ht
  obtain ⟨hclean, htokens⟩ := Scan.scan_respaced_spelled hspelled between
  rw [← hlexemes] at hclean htokens
  refine ⟨hclean, htokens.trans ?_⟩
  unfold scan
  rw [List.map_append]
  rfl

/-- Two slashes with a comment between them would be a comment of their own if no blank stood
between them. -/
example : (scan (.ofList (Scan.respaced (fun _ => .tab) (scan "a/ // b\n/1.").lexemes))).tokens.map
    (·.lexeme) = ["a", "/", "/", "1", ".", ""] := by decide +kernel

end LoxKit
