import LoxKit.Proofs.Grammar.Joined
import LoxKit.Proofs.Grammar.Respelled

/-!
# Names spelled anew in a text

A name in a text may be spelled anew: the pieces of the text stay what they are
(`Scan.cutOnto_respelled`), since those in front see only that there is a letter
(`Scan.Form.ahead`).
-/
namespace LoxKit

open Scan

/-! ## Identifiers -/

/-- An identifier begins with a letter. -/
theorem IsIdentifier.exists_letter {name : String} (h : IsIdentifier name) :
    ∃ c t, name.toList = c :: t ∧ isLetter c ∧ ∀ d ∈ t, isWordChar d := by
  obtain ⟨hfirst, hall, -⟩ := h
  cases htext : name.toList with
  | nil =>
    rw [htext] at hfirst
    cases hfirst
  | cons c t =>
    rw [htext] at hfirst hall
    exact ⟨c, t, rfl, hfirst, (List.all_eq_true.mp hall · <| List.mem_cons_of_mem _ ·)⟩

/-- An identifier stands on one line. -/
theorem IsIdentifier.feeds {name : String} (h : IsIdentifier name) : feeds name.toList = 0 :=
  List.count_eq_zero.mpr fun hfeed =>
    absurd (List.all_eq_true.mp h.2.1 _ hfeed) (by decide)

/-- Only identifiers are spelled anew, and they become identifiers. -/
theorem Renaming.spell_cases (R : Renaming) (mark : Bool) (name : String) :
    R.spell mark name = name ∨ IsIdentifier name ∧ IsIdentifier (R.spell mark name) := by
  cases mark with
  | false => exact .inl rfl
  | true =>
    by_cases hold : name = R.old
    · rw [hold, R.spell_old]
      exact .inr ⟨R.old_isIdentifier, R.new_isIdentifier⟩
    · by_cases hnew : name = R.new
      · rw [hnew, ← R.spell_old, R.spell_spell, R.spell_old]
        exact .inr ⟨R.new_isIdentifier, R.old_isIdentifier⟩
      · exact .inl (R.spell_of_ne true hold hnew)

/-! ## Texts -/

/-- **A piece is perhaps spelled anew.** -/
def Piece.Respelled (R : Renaming) (p p' : Piece) : Prop :=
  ∃ mark, p' = { p with text := (R.spell mark (.ofList p.text)).toList }

theorem Piece.Respelled.refl (R : Renaming) (p : Piece) : p.Respelled R p :=
  ⟨false, by rw [R.spell_false, String.toList_ofList]⟩

/-- A piece that is spelled anew is an identifier. -/
theorem Piece.Respelled.cases {R : Renaming} {p p' : Piece} (h : p.Respelled R p') :
    p' = p ∨ IsIdentifier (.ofList p.text) ∧
      ∃ name, IsIdentifier name ∧ p' = { p with text := name.toList } := by
  obtain ⟨mark, rfl⟩ := h
  rcases R.spell_cases mark (.ofList p.text) with hsame | ⟨hold, hnew⟩
  · rw [hsame, String.toList_ofList]
    exact .inl rfl
  · exact .inr ⟨hold, _, hnew, rfl⟩

/-- **An identifier may stand where another stood.** -/
theorem Scan.Form.word_ahead {c : Char} {t cs cs' : List Char} {role : Role} {name : String}
    (h : Form c (t ++ cs) role t.length) (hold : IsIdentifier (.ofList (c :: t)))
    (hnew : IsIdentifier name) (hcs : Ahead cs cs') :
    ∃ d u, name.toList = d :: u ∧ Form d (u ++ cs') role u.length ∧
      Ahead (c :: (t ++ cs)) (d :: (u ++ cs')) := by
  obtain ⟨c', t', htext, hc, -⟩ := hold.exists_letter
  obtain ⟨rfl, rfl⟩ := List.cons.inj (String.toList_ofList.symm.trans htext)
  obtain ⟨d, u, hname, hd, hu⟩ := hnew.exists_letter
  obtain ⟨hrun, rfl⟩ := (form_letter_iff hc).mp h
  have hbehind := (run_eq_length.mp (run_ahead sighted_isWordChar hcs hrun)).2
  refine ⟨d, u, hname, (form_letter_iff hd).mpr ⟨run_eq_length.mpr ⟨hu, hbehind⟩, ?_⟩, ?_, ?_⟩
  · rw [← hname, String.ofList_toList, hnew.2.2, hold.2.2]
  · simp [seen, hc, hd]
  · exact fun hpoint => absurd (Option.some.inj hpoint) (ne_of_test hc rfl)

/-- **The pieces of a text with names spelled anew** are those of the text, with these names
spelled anew. -/
theorem Scan.cutOnto_respelled {R : Renaming} {cs : List Char} {line : Nat} {ps : List Piece}
    (hclean : ∀ p ∈ cutOnto [] line 0 cs, p.diagnostic? = none)
    (hps : List.Forall₂ (Piece.Respelled R) (cutOnto [] line 0 cs) ps) :
    Ahead cs (ps.flatMap (·.text)) ∧ cutOnto [] line 0 (ps.flatMap (·.text)) = ps := by
  induction cs using pieces_induction generalizing line ps with
  | nil =>
    cases hps
    exact ⟨.refl [], rfl⟩
  | piece c t cs role hform ih =>
    rw [cutOnto_form hform] at hclean hps
    rw [List.forall_mem_cons] at hclean
    have hrole : ∀ cause, role ≠ .fault cause := by
      rintro cause rfl
      cases hclean.1
    cases hps with
    | @cons _ p' _ ps hp hps =>
      obtain ⟨hahead, hcut⟩ := ih hclean.2 hps
      rw [List.flatMap_cons]
      rcases hp.cases with rfl | ⟨hold, name, hnew, rfl⟩
      · refine ⟨hahead.append (c :: t), ?_⟩
        rw [List.cons_append, cutOnto_form (hform.ahead hrole hahead), hcut]
      · obtain ⟨d, u, hname, hform', hahead'⟩ := hform.word_ahead hold hnew hahead
        have hfeeds : feeds (d :: u) = feeds (c :: t) := by
          rw [← hname, hnew.feeds, ← String.toList_ofList (l := c :: t), hold.feeds]
        dsimp only
        rw [hname]
        refine ⟨hahead', ?_⟩
        rw [List.cons_append, cutOnto_form hform', hfeeds, hcut]

/-- Tokens with names spelled anew are those of pieces with names spelled anew. -/
theorem Piece.exists_respelled {R : Renaming} {ps : List Piece} {ts : List Token}
    (hts : Grammar.Respelled R (ps.filterMap (·.token?)) ts) :
    ∃ ps', List.Forall₂ (Piece.Respelled R) ps ps' ∧ ps'.filterMap (·.token?) = ts := by
  induction ps generalizing ts with
  | nil =>
    cases hts
    exact ⟨[], .nil, rfl⟩
  | cons p ps ih =>
    cases hp : p.token? with
    | none =>
      rw [List.filterMap_cons_none hp] at hts
      obtain ⟨ps', hps, rfl⟩ := ih hts
      exact ⟨p :: ps', .cons (.refl R p) hps, List.filterMap_cons_none hp⟩
    | some t =>
      rw [List.filterMap_cons_some hp] at hts
      cases hts with
      | cons ht hts =>
        obtain ⟨mark, rfl⟩ := ht
        obtain ⟨ps', hps, rfl⟩ := ih hts
        refine ⟨_, .cons ⟨mark, rfl⟩ hps, List.filterMap_cons_some ?_⟩
        unfold token? at hp ⊢
        dsimp only
        split at hp
        · cases hp
          rw [String.ofList_toList]
          rfl
        · cases hp

/-- The same is wrong with pieces with names spelled anew. -/
theorem Piece.diagnostics_respelled {R : Renaming} {ps ps' : List Piece}
    (h : List.Forall₂ (Piece.Respelled R) ps ps') :
    ps'.filterMap (·.diagnostic?) = ps.filterMap (·.diagnostic?) := by
  induction h with
  | nil => rfl
  | cons hp _ ih =>
    obtain ⟨mark, rfl⟩ := hp
    rw [List.filterMap_cons, List.filterMap_cons, ih]
    rfl

/-- **The names of a text may be spelled anew in place.** -/
theorem scan_respelled {R : Renaming} {source : String} {ts : List Token}
    (hclean : (scan source).diagnostics = []) (hts : Grammar.Respelled R (inner source) ts) :
    ∃ source', List.Forall₂ (Piece.Respelled R) (Piece.split source.toList)
        (Piece.split source'.toList) ∧
      inner source' = ts ∧ (scan source').diagnostics = [] := by
  obtain ⟨ps, hps, rfl⟩ := Piece.exists_respelled hts
  have hsplit : Piece.split (String.ofList (ps.flatMap (·.text))).toList = ps := by
    rw [String.toList_ofList]
    exact (Scan.cutOnto_respelled (List.filterMap_eq_nil_iff.mp hclean) hps).2
  refine ⟨.ofList (ps.flatMap (·.text)), by rwa [hsplit], ?_, ?_⟩
  · unfold inner
    rw [hsplit]
  · show (Piece.split _).filterMap (·.diagnostic?) = []
    rw [hsplit, Piece.diagnostics_respelled hps]
    exact hclean

end LoxKit
