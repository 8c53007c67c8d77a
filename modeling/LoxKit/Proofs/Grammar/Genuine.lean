import LoxKit.Proofs.Scan.Pieces
import LoxKit.Proofs.Tree.Shape

/-!
# Scanned tokens

The kind of a word is decided by its text: `this` and `super` are words of the language, and
a word that is none of the language's is a name.  So in a token list that was scanned, the
kind of a token tells what it can name (`Token.Genuine`, `genuine_of_mem_scan`).
-/
namespace LoxKit

/-- **A token whose kind fits its text**, as far as names are concerned. -/
structure Token.Genuine (t : Token) : Prop where
  name : t.kind = .identifier → t.IsName
  this : t.kind = .thisWord → t.lexeme = thisName
  super : t.kind = .superWord → t.lexeme = superName

theorem Token.genuine_endAt (line : Int) : (Token.endAt line).Genuine :=
  ⟨nofun, nofun, nofun⟩

/-- The kinds of the words that can name something. -/
def TokenKind.isNaming : TokenKind → Bool
  | .identifier | .thisWord | .superWord => true
  | _ => false

theorem Token.genuine_of_not_isNaming {t : Token} (h : t.kind.isNaming = false) : t.Genuine := by
  refine ⟨fun hk => ?_, fun hk => ?_, fun hk => ?_⟩ <;> rw [hk] at h <;> cases h

/-- A word of the language is known by its text. -/
theorem TokenKind.mem_reserved_of_ofWord {w : String} {k : TokenKind} (h : ofWord w = k)
    (hk : k ≠ .identifier) : (w, k) ∈ reserved := by
  unfold ofWord at h
  cases hw : reserved.lookup w with
  | none =>
    rw [hw] at h
    exact absurd h.symm hk
  | some k' =>
    rw [hw] at h
    cases h
    obtain ⟨l₁, l₂, hl, -⟩ := List.lookup_eq_some_iff.mp hw
    rw [hl]
    simp

theorem Token.genuine_ofWord (w : String) (line : Int) : Token.Genuine ⟨.ofWord w, w, line⟩ where
  name h := by
    constructor
    · rintro rfl
      exact absurd (show TokenKind.ofWord thisName = .identifier from h) (by decide)
    · rintro rfl
      exact absurd (show TokenKind.ofWord superName = .identifier from h) (by decide)
  this h := by
    have hw := TokenKind.mem_reserved_of_ofWord h nofun
    simpa [TokenKind.reserved, thisName] using hw
  super h := by
    have hw := TokenKind.mem_reserved_of_ofWord h nofun
    simpa [TokenKind.reserved, superName] using hw

namespace Scan

theorem isNaming_of_single? {c : Char} {kind : TokenKind} (h : single? c = some kind) :
    kind.isNaming = false := by
  unfold single? at h
  split at h <;> cases h <;> rfl

theorem isNaming_of_withEqual? {c : Char} {kind : TokenKind} (h : withEqual? c = some kind) :
    kind.isNaming = false := by
  unfold withEqual? at h
  split at h <;> cases h <;> rfl

/-- The token that begins with a character fits its text. -/
theorem Form.genuine {c : Char} {u cs : List Char} {t : Token}
    (h : Form c (u ++ cs) (.token t.kind) u.length) (ht : t.lexeme = .ofList (c :: u)) :
    t.Genuine := by
  rcases h.token_cases with hkind | hkind | hkind | hkind | hkind
  · exact Token.genuine_of_not_isNaming (by rw [hkind]; rfl)
  · exact Token.genuine_of_not_isNaming (by rw [hkind]; rfl)
  · obtain ⟨kind, lexeme, line⟩ := t
    dsimp only at hkind ht
    rw [hkind, ← ht]
    exact Token.genuine_ofWord lexeme line
  · exact Token.genuine_of_not_isNaming (isNaming_of_withEqual? hkind)
  · exact Token.genuine_of_not_isNaming (isNaming_of_single? hkind)

end Scan

/-- **The tokens of a source text fit their texts.** -/
theorem genuine_of_mem_scan {source : String} {t : Token} (h : t ∈ (scan source).tokens) :
    t.Genuine := by
  rcases List.mem_append.mp h with h | h
  · obtain ⟨c, u, cs, hform, htext⟩ := Scan.form_of_mem_split h
    exact hform.genuine htext
  · rw [List.mem_singleton.mp h]
    exact Token.genuine_endAt _

/-- What is found wrong in scanning did not arise in a run. -/
theorem static_of_mem_scan {source : String} {x : Diagnostic}
    (h : x ∈ (scan source).diagnostics) : x.runtime = false := by
  obtain ⟨piece, -, hpiece⟩ := List.mem_filterMap.mp h
  unfold Piece.diagnostic? at hpiece
  split at hpiece
  · cases hpiece
    rfl
  · cases hpiece

end LoxKit
