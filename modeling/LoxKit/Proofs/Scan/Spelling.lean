import LoxKit.Proofs.Grammar.Genuine
import LoxKit.Proofs.Scan.Respaced

/-!
# Kinds and their spellings

A mark or a reserved word is spelled in one way (`Token.Spelled.lexeme_eq`), so its token is known
by its kind up to its line.  The other tokens are names, which are words that are not reserved
(`Token.Spelled.name`), strings (`Token.Spelled.string`) and numbers.
-/
namespace LoxKit
namespace TokenKind

/-- The spelling of a mark or a reserved word. -/
def spelling? : TokenKind → Option String
  | leftParen => some "("
  | rightParen => some ")"
  | leftBrace => some "\x7b"
  | rightBrace => some "\x7d"
  | comma => some ","
  | dot => some "."
  | minus => some "-"
  | plus => some "+"
  | semicolon => some ";"
  | slash => some "/"
  | star => some "*"
  | question => some "?"
  | colon => some ":"
  | bang => some "!"
  | bangEqual => some "!="
  | equal => some "="
  | equalEqual => some "=="
  | greater => some ">"
  | greaterEqual => some ">="
  | less => some "<"
  | lessEqual => some "<="
  | kind => (reserved.find? (·.2 == kind)).map (·.1)

/-- The kind that is spelled so, if it is one of marks or reserved words. -/
def ofSpelling? (text : String) : Option TokenKind := all.find? (·.spelling? == some text)

theorem ofSpelling?_of_spelling? {kind : TokenKind} {text : String}
    (h : kind.spelling? = some text) : ofSpelling? text = some kind := by
  have hall : ∀ k ∈ all, k.spelling? = none ∨ k.spelling?.bind ofSpelling? = some k := by decide
  rcases hall kind kind.mem_all with hnone | hfound
  · cases hnone.symm.trans h
  · rwa [h] at hfound

theorem spelling?_of_mem_reserved : ∀ p ∈ reserved, p.2.spelling? = some p.1 := by decide

/-- A word that is not a name is spelled in one way. -/
theorem spelling?_ofWord {w : String} (h : ofWord w ≠ .identifier) :
    (ofWord w).spelling? = some w :=
  spelling?_of_mem_reserved _ (mem_reserved_of_ofWord rfl h)

end TokenKind

namespace Scan

theorem spelling?_of_single? {c : Char} {kind : TokenKind} (h : single? c = some kind) :
    kind.spelling? = some (.ofList [c]) := by
  unfold single? at h
  split at h <;> cases h <;> rfl

theorem spelling?_of_withEqual? {c : Char} {kind : TokenKind} (h : withEqual? c = some kind) :
    kind.spelling? = some (.ofList [c, '=']) := by
  unfold withEqual? at h
  split at h <;> cases h <;> rfl

/-- **A text that begins with a letter** and goes on with letters and digits. -/
def IsWord (text : List Char) : Prop :=
  ∃ c u, text = c :: u ∧ isLetter c ∧ ∀ d ∈ u, isWordChar d

theorem IsWord.forall_isWordChar {text : List Char} (h : IsWord text) :
    ∀ c ∈ text, isWordChar c := by
  obtain ⟨c, u, rfl, hc, hu⟩ := h
  exact List.forall_mem_cons.mpr ⟨by simp [isWordChar, hc], hu⟩

end Scan

open Scan

/-- **What the spelling of a token can be.** -/
theorem Role.Spells.token_cases {kind : TokenKind} {text : List Char}
    (h : Role.Spells (.token kind) text) :
    kind.spelling? = some (.ofList text) ∨ kind = .number ∨
      kind = .identifier ∧ IsWord text ∧ TokenKind.ofWord (.ofList text) = .identifier ∨
      kind = .string ∧ ∃ t, text = '"' :: (t ++ ['"']) ∧ '"' ∉ t := by
  generalize hrole : Role.token kind = role at h
  cases h with
  | whole | decimal => exact .inr (.inl (Role.token.inj hrole))
  | string hquote => exact .inr (.inr (.inr ⟨Role.token.inj hrole, _, rfl, hquote⟩))
  | @word c u hc hu =>
    cases hrole
    by_cases hname : TokenKind.ofWord (.ofList (c :: u)) = .identifier
    · exact .inr (.inr (.inl ⟨hname, ⟨c, u, rfl, hc, hu⟩, hname⟩))
    · exact .inl (TokenKind.spelling?_ofWord hname)
  | double hmark =>
    cases hrole
    exact .inl (spelling?_of_withEqual? hmark)
  | single hmark =>
    cases hrole
    exact .inl (spelling?_of_single? hmark)
  | _ => cases hrole

namespace Token.Spelled

variable {t : Token}

/-- **A mark or a reserved word is spelled in one way.** -/
theorem lexeme_eq (h : t.Spelled) {text : String} (htext : t.kind.spelling? = some text) :
    t.lexeme = text := by
  rcases Role.Spells.token_cases h with hspelling | hkind | ⟨hkind, -⟩ | ⟨hkind, -⟩
  · rw [String.ofList_toList] at hspelling
    exact Option.some.inj (hspelling.symm.trans htext)
  all_goals
    rw [hkind] at htext
    cases htext

/-- **A name is a word that is not reserved.** -/
theorem name (h : t.Spelled) (hkind : t.kind = .identifier) :
    IsWord t.lexeme.toList ∧ TokenKind.ofWord t.lexeme = .identifier := by
  rcases Role.Spells.token_cases h with hspelling | hother | ⟨-, hword⟩ | ⟨hother, -⟩
  · rw [hkind] at hspelling
    cases hspelling
  · cases hkind.symm.trans hother
  · rwa [String.ofList_toList] at hword
  · cases hkind.symm.trans hother

/-- **A string holds no quote** between the two around it. -/
theorem string (h : t.Spelled) (hkind : t.kind = .string) :
    '"' ∉ t.lexeme.toList.tail.dropLast := by
  rcases Role.Spells.token_cases h with hspelling | hother | ⟨hother, -⟩ | ⟨-, u, htext, hquote⟩
  · rw [hkind] at hspelling
    cases hspelling
  · cases hkind.symm.trans hother
  · cases hkind.symm.trans hother
  · rwa [htext, List.tail_cons, List.dropLast_concat]

end Token.Spelled
end LoxKit
