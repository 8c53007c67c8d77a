import LoxKit.Proofs.Decimal.Notation
import LoxKit.Proofs.Tree.Legible
import LoxKit.Proofs.Tree.Rendering
import LoxKit.Proofs.Tree.Unlined
import LoxKit.Tree.Display

/-!
# The display form of an expression is read in one way

The display form of an expression is a word, a number, a quoted text, or a list in parentheses: a
head, and its parts behind blanks (`Form`).  Which of these a text begins with is seen from its
first character, and each ends where it must: a word or a number at the next blank, parenthesis or
semicolon, a quoted text at its second quote, a list at the parenthesis that no part takes.  So no
text begins with two forms (`Form.text_inj`).

A form, in turn, is that of one expression (`Expr.ofForm_form`): the head and the number of parts
tell its constructor, and the two uses of `=` differ in their first part.  So a legible expression
is known by its display form up to its lines (`Expr.display_inj`), wherever that form ends.
-/
namespace LoxKit

open Scan

/-! ## Forms and their texts -/

/-- **The form in which an expression is displayed.** -/
inductive Form where
  | number (x : Float)
  | word (w : String)
  | quoted (s : String)
  | list (head : String) (parts : List Form)
  deriving Inhabited

namespace Form

mutual

/-- **The text of a form.** -/
def text : Form → List Char
  | .number x => (NumberFormat.plain.write x).toList
  | .word w => w.toList
  | .quoted s => '"' :: (s.toList ++ ['"'])
  | .list head parts => '(' :: (head.toList ++ (textAll parts ++ [')']))

/-- The texts of forms, each behind a blank. -/
def textAll : List Form → List Char
  | [] => []
  | f :: fs => ' ' :: (f.text ++ textAll fs)

end

/-- A character of the head of a list. -/
def isHeadChar (c : Char) : Bool := c != ' ' && c != ')'

mutual

/-- **A form whose text can be told from what is around it.** -/
def Sound : Form → Prop
  | .number x => Binary64.Plain x
  | .word w => IsWord w.toList
  | .quoted s => '"' ∉ s.toList
  | .list head parts => head.toList.all isHeadChar ∧ AllSound parts

/-- Forms whose texts can be told from what is around them. -/
def AllSound : List Form → Prop
  | [] => True
  | f :: fs => f.Sound ∧ AllSound fs

end

/-- **What can stand behind a form**: a blank, the end of a list or of a statement, or nothing. -/
def Stops (cs : List Char) : Prop := ∀ c ∈ cs.head?, c = ' ' ∨ c = ')' ∨ c = ';'

theorem stops_textAll (fs : List Form) (cs : List Char) : Stops (textAll fs ++ ')' :: cs) := by
  cases fs with
  | nil =>
    rintro c ⟨⟩
    exact .inr (.inl rfl)
  | cons f fs =>
    rintro c ⟨⟩
    exact .inl rfl

/-! ## Where the pieces of a text end -/

variable {p : Char → Bool} {t u r s : List Char}

/-- A run of characters of a sort is known by what stands behind it. -/
theorem append_inj_of_run (ht : ∀ c ∈ t, p c) (hu : ∀ c ∈ u, p c) (hr : r.head?.any p = false)
    (hs : s.head?.any p = false) (h : t ++ r = u ++ s) : t = u ∧ r = s := by
  have hlength : t.length = u.length :=
    calc t.length = run p (t ++ r) := (run_eq_length.mpr ⟨ht, hr⟩).symm
      _ = run p (u ++ s) := by rw [h]
      _ = u.length := run_eq_length.mpr ⟨hu, hs⟩
  exact List.append_inj h hlength

theorem Stops.any_head? (h : Stops r) (hp : p ' ' = false ∧ p ')' = false ∧ p ';' = false) :
    r.head?.any p = false := by
  cases hhead : r.head? with
  | none => rfl
  | some c =>
    rcases h c hhead with rfl | rfl | rfl
    · exact hp.1
    · exact hp.2.1
    · exact hp.2.2

/-- The sort of the forms that begin with a character, if any do. -/
def sort? (c : Char) : Option Nat :=
  if isDigit c then some 0 else if isLetter c then some 1 else if c = '"' then some 2
  else if c = '(' then some 3 else none

/-- The sort of a form. -/
def sort : Form → Nat
  | .number _ => 0
  | .word _ => 1
  | .quoted _ => 2
  | .list .. => 3

theorem sort?_of_isLetter {c : Char} (h : isLetter c) : sort? c = some 1 := by
  rw [sort?, if_neg (by simp [isDigit_of_isLetter h]), if_pos h]

/-- **The first character of a form tells its sort.** -/
theorem exists_text_eq_cons {f : Form} (h : f.Sound) :
    ∃ c t, f.text = c :: t ∧ sort? c = some f.sort := by
  cases f with
  | number x =>
    obtain ⟨c, t, htext, hc, -⟩ := NumberFormat.looksNumeric_write h
    exact ⟨c, t, htext, if_pos hc⟩
  | word w =>
    obtain ⟨c, t, htext, hc, -⟩ := h
    exact ⟨c, t, htext, sort?_of_isLetter hc⟩
  | quoted s => exact ⟨'"', _, rfl, rfl⟩
  | list head parts => exact ⟨'(', _, rfl, rfl⟩

/-- Texts that begin alike are those of forms of one sort. -/
theorem sort_eq {f g : Form} (hf : f.Sound) (hg : g.Sound) (h : f.text ++ r = g.text ++ s) :
    f.sort = g.sort := by
  obtain ⟨c, t, htext, hc⟩ := exists_text_eq_cons hf
  obtain ⟨d, u, htext', hd⟩ := exists_text_eq_cons hg
  rw [htext, htext', List.cons_append, List.cons_append] at h
  exact Option.some.inj (hc.symm.trans ((List.cons.inj h).1 ▸ hd))

theorem number_inj {x y : Float} (hx : Binary64.Plain x) (hy : Binary64.Plain y) (hr : Stops r)
    (hs : Stops s) (h : (Form.number x).text ++ r = (Form.number y).text ++ s) :
    x = y ∧ r = s := by
  obtain ⟨htext, hrest⟩ := append_inj_of_run
    (NumberFormat.looksNumeric_write hx).forall_isNumberChar
    (NumberFormat.looksNumeric_write hy).forall_isNumberChar
    (hr.any_head? (by decide)) (hs.any_head? (by decide)) h
  exact ⟨NumberFormat.write_injective hx hy (String.toList_inj.mp htext), hrest⟩

theorem word_inj {v w : String} (hv : IsWord v.toList) (hw : IsWord w.toList)
    (hr : r.head?.any isWordChar = false) (hs : s.head?.any isWordChar = false)
    (h : v.toList ++ r = w.toList ++ s) : v = w ∧ r = s := by
  obtain ⟨htext, hrest⟩ :=
    append_inj_of_run hv.forall_isWordChar hw.forall_isWordChar hr hs h
  exact ⟨String.toList_inj.mp htext, hrest⟩

theorem quoted_inj {v w : String} (hv : '"' ∉ v.toList) (hw : '"' ∉ w.toList)
    (h : v.toList ++ '"' :: r = w.toList ++ '"' :: s) : v = w ∧ r = s := by
  have hchars {u : List Char} (hu : '"' ∉ u) : ∀ c ∈ u, (c != '"') = true := fun c hc => by
    simpa using fun heq : c = '"' => hu (heq ▸ hc)
  obtain ⟨htext, hrest⟩ := append_inj_of_run (hchars hv) (hchars hw) rfl rfl h
  exact ⟨String.toList_inj.mp htext, (List.cons.inj hrest).2⟩

/-! ## No text begins with two forms -/

mutual

-- The induction is on the first form, and what stands behind both forms changes on the way.

/-- **No text begins with two forms.** -/
theorem text_inj : (f g : Form) → {r s : List Char} → f.Sound → g.Sound → Stops r → Stops s →
    f.text ++ r = g.text ++ s → f = g ∧ r = s
  | .number x, g, r, s, hf, hg, hr, hs, h => by
    have hsort := sort_eq hf hg h
    cases g with
    | number y =>
      obtain ⟨rfl, rfl⟩ := number_inj hf hg hr hs h
      exact ⟨rfl, rfl⟩
    | _ => cases hsort
  | .word w, g, r, s, hf, hg, hr, hs, h => by
    have hsort := sort_eq hf hg h
    cases g with
    | word w' =>
      obtain ⟨rfl, rfl⟩ := word_inj hf hg (hr.any_head? (by decide)) (hs.any_head? (by decide)) h
      exact ⟨rfl, rfl⟩
    | _ => cases hsort
  | .quoted t, g, r, s, hf, hg, hr, hs, h => by
    have hsort := sort_eq hf hg h
    cases g with
    | quoted t' =>
      simp only [text, List.cons_append, List.append_assoc, List.cons.injEq, true_and,
        List.nil_append] at h
      obtain ⟨rfl, rfl⟩ := quoted_inj hf hg h
      exact ⟨rfl, rfl⟩
    | _ => cases hsort
  | .list head parts, g, r, s, hf, hg, hr, hs, h => by
    have hsort := sort_eq hf hg h
    cases g with
    | list head' parts' =>
      simp only [text, List.cons_append, List.append_assoc, List.cons.injEq, true_and,
        List.nil_append] at h
      -- the head ends at the blank of the first part, or at the end of the list
      have hstop (fs : List Form) (cs : List Char) :
          (textAll fs ++ ')' :: cs).head?.any isHeadChar = false := by
        cases fs <;> rfl
      obtain ⟨hhead, hparts⟩ := append_inj_of_run (List.all_eq_true.mp hf.1)
        (List.all_eq_true.mp hg.1) (hstop _ _) (hstop _ _) h
      obtain ⟨rfl, rfl⟩ := textAll_inj parts parts' hf.2 hg.2 hparts
      exact ⟨by rw [String.toList_inj.mp hhead], rfl⟩
    | _ => cases hsort

/-- No text begins with two lists of parts. -/
theorem textAll_inj : (fs gs : List Form) → {r s : List Char} → AllSound fs → AllSound gs →
    textAll fs ++ ')' :: r = textAll gs ++ ')' :: s → fs = gs ∧ r = s
  | [], [], r, s, _, _, h => ⟨rfl, (List.cons.inj h).2⟩
  | [], g :: gs, r, s, _, _, h => by cases h
  | f :: fs, [], r, s, _, _, h => by cases h
  | f :: fs, g :: gs, r, s, hf, hg, h => by
    simp only [textAll, List.cons_append, List.append_assoc, List.cons.injEq, true_and] at h
    obtain ⟨rfl, hrest⟩ := text_inj f g hf.1 hg.1 (stops_textAll _ _) (stops_textAll _ _) h
    obtain ⟨rfl, rfl⟩ := textAll_inj fs gs hf.2 hg.2 hrest
    exact ⟨rfl, rfl⟩

end

end Form

/-! ## The forms of expressions -/

/-- The form of a literal. -/
def Literal.form : Literal → Form
  | .nil => .word "nil"
  | .bool true => .word "true"
  | .bool false => .word "false"
  | .number x => .number x
  | .string s => .quoted s

mutual

/-- **The form of an expression.** -/
def Expr.form : Expr → Form
  | .literal v => v.form
  | .name r => .word r.name.lexeme
  | .assign r v => .list "=" [.word r.name.lexeme, v.form]
  | .unary op e => .list op.lexeme [e.form]
  | .binary l op r => .list op.lexeme [l.form, r.form]
  | .logical l op r => .list op.lexeme [l.form, r.form]
  | .conditional t y n => .list "?:" [t.form, y.form, n.form]
  | .call f _ args => .list "call" (f.form :: Expr.forms args)
  | .get o p => .list "." [o.form, .word p.lexeme]
  | .set o p v => .list "=" [.list "." [o.form, .word p.lexeme], v.form]
  | .group e => .list "group" [e.form]
  | .self _ => .word "this"
  | .super _ m => .list "super" [.word m.lexeme]

/-- The forms of expressions. -/
def Expr.forms : List Expr → List Form
  | [] => []
  | e :: es => e.form :: Expr.forms es

end

/-- Words with a blank in front of each. -/
def spaced (words : List String) : List Char := words.flatMap fun w => ' ' :: w.toList

@[simp] theorem spaced_nil : spaced [] = [] := rfl

@[simp] theorem spaced_cons (w : String) (ws : List String) :
    spaced (w :: ws) = ' ' :: (w.toList ++ spaced ws) := rfl

theorem toList_intercalate_cons (sep w : String) (ws : List String) :
    (sep.intercalate (w :: ws)).toList =
      w.toList ++ ws.flatMap fun w => sep.toList ++ w.toList := by
  induction ws generalizing w with
  | nil => simp
  | cons v ws ih =>
    rw [String.intercalate_cons_cons, String.toList_append, String.toList_append, ih]
    simp

theorem toList_intercalate_blank (w : String) (ws : List String) :
    (" ".intercalate (w :: ws)).toList = w.toList ++ spaced ws :=
  toList_intercalate_cons " " w ws

@[simp] theorem toList_parenthesized (w : String) (ws : List String) :
    (parenthesized (w :: ws)).toList = '(' :: (w.toList ++ (spaced ws ++ [')'])) := by
  rw [parenthesized, String.toList_append, String.toList_append, toList_intercalate_blank]
  simp

theorem Literal.toList_render (v : Literal) : v.render.toList = v.form.text := by
  cases v with
  | bool b => cases b <;> rfl
  | string s => simp [render, form, Form.text]
  | _ => rfl

mutual

/-- **The display form of an expression is the text of its form.** -/
theorem Expr.toList_display : (e : Expr) → e.display.toList = e.form.text
  | .literal v => v.toList_render
  | .name _ => rfl
  | .assign r v => by simp [display, form, Form.text, Form.textAll, v.toList_display]
  | .unary op e => by simp [display, form, Form.text, Form.textAll, e.toList_display]
  | .binary l op r | .logical l op r => by
    simp [display, form, Form.text, Form.textAll, l.toList_display, r.toList_display]
  | .conditional t y n => by
    simp [display, form, Form.text, Form.textAll, t.toList_display, y.toList_display,
      n.toList_display]
  | .call f _ args => by
    simp [display, form, Form.text, Form.textAll, f.toList_display, Expr.spaced_displayAll args]
  | .get o p => by simp [display, form, Form.text, Form.textAll, o.toList_display]
  | .set o p v => by
    simp [display, form, Form.text, Form.textAll, o.toList_display, v.toList_display]
  | .group e => by simp [display, form, Form.text, Form.textAll, e.toList_display]
  | .self _ => rfl
  | .super _ m => by simp [display, form, Form.text, Form.textAll]

theorem Expr.spaced_displayAll :
    (es : List Expr) → spaced (Expr.displayAll es) = Form.textAll (Expr.forms es)
  | [] => rfl
  | e :: es => by simp [displayAll, forms, Form.textAll, e.toList_display, spaced_displayAll es]

end

/-- An operator of any sort. -/
def TokenKind.isOperator (kind : TokenKind) : Bool :=
  Grammar.isUnaryOperator kind || kind.isBinaryOperator || kind == .andWord || kind == .orWord

theorem Token.Legible.isOperator_of_unary {op : Token}
    (h : op.Legible (Grammar.isUnaryOperator ·)) : op.kind.isOperator := by
  simp [TokenKind.isOperator, h.kind]

theorem Token.Legible.isOperator_of_binary {op : Token} (h : op.Legible (·.isBinaryOperator)) :
    op.kind.isOperator := by
  simp [TokenKind.isOperator, h.kind]

theorem Token.Legible.isOperator_of_logical {op : Token}
    (h : op.Legible fun kind => kind = .andWord ∨ kind = .orWord) : op.kind.isOperator := by
  rcases h.kind with hkind | hkind <;> rw [hkind] <;> rfl

/-! ## Legible expressions have sound forms -/

/-- The spelling of an operator can be the head of a list. -/
theorem Token.Spelled.all_isHeadChar {op : Token} (h : op.Spelled)
    (hop : op.kind.isOperator) : op.lexeme.toList.all Form.isHeadChar := by
  have hspelling {text : String} (htext : op.kind.spelling? = some text) : op.lexeme = text :=
    h.lexeme_eq htext
  revert hop hspelling
  cases op.kind with
  | bang | minus | comma | plus | star | slash | greater | greaterEqual | less | lessEqual
  | equalEqual | bangEqual | andWord | orWord =>
    intro _ hspelling
    rw [hspelling rfl]
    decide
  | _ =>
    intro hop
    cases hop

theorem Literal.Legible.sound_form {v : Literal} (h : v.Legible) : v.form.Sound := by
  cases v with
  | bool b => cases b <;> exact ⟨_, _, rfl, rfl, List.all_eq_true.mp rfl⟩
  | nil => exact ⟨_, _, rfl, rfl, List.all_eq_true.mp rfl⟩
  | number x => exact h
  | string s => exact h

mutual

/-- **A legible expression has a sound form.** -/
theorem Expr.sound_form : (e : Expr) → e.Legible → e.form.Sound
  | .literal _, h => h.sound_form
  | .name _, h => (h.name.spelled.name h.name.kind).1
  | .assign _ v, h =>
    ⟨by decide, (h.1.name.spelled.name h.1.name.kind).1, v.sound_form h.2, trivial⟩
  | .unary _ e, h =>
    ⟨h.1.spelled.all_isHeadChar h.1.isOperator_of_unary, e.sound_form h.2, trivial⟩
  | .binary l _ r, h =>
    ⟨h.1.spelled.all_isHeadChar h.1.isOperator_of_binary, l.sound_form h.2.1,
      r.sound_form h.2.2, trivial⟩
  | .logical l _ r, h =>
    ⟨h.1.spelled.all_isHeadChar h.1.isOperator_of_logical, l.sound_form h.2.1,
      r.sound_form h.2.2, trivial⟩
  | .conditional t y n, h =>
    ⟨by decide, t.sound_form h.1, y.sound_form h.2.1, n.sound_form h.2.2, trivial⟩
  | .call f _ args, h => ⟨by decide, f.sound_form h.1, Expr.allSound_forms args h.2.2⟩
  | .get o _, h => ⟨by decide, o.sound_form h.1, (h.2.spelled.name h.2.kind).1, trivial⟩
  | .set o _ v, h =>
    ⟨by decide, ⟨by decide, o.sound_form h.1, (h.2.1.spelled.name h.2.1.kind).1, trivial⟩,
      v.sound_form h.2.2, trivial⟩
  | .group e, h => ⟨by decide, e.sound_form h, trivial⟩
  | .self _, _ => ⟨_, _, rfl, rfl, List.all_eq_true.mp rfl⟩
  | .super _ _, h => ⟨by decide, (h.2.spelled.name h.2.kind).1, trivial⟩

theorem Expr.allSound_forms : (es : List Expr) → Expr.AllLegible es →
    Form.AllSound (Expr.forms es)
  | [], _ => trivial
  | e :: es, h => ⟨e.sound_form h.1, Expr.allSound_forms es h.2⟩

end

/-! ## The expression of a form -/

/-- The expression that a word is. -/
def Expr.ofWord (w : String) : Expr :=
  (Grammar.atom? (.mark (.ofWord w) w)).getD default

/-- An expression of an operator and its operands. -/
def Expr.operated (op : Token) : List Expr → Expr
  | [e] => .unary op e
  | [l, r] => if op.kind.isBinaryOperator then .binary l op r else .logical l op r
  | _ => default

/-- The expression that a list is, from those that its parts are. -/
def Expr.compound (head : String) (parts : List Expr) : Expr :=
  match head, parts with
  | "=", [target, value] => (Grammar.assigned? value target).getD default
  | "?:", [t, y, n] => .conditional t y n
  | "call", f :: args => .call f (.mark .rightParen ")") args
  | ".", [o, .name p] => .get o p.name
  | "group", [e] => .group e
  | "super", [.name m] => .super ⟨.mark .superWord "super", none⟩ m.name
  | _, _ => Expr.operated (.mark ((TokenKind.ofSpelling? head).getD .identifier) head) parts

mutual

/-- **The expression of a form.** -/
def Expr.ofForm : Form → Expr
  | .number x => .literal (.number x)
  | .word w => Expr.ofWord w
  | .quoted s => .literal (.string s)
  | .list head parts => Expr.compound head (Expr.ofForms parts)

/-- The expressions of forms. -/
def Expr.ofForms : List Form → List Expr
  | [] => []
  | f :: fs => Expr.ofForm f :: Expr.ofForms fs

end

/-- No operator is spelled like another head. -/
theorem Expr.compound_operator {op : Token} (h : op.Spelled) (hop : op.kind.isOperator)
    (parts : List Expr) : Expr.compound op.lexeme parts = Expr.operated op.unlined parts := by
  have hmark {text : String} (htext : op.kind.spelling? = some text) :
      op.lexeme = text ∧ op.unlined = .mark op.kind text := by
    rw [← h.lexeme_eq htext]
    exact ⟨rfl, rfl⟩
  revert hop hmark
  unfold compound
  cases op.kind with
  | bang | minus | comma | plus | star | slash | greater | greaterEqual | less | lessEqual
  | equalEqual | bangEqual | andWord | orWord =>
    intro _ hmark
    obtain ⟨hlexeme, hunlined⟩ := hmark rfl
    rw [hlexeme, hunlined]
    rfl
  | _ =>
    intro hop
    cases hop

/-- A mark or a reserved word is known by its kind, up to its line. -/
theorem Token.Legible.unlined_eq {t : Token} {kind : TokenKind} (h : t.Legible (· = kind))
    {text : String} (htext : kind.spelling? = some text) : t.unlined = .mark kind text := by
  have hkind : t.kind = kind := h.kind
  rw [← hkind] at htext
  rw [← h.spelled.lexeme_eq htext, ← hkind]
  rfl

theorem Reference.Legible.unlined_eq {r : Reference} {kind : TokenKind} (h : r.Legible kind) :
    r.unlined = ⟨r.name.unlined, none⟩ := by
  rw [← h.hops]
  rfl

theorem Expr.ofWord_name {t : Token} (h : t.LegibleName) :
    Expr.ofWord t.lexeme = .name ⟨t.unlined, none⟩ := by
  unfold Expr.ofWord Grammar.atom? Token.unlined
  rw [(h.spelled.name h.kind).2, h.kind]
  rfl

mutual

/-- **The expression of the form of an expression is that expression**, up to its lines. -/
theorem Expr.ofForm_form : (e : Expr) → e.Legible → Expr.ofForm e.form = e.unlined
  | .literal v, _ => by
    cases v with
    | bool b => cases b <;> rfl
    | _ => rfl
  | .name r, h => by
    rw [form, ofForm, ofWord_name h.name, unlined, h.unlined_eq]
  | .assign r v, h => by
    simp only [form, ofForm, ofForms, ofWord_name h.1.name, v.ofForm_form h.2, unlined,
      h.1.unlined_eq]
    rfl
  | .unary op e, h => by
    simp only [form, ofForm, ofForms, e.ofForm_form h.2, unlined]
    rw [compound_operator h.1.spelled h.1.isOperator_of_unary]
    rfl
  | .binary l op r, h => by
    simp only [form, ofForm, ofForms, l.ofForm_form h.2.1, r.ofForm_form h.2.2, unlined]
    rw [compound_operator h.1.spelled h.1.isOperator_of_binary]
    exact if_pos h.1.kind
  | .logical l op r, h => by
    simp only [form, ofForm, ofForms, l.ofForm_form h.2.1, r.ofForm_form h.2.2, unlined]
    rw [compound_operator h.1.spelled h.1.isOperator_of_logical]
    refine if_neg ?_
    rcases h.1.kind with hkind | hkind <;> rw [Token.unlined_kind, hkind] <;> decide
  | .conditional t y n, h => by
    simp only [form, ofForm, ofForms, t.ofForm_form h.1, y.ofForm_form h.2.1,
      n.ofForm_form h.2.2, unlined]
    rfl
  | .call f paren args, h => by
    have hparen : paren.unlined = .mark .rightParen ")" := h.2.1.unlined_eq rfl
    simp only [form, ofForm, ofForms, f.ofForm_form h.1, Expr.ofForms_forms args h.2.2, unlined,
      hparen]
    rfl
  | .get o p, h => by
    simp only [form, ofForm, ofForms, o.ofForm_form h.1, ofWord_name h.2, unlined]
    rfl
  | .set o p v, h => by
    simp only [form, ofForm, ofForms, o.ofForm_form h.1, ofWord_name h.2.1, v.ofForm_form h.2.2,
      unlined]
    rfl
  | .group e, h => by
    simp only [form, ofForm, ofForms, e.ofForm_form h, unlined]
    rfl
  | .self r, h => by
    rw [unlined, h.unlined_eq, h.name.unlined_eq rfl]
    rfl
  | .super r m, h => by
    simp only [form, ofForm, ofForms, ofWord_name h.2, unlined]
    rw [h.1.unlined_eq, h.1.name.unlined_eq rfl]
    rfl

theorem Expr.ofForms_forms : (es : List Expr) → Expr.AllLegible es →
    Expr.ofForms (Expr.forms es) = Expr.unlinedAll es
  | [], _ => rfl
  | e :: es, h => by rw [forms, ofForms, e.ofForm_form h.1, Expr.ofForms_forms es h.2, unlinedAll]

end

/-- **A legible expression is known by its display form**, up to its lines, whatever stands behind
the form. -/
theorem Expr.display_inj {e e' : Expr} {r r' : List Char} (he : e.Legible) (he' : e'.Legible)
    (hr : Form.Stops r) (hr' : Form.Stops r')
    (h : e.display.toList ++ r = e'.display.toList ++ r') : e.unlined = e'.unlined ∧ r = r' := by
  rw [e.toList_display, e'.toList_display] at h
  obtain ⟨hform, hrest⟩ :=
    Form.text_inj e.form e'.form (e.sound_form he) (e'.sound_form he') hr hr' h
  exact ⟨by rw [← e.ofForm_form he, hform, e'.ofForm_form he'], hrest⟩

end LoxKit
