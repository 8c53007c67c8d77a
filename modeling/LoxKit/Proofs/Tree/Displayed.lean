import LoxKit.Proofs.Tree.Forms

/-!
# The display form of a statement is read in one way

The first word of a display form, or the brace it begins with, tells the sort of the statement
(`Stmt.openingOf_display`), for none of the words that open statements is an expression.  Behind it
stand expressions, names and further statements, of which each is known by the text that begins with
it.  Only an `else` can belong to two statements, so a statement that ends with a branch of one arm
is known by its text if no `else` stands behind it, and the grammar puts none there
(`Stmt.display_inj`).
-/
namespace LoxKit

open Scan

/-! ## How statements open -/

/-- Whether a word opens a statement, or its second arm. -/
def TokenKind.opens : TokenKind → Bool
  | printWord | varWord | ifWord | whileWord | breakWord | returnWord | funWord | classWord
  | elseWord => true
  | _ => false

/-- **The sort of what a text begins with**: the word that opens it, a brace, or `identifier` if it
begins with an expression.  There is none if no statement begins so. -/
def openingOf : List Char → Option TokenKind
  | [] => none
  | c :: cs =>
    if c = '\x7b' then some .leftBrace
    else if Form.sort? c = none then none
    else
      let kind := TokenKind.ofWord (.ofList ((c :: cs).takeWhile isWordChar))
      some (if kind.opens then kind else .identifier)

/-- The sort of a statement. -/
def Stmt.opening : Stmt → TokenKind
  | .expression _ => .identifier
  | .print _ => .printWord
  | .var .. => .varWord
  | .block _ => .leftBrace
  | .branch .. => .ifWord
  | .loop .. => .whileWord
  | .leave _ => .breakWord
  | .giveBack .. => .returnWord
  | .function _ => .funWord
  | .classDecl .. => .classWord

/-- The words of a list of pieces in braces, behind the first brace. -/
def inBraces : List String → List Char
  | [] => [' ']
  | w :: ws => spaced (w :: ws)

theorem toList_braced (words : List String) :
    (braced words).toList = '\x7b' :: (inBraces words ++ [' ', '\x7d']) := by
  unfold braced
  rw [String.toList_append, String.toList_append]
  cases words with
  | nil => rfl
  | cons w ws =>
    rw [toList_intercalate_blank]
    simp [inBraces]

/-- The display form of a statement in front of another text. -/
def Stmt.before (r : List Char) : Stmt → List Char
  | .expression e => e.display.toList ++ ';' :: r
  | .print e => "print ".toList ++ (e.display.toList ++ ';' :: r)
  | .var n none => "var ".toList ++ (n.lexeme.toList ++ ';' :: r)
  | .var n (some e) =>
    "var ".toList ++ (n.lexeme.toList ++ ' ' :: '=' :: ' ' :: (e.display.toList ++ ';' :: r))
  | .block body => '\x7b' :: (inBraces (Stmt.displayAll body) ++ ' ' :: '\x7d' :: r)
  | .branch t y none => "if ".toList ++ (t.display.toList ++ ' ' :: (y.display.toList ++ r))
  | .branch t y (some n) =>
    "if ".toList ++ (t.display.toList ++ ' ' ::
      (y.display.toList ++ (" else ".toList ++ (n.display.toList ++ r))))
  | .loop t body => "while ".toList ++ (t.display.toList ++ ' ' :: (body.display.toList ++ r))
  | .leave _ => "break;".toList ++ r
  | .giveBack _ none => "return".toList ++ ';' :: r
  | .giveBack _ (some e) => "return".toList ++ ' ' :: (e.display.toList ++ ';' :: r)
  | .function d => "fun ".toList ++ (d.display.toList ++ r)
  | .classDecl n none ms =>
    "class ".toList ++ (n.lexeme.toList ++ ' ' :: '\x7b' ::
      (inBraces (FunDecl.displayAll ms) ++ ' ' :: '\x7d' :: r))
  | .classDecl n (some s) ms =>
    "class ".toList ++ (n.lexeme.toList ++ ' ' :: '<' :: ' ' :: (s.name.lexeme.toList ++ ' ' ::
      '\x7b' :: (inBraces (FunDecl.displayAll ms) ++ ' ' :: '\x7d' :: r)))

theorem Stmt.toList_display_append (s : Stmt) (r : List Char) :
    s.display.toList ++ r = s.before r := by
  unfold before
  cases s with
  | var n e => cases e <;> simp [display]
  | branch t y n => cases n <;> simp [display]
  | giveBack k e => cases e <;> simp [display]
  | classDecl n s ms => cases s <;> simp [display, toList_braced]
  | _ => simp [display, toList_braced]

/-- No reserved word that opens a statement is an expression. -/
theorem Expr.opens_ofWord {e : Expr} {w : String} (he : e.Legible) (hform : e.form = .word w) :
    (TokenKind.ofWord w).opens = false := by
  cases e with
  | literal v =>
    cases v with
    | bool b => cases b <;> cases hform <;> rfl
    | _ => cases hform <;> rfl
  | name r =>
    cases hform
    rw [(he.name.spelled.name he.name.kind).2]
    rfl
  | self r =>
    cases hform
    rfl
  | _ => cases hform

/-- No reserved word begins with anything but a letter. -/
theorem opens_of_not_isLetter {c : Char} (h : isLetter c = false) (cs : List Char) :
    (TokenKind.ofWord (.ofList ((c :: cs).takeWhile isWordChar))).opens = false := by
  by_cases hc : isWordChar c
  · rw [List.takeWhile_cons_of_pos hc]
    have hname : TokenKind.ofWord (.ofList (c :: cs.takeWhile isWordChar)) = .identifier :=
      Decidable.byContradiction fun hne => by
        have hall : ∀ p ∈ TokenKind.reserved, p.1.toList.head?.all isLetter := by decide
        have hmem := hall _ (TokenKind.mem_reserved_of_ofWord rfl hne)
        rw [String.toList_ofList, List.head?_cons, Option.all_some, h] at hmem
        cases hmem
    rw [hname]
    rfl
  · rw [List.takeWhile_cons_of_neg hc]
    rfl

/-- The opening of a text that begins with a form. -/
theorem openingOf_cons {c : Char} {cs : List Char} {n : Nat} (hsort : Form.sort? c = some n)
    (h : (TokenKind.ofWord (.ofList ((c :: cs).takeWhile isWordChar))).opens = false) :
    openingOf (c :: cs) = some .identifier := by
  have hbrace : c ≠ '\x7b' := by
    rintro rfl
    cases hsort
  rw [openingOf, if_neg hbrace, if_neg (by simp [hsort])]
  simp [h]

theorem Expr.openingOf_display {e : Expr} (he : e.Legible) {r : List Char}
    (hr : r.head?.any isWordChar = false) :
    openingOf (e.display.toList ++ r) = some .identifier := by
  have hsound := e.sound_form he
  obtain ⟨c, t, htext, hsort⟩ := Form.exists_text_eq_cons hsound
  rw [e.toList_display, htext, List.cons_append]
  refine openingOf_cons hsort ?_
  by_cases hc : isLetter c
  · -- the text begins with a word, which ends where the form ends
    have hword := Option.some.inj ((Form.sort?_of_isLetter hc).symm.trans hsort)
    cases hform : e.form with
    | word w =>
      rw [hform] at htext hsound
      have hrun : r.takeWhile isWordChar = [] := by
        cases r with
        | nil => rfl
        | cons d r => exact List.takeWhile_cons_of_neg (by simpa using hr)
      rw [← List.cons_append, ← htext, Form.text,
        List.takeWhile_append_of_pos hsound.forall_isWordChar, hrun, List.append_nil,
        String.ofList_toList]
      exact opens_ofWord he hform
    | _ =>
      rw [hform] at hword
      cases hword
  · exact opens_of_not_isLetter (by simpa using hc) _

theorem Stmt.openingOf_display {s : Stmt} (hs : s.Legible) (r : List Char) :
    openingOf (s.display.toList ++ r) = some s.opening := by
  rw [toList_display_append]
  cases s with
  | expression e => exact e.openingOf_display hs rfl
  | var n e => cases e <;> rfl
  | branch t y n => cases n <;> rfl
  | giveBack k e => cases e <;> rfl
  | classDecl n s ms => cases s <;> rfl
  | _ => rfl

/-- **Statements whose texts begin alike are of one sort**, and what follows can be compared part by
part. -/
theorem Stmt.before_eq {s s' : Stmt} {r r' : List Char} (hs : s.Legible) (hs' : s'.Legible)
    (h : s.display.toList ++ r = s'.display.toList ++ r') :
    s.opening = s'.opening ∧ s.before r = s'.before r' := by
  have hopening := openingOf_display hs r
  rw [h, openingOf_display hs' r'] at hopening
  rw [toList_display_append, toList_display_append] at h
  exact ⟨(Option.some.inj hopening).symm, h⟩

/-! ## Parts of statements -/

section

variable {r r' : List Char}

/-- Names that are spelled alike are the same, up to their lines. -/
theorem Token.LegibleName.lexeme_inj {n n' : Token} (hn : n.LegibleName) (hn' : n'.LegibleName)
    (hr : r.head?.any isWordChar = false) (hr' : r'.head?.any isWordChar = false)
    (h : n.lexeme.toList ++ r = n'.lexeme.toList ++ r') : n.unlined = n'.unlined ∧ r = r' := by
  obtain ⟨hlexeme, hrest⟩ :=
    Form.word_inj (hn.spelled.name hn.kind).1 (hn'.spelled.name hn'.kind).1 hr hr' h
  refine ⟨?_, hrest⟩
  unfold Token.unlined
  rw [hlexeme, hn.kind, hn'.kind]

/-- An expression in front of a blank or a semicolon. -/
theorem Expr.display_inj_front {e e' : Expr} {c : Char} (hc : c = ' ' ∨ c = ';') (he : e.Legible)
    (he' : e'.Legible) (h : e.display.toList ++ c :: r = e'.display.toList ++ c :: r') :
    e.unlined = e'.unlined ∧ r = r' := by
  have hstops (cs : List Char) : Form.Stops (c :: cs) := by
    rintro d ⟨⟩
    exact hc.imp_right .inr
  obtain ⟨hexpr, hrest⟩ := Expr.display_inj he he' (hstops r) (hstops r') h
  exact ⟨hexpr, (List.cons.inj hrest).2⟩

/-- The text of a parameter behind another one. -/
def moreParams (ps : List Token) : List Char := ps.flatMap fun p => ", ".toList ++ p.lexeme.toList

/-- The text of parameters. -/
def paramsText : List Token → List Char
  | [] => []
  | p :: ps => p.lexeme.toList ++ moreParams ps

theorem toList_intercalate_params (ps : List Token) :
    (", ".intercalate (ps.map (·.lexeme))).toList = paramsText ps := by
  cases ps with
  | nil => rfl
  | cons p ps =>
    rw [List.map_cons, toList_intercalate_cons, List.flatMap_map]
    rfl

theorem head?_moreParams (ps : List Token) (r : List Char) :
    (moreParams ps ++ ')' :: r).head?.any isWordChar = false := by
  cases ps <;> rfl

theorem moreParams_inj {ps ps' : List Token} (hps : ∀ p ∈ ps, p.LegibleName)
    (hps' : ∀ p ∈ ps', p.LegibleName)
    (h : moreParams ps ++ ')' :: r = moreParams ps' ++ ')' :: r') :
    ps.map Token.unlined = ps'.map Token.unlined ∧ r = r' := by
  induction ps generalizing ps' with
  | nil =>
    cases ps' with
    | nil => exact ⟨rfl, (List.cons.inj h).2⟩
    | cons p' ps' => cases h
  | cons p ps ih =>
    cases ps' with
    | nil => cases h
    | cons p' ps' =>
      rw [List.forall_mem_cons] at hps hps'
      simp only [moreParams, List.flatMap_cons, List.append_assoc] at h
      obtain ⟨hp, hrest⟩ := hps.1.lexeme_inj hps'.1 (head?_moreParams ps r)
        (head?_moreParams ps' r') (List.append_cancel_left h)
      obtain ⟨hmore, rfl⟩ := ih hps.2 hps'.2 hrest
      exact ⟨by rw [List.map_cons, List.map_cons, hp, hmore], rfl⟩

/-- **Parameters are known by their text.** -/
theorem paramsText_inj {ps ps' : List Token} (hps : ∀ p ∈ ps, p.LegibleName)
    (hps' : ∀ p ∈ ps', p.LegibleName)
    (h : paramsText ps ++ ')' :: r = paramsText ps' ++ ')' :: r') :
    ps.map Token.unlined = ps'.map Token.unlined ∧ r = r' := by
  have hne {p : Token} (hp : p.LegibleName) {qs : List Token} {r s : List Char} :
      ')' :: s ≠ paramsText (p :: qs) ++ r := by
    obtain ⟨c, u, hlexeme, hc, -⟩ := (hp.spelled.name hp.kind).1
    rw [paramsText, hlexeme]
    rintro ⟨⟩
    cases hc
  cases ps with
  | nil =>
    cases ps' with
    | nil => exact ⟨rfl, (List.cons.inj h).2⟩
    | cons p' ps' => exact absurd h (hne (hps' p' List.mem_cons_self))
  | cons p ps =>
    cases ps' with
    | nil => exact absurd h.symm (hne (hps p List.mem_cons_self))
    | cons p' ps' =>
      rw [List.forall_mem_cons] at hps hps'
      rw [paramsText, paramsText, List.append_assoc, List.append_assoc] at h
      obtain ⟨hp, hrest⟩ := hps.1.lexeme_inj hps'.1 (head?_moreParams ps r)
        (head?_moreParams ps' r') h
      obtain ⟨hmore, rfl⟩ := moreParams_inj hps.2 hps'.2 hrest
      exact ⟨by rw [List.map_cons, List.map_cons, hp, hmore], rfl⟩

/-- A piece that begins neither with a blank nor with the brace that closes a list. -/
def Solid (w : String) : Prop := ∃ c u, w.toList = c :: u ∧ c ≠ ' ' ∧ c ≠ '\x7d'

/-- What is in braces is told by the pieces and what stands behind them. -/
theorem spaced_of_inBraces {ws ws' : List String} (hws : ∀ w ∈ ws, Solid w)
    (hws' : ∀ w ∈ ws', Solid w) (h : inBraces ws ++ ' ' :: r = inBraces ws' ++ ' ' :: r') :
    spaced ws ++ ' ' :: r = spaced ws' ++ ' ' :: r' := by
  have hne {w : String} (hw : Solid w) {ws : List String} {r s : List Char} :
      inBraces [] ++ ' ' :: s ≠ inBraces (w :: ws) ++ r := by
    obtain ⟨c, u, htext, hc, -⟩ := hw
    rw [inBraces, inBraces, spaced_cons, htext]
    rintro ⟨⟩
    exact hc rfl
  cases ws with
  | nil =>
    cases ws' with
    | nil => exact (List.cons.inj h).2
    | cons w' ws' => exact absurd h (hne (hws' w' List.mem_cons_self))
  | cons w ws =>
    cases ws' with
    | nil => exact absurd h.symm (hne (hws w List.mem_cons_self))
    | cons w' ws' => exact h

end

theorem Stmt.solid_display {s : Stmt} (hs : s.Legible) : Solid s.display := by
  have hopening := openingOf_display hs []
  rw [List.append_nil] at hopening
  cases htext : s.display.toList with
  | nil =>
    rw [htext] at hopening
    cases hopening
  | cons c u =>
    rw [htext] at hopening
    refine ⟨c, u, htext, ?_, ?_⟩ <;> rintro rfl <;> cases hopening

theorem Stmt.solid_displayAll {ss : List Stmt} (hss : Stmt.AllLegible ss) :
    ∀ w ∈ Stmt.displayAll ss, Solid w := by
  induction ss with
  | nil => exact nofun
  | cons s ss ih => exact List.forall_mem_cons.mpr ⟨solid_display hss.1, ih hss.2⟩

theorem FunDecl.solid_display {d : FunDecl} (hd : d.Legible) : Solid d.display := by
  obtain ⟨n, ps, body⟩ := d
  obtain ⟨c, u, hlexeme, hc, -⟩ := (hd.1.spelled.name hd.1.kind).1
  have htext : ∃ v, (FunDecl.mk n ps body).display.toList = c :: v := by
    rw [display]
    simp [hlexeme]
  obtain ⟨v, hv⟩ := htext
  refine ⟨c, v, hv, ?_, ?_⟩ <;> rintro rfl <;> cases hc

theorem FunDecl.solid_displayAll {ds : List FunDecl} (hds : FunDecl.AllLegible ds) :
    ∀ w ∈ FunDecl.displayAll ds, Solid w := by
  induction ds with
  | nil => exact nofun
  | cons d ds ih => exact List.forall_mem_cons.mpr ⟨solid_display hds.1, ih hds.2⟩

/-! ## Statements without statements in them -/

section

variable {r r' : List Char}

theorem Stmt.var_inj {n n' : Token} {e e' : Option Expr} (hs : (Stmt.var n e).Legible)
    (hs' : (Stmt.var n' e').Legible) (h : (Stmt.var n e).before r = (Stmt.var n' e').before r') :
    (Stmt.var n e).unlined = (Stmt.var n' e').unlined ∧ r = r' := by
  rw [Stmt.unlined, Stmt.unlined]
  cases e with
  | none =>
    cases e' with
    | none =>
      obtain ⟨hn, hrest⟩ := hs.1.lexeme_inj hs'.1 rfl rfl (List.append_cancel_left h)
      exact ⟨by rw [hn], (List.cons.inj hrest).2⟩
    | some e' =>
      obtain ⟨-, hrest⟩ := hs.1.lexeme_inj hs'.1 rfl rfl (List.append_cancel_left h)
      cases hrest
  | some e =>
    cases e' with
    | none =>
      obtain ⟨-, hrest⟩ := hs.1.lexeme_inj hs'.1 rfl rfl (List.append_cancel_left h)
      cases hrest
    | some e' =>
      obtain ⟨hn, hrest⟩ := hs.1.lexeme_inj hs'.1 rfl rfl (List.append_cancel_left h)
      obtain ⟨he, rfl⟩ := Expr.display_inj_front (.inr rfl) (hs.2 e rfl) (hs'.2 e' rfl)
        (List.append_cancel_left (show [' ', '=', ' '] ++ _ = [' ', '=', ' '] ++ _ from hrest))
      exact ⟨by rw [hn, Option.map_some, Option.map_some, he], rfl⟩

theorem Stmt.leave_inj {k k' : Token} (hs : (Stmt.leave k).Legible) (hs' : (Stmt.leave k').Legible)
    (h : (Stmt.leave k).before r = (Stmt.leave k').before r') :
    (Stmt.leave k).unlined = (Stmt.leave k').unlined ∧ r = r' := by
  have hk : k.unlined = .mark .breakWord "break" := hs.unlined_eq rfl
  have hk' : k'.unlined = .mark .breakWord "break" := hs'.unlined_eq rfl
  exact ⟨by rw [Stmt.unlined, Stmt.unlined, hk, hk'], List.append_cancel_left h⟩

theorem Stmt.giveBack_inj {k k' : Token} {e e' : Option Expr} (hs : (Stmt.giveBack k e).Legible)
    (hs' : (Stmt.giveBack k' e').Legible)
    (h : (Stmt.giveBack k e).before r = (Stmt.giveBack k' e').before r') :
    (Stmt.giveBack k e).unlined = (Stmt.giveBack k' e').unlined ∧ r = r' := by
  have hk : k.unlined = .mark .returnWord "return" := hs.1.unlined_eq rfl
  have hk' : k'.unlined = .mark .returnWord "return" := hs'.1.unlined_eq rfl
  rw [Stmt.unlined, Stmt.unlined, hk, hk']
  cases e with
  | none =>
    cases e' with
    | none => exact ⟨rfl, (List.cons.inj (List.append_cancel_left h)).2⟩
    | some e' => cases List.append_cancel_left h
  | some e =>
    cases e' with
    | none => cases List.append_cancel_left h
    | some e' =>
      obtain ⟨he, rfl⟩ := Expr.display_inj_front (.inr rfl) (hs.2 e rfl) (hs'.2 e' rfl)
        (List.cons.inj (List.append_cancel_left h)).2
      exact ⟨by rw [Option.map_some, Option.map_some, he], rfl⟩

/-- A class is known by its text if its methods are known by theirs. -/
theorem Stmt.classDecl_inj {n n' : Token} {c c' : Option Reference} {ms ms' : List FunDecl}
    (hs : (Stmt.classDecl n c ms).Legible) (hs' : (Stmt.classDecl n' c' ms').Legible)
    (hmethods : spaced (FunDecl.displayAll ms) ++ ' ' :: '\x7d' :: r =
      spaced (FunDecl.displayAll ms') ++ ' ' :: '\x7d' :: r' →
      FunDecl.unlinedAll ms = FunDecl.unlinedAll ms' ∧ r = r')
    (h : (Stmt.classDecl n c ms).before r = (Stmt.classDecl n' c' ms').before r') :
    (Stmt.classDecl n c ms).unlined = (Stmt.classDecl n' c' ms').unlined ∧ r = r' := by
  have hbraces (h : inBraces (FunDecl.displayAll ms) ++ ' ' :: '\x7d' :: r =
      inBraces (FunDecl.displayAll ms') ++ ' ' :: '\x7d' :: r') :=
    hmethods (spaced_of_inBraces (FunDecl.solid_displayAll hs.2.2)
      (FunDecl.solid_displayAll hs'.2.2) h)
  rw [Stmt.unlined, Stmt.unlined]
  cases c with
  | none =>
    cases c' with
    | none =>
      obtain ⟨hn, hrest⟩ := hs.1.lexeme_inj hs'.1 rfl rfl (List.append_cancel_left h)
      obtain ⟨hms, rfl⟩ := hbraces (List.cons.inj (List.cons.inj hrest).2).2
      exact ⟨by rw [hn, hms], rfl⟩
    | some c' =>
      obtain ⟨-, hrest⟩ := hs.1.lexeme_inj hs'.1 rfl rfl (List.append_cancel_left h)
      cases hrest
  | some c =>
    cases c' with
    | none =>
      obtain ⟨-, hrest⟩ := hs.1.lexeme_inj hs'.1 rfl rfl (List.append_cancel_left h)
      cases hrest
    | some c' =>
      have hc := hs.2.1 c rfl
      have hc' := hs'.2.1 c' rfl
      obtain ⟨hn, hrest⟩ := hs.1.lexeme_inj hs'.1 rfl rfl (List.append_cancel_left h)
      obtain ⟨hname, hrest⟩ := Token.LegibleName.lexeme_inj hc.name hc'.name rfl rfl
        (List.append_cancel_left (show [' ', '<', ' '] ++ _ = [' ', '<', ' '] ++ _ from hrest))
      obtain ⟨hms, rfl⟩ := hbraces (List.cons.inj (List.cons.inj hrest).2).2
      refine ⟨?_, rfl⟩
      rw [hn, hms, Option.map_some, Option.map_some, hc.unlined_eq, hc'.unlined_eq, hname]

end

/-! ## Statements of other statements -/

/-- **What can stand behind a statement**: no `else` that it would take for its own. -/
def Stmt.Stops (s : Stmt) (r : List Char) : Prop :=
  s.isOpen → openingOf r.tail ≠ some .elseWord

theorem Stmt.Stops.of_not_isOpen {s : Stmt} (hs : s.isOpen = false) {r : List Char} : s.Stops r :=
  fun hopen => by simp [hs] at hopen

/-- The text of a function in front of another text. -/
theorem FunDecl.toList_display_append (n : Token) (ps : List Token) (body : List Stmt)
    (r : List Char) : (FunDecl.mk n ps body).display.toList ++ r =
      n.lexeme.toList ++ '(' :: (paramsText ps ++ ')' :: ' ' :: '\x7b' ::
        (inBraces (Stmt.displayAll body) ++ ' ' :: '\x7d' :: r)) := by
  rw [display]
  simp only [String.toList_append, toList_intercalate_params, toList_braced]
  simp

theorem Stmt.stops_spaced (s : Stmt) {ss : List Stmt} (hss : Stmt.AllLegible ss) (r : List Char) :
    s.Stops (spaced (Stmt.displayAll ss) ++ ' ' :: '\x7d' :: r) := by
  intro _ helse
  cases ss with
  | nil => cases helse
  | cons s' ss =>
    have hopening : openingOf (s'.display.toList ++ (spaced (Stmt.displayAll ss) ++
        ' ' :: '\x7d' :: r)) = some .elseWord := by
      rw [← List.append_assoc]
      exact helse
    rw [openingOf_display hss.1] at hopening
    cases s' <;> cases hopening

/-- A piece in front of others is not the brace that closes them. -/
theorem closing_ne_spaced {w : String} (hw : Solid w) (ws : List String) (r r' : List Char) :
    ' ' :: '\x7d' :: r ≠ spaced (w :: ws) ++ r' := by
  obtain ⟨c, u, htext, -, hc⟩ := hw
  rw [spaced_cons, htext]
  rintro ⟨⟩
  exact hc rfl

mutual

/-- **A legible statement is known by its display form**, up to its lines, whatever stands behind
the form. -/
theorem Stmt.display_inj : (s s' : Stmt) → {r r' : List Char} → s.Legible → s'.Legible →
    s.Stops r → s'.Stops r' → s.display.toList ++ r = s'.display.toList ++ r' →
    s.unlined = s'.unlined ∧ r = r'
  | .expression e, s', r, r', hs, hs', _, _, h => by
    obtain ⟨hopening, h⟩ := Stmt.before_eq hs hs' h
    cases s' with
    | expression e' =>
      obtain ⟨he, rfl⟩ := Expr.display_inj_front (.inr rfl) hs hs' h
      exact ⟨by rw [Stmt.unlined, Stmt.unlined, he], rfl⟩
    | _ => cases hopening
  | .print e, s', r, r', hs, hs', _, _, h => by
    obtain ⟨hopening, h⟩ := Stmt.before_eq hs hs' h
    cases s' with
    | print e' =>
      obtain ⟨he, rfl⟩ := Expr.display_inj_front (.inr rfl) hs hs' (List.append_cancel_left h)
      exact ⟨by rw [Stmt.unlined, Stmt.unlined, he], rfl⟩
    | _ => cases hopening
  | .var n e, s', r, r', hs, hs', _, _, h => by
    obtain ⟨hopening, h⟩ := Stmt.before_eq hs hs' h
    cases s' with
    | var n' e' => exact Stmt.var_inj hs hs' h
    | _ => cases hopening
  | .block body, s', r, r', hs, hs', _, _, h => by
    obtain ⟨hopening, h⟩ := Stmt.before_eq hs hs' h
    cases s' with
    | block body' =>
      obtain ⟨hbody, rfl⟩ := Stmt.displayAll_inj body body' hs hs'
        (spaced_of_inBraces (Stmt.solid_displayAll hs) (Stmt.solid_displayAll hs')
          (List.cons.inj h).2)
      exact ⟨by rw [Stmt.unlined, Stmt.unlined, hbody], rfl⟩
    | _ => cases hopening
  | .branch t y none, s', r, r', hs, hs', hr, hr', h => by
    obtain ⟨hopening, h⟩ := Stmt.before_eq hs hs' h
    cases s' with
    | branch t' y' n' =>
      cases n' with
      | none =>
        obtain ⟨ht, hrest⟩ :=
          Expr.display_inj_front (.inl rfl) hs.1 hs'.1 (List.append_cancel_left h)
        obtain ⟨hy, rfl⟩ := y.display_inj y' hs.2 hs'.2 (fun _ => hr rfl) (fun _ => hr' rfl) hrest
        exact ⟨by rw [Stmt.unlined, Stmt.unlined, ht, hy], rfl⟩
      | some n' =>
        -- the other arm would stand behind this branch
        obtain ⟨-, hrest⟩ :=
          Expr.display_inj_front (.inl rfl) hs.1 hs'.1 (List.append_cancel_left h)
        obtain ⟨-, rfl⟩ := y.display_inj y' hs.2 hs'.2.1.2 (fun _ => hr rfl)
          (.of_not_isOpen hs'.2.1.1) hrest
        exact absurd rfl (hr rfl)
    | _ => cases hopening
  | .branch t y (some n), s', r, r', hs, hs', hr, hr', h => by
    obtain ⟨hopening, h⟩ := Stmt.before_eq hs hs' h
    cases s' with
    | branch t' y' n' =>
      cases n' with
      | none =>
        -- our other arm would stand behind that branch
        obtain ⟨-, hrest⟩ :=
          Expr.display_inj_front (.inl rfl) hs.1 hs'.1 (List.append_cancel_left h)
        obtain ⟨-, rfl⟩ := y.display_inj y' hs.2.1.2 hs'.2 (.of_not_isOpen hs.2.1.1)
          (fun _ => hr' rfl) hrest
        exact absurd rfl (hr' rfl)
      | some n' =>
        obtain ⟨ht, hrest⟩ :=
          Expr.display_inj_front (.inl rfl) hs.1 hs'.1 (List.append_cancel_left h)
        obtain ⟨hy, hrest⟩ := y.display_inj y' hs.2.1.2 hs'.2.1.2 (.of_not_isOpen hs.2.1.1)
          (.of_not_isOpen hs'.2.1.1) hrest
        obtain ⟨hn, rfl⟩ := n.display_inj n' hs.2.2 hs'.2.2 hr hr' (List.append_cancel_left hrest)
        exact ⟨by rw [Stmt.unlined, Stmt.unlined, ht, hy, hn], rfl⟩
    | _ => cases hopening
  | .loop t body, s', r, r', hs, hs', hr, hr', h => by
    obtain ⟨hopening, h⟩ := Stmt.before_eq hs hs' h
    cases s' with
    | loop t' body' =>
      obtain ⟨ht, hrest⟩ :=
        Expr.display_inj_front (.inl rfl) hs.1 hs'.1 (List.append_cancel_left h)
      obtain ⟨hbody, rfl⟩ := body.display_inj body' hs.2 hs'.2 hr hr' hrest
      exact ⟨by rw [Stmt.unlined, Stmt.unlined, ht, hbody], rfl⟩
    | _ => cases hopening
  | .leave k, s', r, r', hs, hs', _, _, h => by
    obtain ⟨hopening, h⟩ := Stmt.before_eq hs hs' h
    cases s' with
    | leave k' => exact Stmt.leave_inj hs hs' h
    | _ => cases hopening
  | .giveBack k e, s', r, r', hs, hs', _, _, h => by
    obtain ⟨hopening, h⟩ := Stmt.before_eq hs hs' h
    cases s' with
    | giveBack k' e' => exact Stmt.giveBack_inj hs hs' h
    | _ => cases hopening
  | .function d, s', r, r', hs, hs', _, _, h => by
    obtain ⟨hopening, h⟩ := Stmt.before_eq hs hs' h
    cases s' with
    | function d' =>
      obtain ⟨hd, rfl⟩ := d.display_inj d' hs hs' (List.append_cancel_left h)
      exact ⟨by rw [Stmt.unlined, Stmt.unlined, hd], rfl⟩
    | _ => cases hopening
  | .classDecl n c ms, s', r, r', hs, hs', _, _, h => by
    obtain ⟨hopening, h⟩ := Stmt.before_eq hs hs' h
    cases s' with
    | classDecl n' c' ms' =>
      exact Stmt.classDecl_inj hs hs' (FunDecl.displayAll_inj ms ms' hs.2.2 hs'.2.2) h
    | _ => cases hopening

theorem Stmt.displayAll_inj : (ss ss' : List Stmt) → {r r' : List Char} → Stmt.AllLegible ss →
    Stmt.AllLegible ss' →
    spaced (Stmt.displayAll ss) ++ ' ' :: '\x7d' :: r =
      spaced (Stmt.displayAll ss') ++ ' ' :: '\x7d' :: r' →
    Stmt.unlinedAll ss = Stmt.unlinedAll ss' ∧ r = r'
  | [], [], r, r', _, _, h => ⟨rfl, (List.cons.inj (List.cons.inj h).2).2⟩
  | [], s' :: ss', r, r', _, hss', h =>
    absurd h (closing_ne_spaced (Stmt.solid_display hss'.1) _ _ _)
  | s :: ss, [], r, r', hss, _, h =>
    absurd h.symm (closing_ne_spaced (Stmt.solid_display hss.1) _ _ _)
  | s :: ss, s' :: ss', r, r', hss, hss', h => by
    simp only [Stmt.displayAll, spaced_cons, List.cons_append, List.append_assoc,
      List.cons.injEq, true_and] at h
    obtain ⟨hs, hrest⟩ := s.display_inj s' hss.1 hss'.1 (s.stops_spaced hss.2 r)
      (s'.stops_spaced hss'.2 r') h
    obtain ⟨hmore, rfl⟩ := Stmt.displayAll_inj ss ss' hss.2 hss'.2 hrest
    exact ⟨by rw [Stmt.unlinedAll, Stmt.unlinedAll, hs, hmore], rfl⟩

/-- A legible function is known by its display form, up to its lines. -/
theorem FunDecl.display_inj : (d d' : FunDecl) → {r r' : List Char} → d.Legible → d'.Legible →
    d.display.toList ++ r = d'.display.toList ++ r' → d.unlined = d'.unlined ∧ r = r'
  | .mk n ps body, .mk n' ps' body', r, r', hd, hd', h => by
    rw [FunDecl.toList_display_append, FunDecl.toList_display_append] at h
    obtain ⟨hn, hrest⟩ := hd.1.lexeme_inj hd'.1 rfl rfl h
    obtain ⟨hps, hrest⟩ := paramsText_inj hd.2.1 hd'.2.1 (List.cons.inj hrest).2
    obtain ⟨hbody, rfl⟩ := Stmt.displayAll_inj body body' hd.2.2 hd'.2.2
      (spaced_of_inBraces (Stmt.solid_displayAll hd.2.2) (Stmt.solid_displayAll hd'.2.2)
        (List.cons.inj (List.cons.inj hrest).2).2)
    exact ⟨by rw [FunDecl.unlined, FunDecl.unlined, hn, hps, hbody], rfl⟩

theorem FunDecl.displayAll_inj : (ds ds' : List FunDecl) → {r r' : List Char} →
    FunDecl.AllLegible ds → FunDecl.AllLegible ds' →
    spaced (FunDecl.displayAll ds) ++ ' ' :: '\x7d' :: r =
      spaced (FunDecl.displayAll ds') ++ ' ' :: '\x7d' :: r' →
    FunDecl.unlinedAll ds = FunDecl.unlinedAll ds' ∧ r = r'
  | [], [], r, r', _, _, h => ⟨rfl, (List.cons.inj (List.cons.inj h).2).2⟩
  | [], d' :: ds', r, r', _, hds', h =>
    absurd h (closing_ne_spaced (FunDecl.solid_display hds'.1) _ _ _)
  | d :: ds, [], r, r', hds, _, h =>
    absurd h.symm (closing_ne_spaced (FunDecl.solid_display hds.1) _ _ _)
  | d :: ds, d' :: ds', r, r', hds, hds', h => by
    simp only [FunDecl.displayAll, spaced_cons, List.cons_append, List.append_assoc,
      List.cons.injEq, true_and] at h
    obtain ⟨hd, hrest⟩ := d.display_inj d' hds.1 hds'.1 h
    obtain ⟨hmore, rfl⟩ := FunDecl.displayAll_inj ds ds' hds.2 hds'.2 hrest
    exact ⟨by rw [FunDecl.unlinedAll, FunDecl.unlinedAll, hd, hmore], rfl⟩

end

end LoxKit
