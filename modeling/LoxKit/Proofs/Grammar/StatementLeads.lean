import LoxKit.Proofs.Grammar.ExpressionLeads
import LoxKit.Proofs.Grammar.StatementTakes

/-!
# What is written is read, statement by statement

The tokens that write a statement are read as the statement, whatever is behind them, as long
as an open statement has no `else` behind it (`Passage.Written.leads`).  A program is read off
its tokens exactly if they write its declarations (`Program.ofTokens_iff`).
-/
namespace LoxKit
namespace Grammar

variable {w l room : Nat} {ts : List Token}

/-! ## Parts without statements -/

/-- A clause is read in front of its closing token. -/
theorem ClauseWritten.leads {kind : TokenKind} {e : Option Expr} (h : ClauseWritten room e ts)
    (hlen : ts.length ≤ w) (hend : kind ≠ .endOfInput)
    (hgoesOn : Tier.expression.goesOn kind = false)
    (hstarts : startsStatement kind = false) :
    Leads l (unless? kind (expression w room)) ts (pure e) fun next => next.kind = kind := by
  cases e with
  | none =>
    cases h
    exact .unlessNone hend
  | some e =>
    have hread : Leads l (expression w room) ts (pure e) fun next => next.kind = kind :=
      (Written.reads h hlen l).weaken fun next hnext => by rw [hnext]; exact hgoesOn
    refine .unlessSome hend hread fun next _ hkind => ?_
    obtain ⟨t, us, rfl, ht⟩ := Passage.Written.starts_expression h
    rw [ahead_cons] at hkind
    rw [hkind, hstarts] at ht
    cases ht

theorem InitialWritten.leads {e : Option Expr} (h : InitialWritten room e ts)
    (hlen : ts.length ≤ w) :
    Leads l (behind? .equal (conditional w room)) ts (pure e) fun next =>
      next.kind = .semicolon := by
  cases e with
  | none =>
    cases h
    exact Leads.behindNone.weaken fun next hnext => by rw [hnext]; decide
  | some e =>
    obtain ⟨equals, us, hequals, he, rfl⟩ := h
    have hread := (he.reads (Nat.le_of_succ_le hlen) l).weaken
      fun next (hnext : next.kind = .semicolon) =>
      show Tier.conditional.goesOn next.kind = false by rw [hnext]; rfl
    exact .behindSome hequals (by decide) hread

theorem VariableWritten.leads {s : Stmt} (h : VariableWritten room s ts) (hlen : ts.length ≤ w) :
    Leads l (variableDecl w room) ts (pure s) fun _ => True := by
  cases h with
  | mk hroom hname hinitial hsemicolon =>
    unfold variableDecl
    exact .need hroom <| .expect hname (by decide) <|
      .bind (hinitial.leads (by simp at hlen; omega))
        (.expect hsemicolon (by decide) (.refl _ _)) fun _ _ => hsemicolon

/-- An expression is read up to its semicolon. -/
theorem expressionStatement_leads {e : Expr} {semicolon : Token}
    (h : Written (.expr .expression e) room ts) (hlen : ts.length ≤ w)
    (hsemicolon : semicolon.kind = .semicolon) :
    Leads l (expressionStatement w room) (ts ++ [semicolon]) (pure (.expression e)) fun _ => True :=
  .bind (h.reads hlen l) (.expect hsemicolon (by decide) (.refl _ _)) fun _ _ => by
    rw [ahead_cons, hsemicolon]
    rfl

theorem FirstWritten.leads {s : Option Stmt} (h : FirstWritten room s ts) (hlen : ts.length ≤ w) :
    Leads l (forInitial w room) ts (pure s) fun _ => True := by
  unfold forInitial
  cases h with
  | none hsemicolon => exact .accept hsemicolon (by decide) (.refl _ _)
  | var hkeyword hs =>
    exact .decline (fun _ _ => by rw [ahead_cons, hkeyword]; decide) <|
      .accept hkeyword (by decide) (hs.leads (Nat.le_of_succ_le hlen)).step
  | @expression e semicolon us he hsemicolon =>
    have hread : Leads l (do return some (← expressionStatement w room)) (us ++ [semicolon])
        (pure (some (.expression e))) fun _ => True :=
      (expressionStatement_leads he (by simp at hlen; omega) hsemicolon).step
    obtain ⟨t, us, rfl, ht⟩ := Passage.Written.starts_expression he
    refine .decline (fun _ _ hkind => ?_) (.decline (fun _ _ hkind => ?_) hread) <;>
    · rw [List.cons_append, ahead_cons] at hkind
      rw [hkind] at ht
      cases ht

/-- A parameter is read as its token. -/
theorem parameter_leads {what : String} {p : Token} {P : Token → Prop}
    (hp : p.kind = .identifier) : Leads l (expect .identifier what) [p] (pure p) P := by
  have hread : Leads l (expect .identifier what >>= pure) [p] (pure p) P :=
    .expect hp (by decide) (.refl _ _)
  rwa [bind_pure] at hread

theorem ParamsWritten.leads {what item : String} {params : List Token}
    (h : ParamsWritten params ts) (hlen : ts.length < w) :
    ∃ ps : Option (List Token), ps.getD [] = params ∧
      Leads l (unless? .rightParen (commaList item (expect .identifier what) w [])) ts (pure ps)
        fun next => next.kind = .rightParen := by
  rcases h with ⟨rfl, rfl⟩ | ⟨hparams, hlimit⟩
  · exact ⟨none, rfl, .unlessNone (by decide)⟩
  · refine ⟨some params, rfl, .unlessSome (by decide) (.commaList (Q := fun _ => True)
      (fun _ _ => trivial) (fun _ hclose => ⟨trivial, by rw [hclose]; decide⟩) ?_ w []
      (Nat.le_trans hparams.length_le hlen) (by simpa using hlimit)) fun next _ => ?_⟩
    · refine hparams.imp fun p ts hp => ?_
      obtain ⟨rfl, hp⟩ := hp
      exact parameter_leads hp
    · cases hparams with
      | one hp =>
        obtain ⟨rfl, hp⟩ := hp
        rw [ahead_cons, hp]
        decide
      | more hp =>
        obtain ⟨rfl, hp⟩ := hp
        rw [List.singleton_append, ahead_cons, hp]
        decide

theorem SuperclassWritten.leads {r : Option Reference} (h : SuperclassWritten r ts) :
    ∃ name : Option Token, name.map (⟨·, none⟩) = r ∧
      Leads l (behind? .less (expect .identifier "superclass name")) ts (pure name)
        fun next => next.kind = .leftBrace := by
  cases r with
  | none =>
    cases h
    exact ⟨none, rfl, Leads.behindNone.weaken fun _ hnext => by rw [hnext]; decide⟩
  | some r =>
    obtain ⟨less, name, hless, hname, rfl, rfl⟩ := h
    exact ⟨some name, rfl, .behindSome hless (by decide) (parameter_leads hname)⟩

/-! ## Statements -/

/-- An open statement has no `else` behind it. -/
def Pauses (isOpen : Bool) (next : Token) : Prop := isOpen = true → next.kind ≠ .elseWord

/-- What an item of a list begins with, so that the one before it has ended. -/
def Begins (next : Token) : Prop :=
  next.kind ≠ .elseWord ∧ next.kind ≠ .rightBrace ∧ next.isEnd = false

/-- **A passage is read.** -/
def Passage.IsRead (w l room : Nat) (ts : List Token) : Passage → Prop
  | .statement s isOpen => Leads l (Grammar.statement w room) ts (pure s) (Pauses isOpen)
  | .declaration s isOpen =>
    Leads l (Grammar.declaration w room) ts (pure (some s)) (Pauses isOpen)
  | .declarations ss => Series (fun s ts => Leads l (Grammar.declaration w room) ts (pure (some s))
      (fun next => next.kind ≠ .elseWord) ∧ ∀ z, Begins (ahead ts z)) ss ts
  | .body ss => Leads l (block w room) ts (pure ss) fun _ => True
  | .function d => ∀ kind, Leads l (functionDecl w room kind (block w room)) ts (pure d)
      fun _ => True
  | .methods ds => Series (fun d ts => Leads l (functionDecl w room .method (block w room)) ts
      (pure d) (fun _ => True) ∧ ∀ z, Begins (ahead ts z)) ds ts

/-- What begins a declaration ends the one before it. -/
theorem begins_of_startsDeclaration {t : Token} (h : startsDeclaration t.kind) : Begins t := by
  unfold Begins Token.isEnd
  revert h
  cases t.kind <;> decide

namespace Passage.IsRead

theorem expression {e : Expr} {semicolon : Token}
    (he : Grammar.Written (.expr .expression e) (room + 1) ts)
    (hlen : (ts ++ [semicolon]).length ≤ w) (hsemicolon : semicolon.kind = .semicolon) :
    Leads l (Grammar.statement w (room + 4)) (ts ++ [semicolon]) (pure (.expression e))
      fun _ => True := by
  have hroom := he.six_le
  have hread := expressionStatement_leads (w := w) (l := l) he (by simp at hlen; omega) hsemicolon
  unfold Grammar.statement
  refine .need (show 4 ≤ room + 2 by omega) (.decline? (fun next _ => ?_) hread)
  obtain ⟨t, us, rfl, ht⟩ := he.head
  rw [List.cons_append, ahead_cons]
  revert ht
  show (isUnaryOperator t.kind || startsCall t.kind) = true → _
  cases t.kind <;> decide

theorem print {e : Expr} {keyword semicolon : Token} (hkeyword : keyword.kind = .printWord)
    (he : Grammar.Written (.expr .expression e) (room + 1) ts)
    (hlen : (ts ++ [semicolon]).length < w) (hsemicolon : semicolon.kind = .semicolon) :
    Leads l (Grammar.statement w (room + 4)) (keyword :: (ts ++ [semicolon])) (pure (.print e))
      fun _ => True := by
  have hroom := he.six_le
  unfold Grammar.statement
  refine .need (show 4 ≤ room + 2 by omega) (.accept? rfl (by rw [hkeyword]; rfl) ?_)
  simp only [hkeyword]
  refine .bind (he.reads (by simp at hlen; omega) l) (.expect hsemicolon (by decide) (.refl _ _))
    fun _ _ => ?_
  rw [ahead_cons, hsemicolon]
  rfl

theorem leave {keyword semicolon : Token} (hkeyword : keyword.kind = .breakWord) (hl : 0 < l)
    (hsemicolon : semicolon.kind = .semicolon) :
    Leads l (Grammar.statement w (room + 7)) [keyword, semicolon] (pure (.leave keyword))
      fun _ => True := by
  unfold Grammar.statement
  refine .need (show 4 ≤ room + 5 by omega) (.accept? rfl (by rw [hkeyword]; rfl) ?_)
  simp only [hkeyword]
  refine .need (show 4 ≤ room + 4 by omega) (.get fun c hc => ?_)
  rw [if_neg (by omega)]
  exact .expect hsemicolon (by decide) (.refl _ _)

theorem giveBack {e : Option Expr} {keyword semicolon : Token}
    (hkeyword : keyword.kind = .returnWord) (he : ClauseWritten (room + 4) e ts)
    (hlen : (ts ++ [semicolon]).length < w) (hsemicolon : semicolon.kind = .semicolon) :
    Leads l (Grammar.statement w (room + 7)) (keyword :: (ts ++ [semicolon]))
      (pure (.giveBack keyword e)) fun _ => True := by
  unfold Grammar.statement
  refine .need (show 4 ≤ room + 5 by omega) (.accept? rfl (by rw [hkeyword]; rfl) ?_)
  simp only [hkeyword]
  exact .bind (he.leads (by simp at hlen; omega) (by decide) rfl rfl)
    (.need (show 4 ≤ room + 4 by omega) (.expect hsemicolon (by decide) (.refl _ _)))
    fun _ _ => hsemicolon

theorem loop {test : Expr} {body : Stmt} {keyword left right : Token} {us : List Token}
    {P : Token → Prop} (hkeyword : keyword.kind = .whileWord) (hleft : left.kind = .leftParen)
    (htest : Grammar.Written (.expr .expression test) (room + 1) ts)
    (hlen : ts.length ≤ w) (hright : right.kind = .rightParen)
    (hbody : Leads (l + 1) (Grammar.statement w room) us (pure body) P) :
    Leads l (Grammar.statement w (room + 4)) (keyword :: left :: (ts ++ right :: us))
      (pure (.loop test body)) P := by
  have hroom := htest.six_le
  unfold Grammar.statement
  refine .need (show 4 ≤ room + 2 by omega) (.accept? rfl (by rw [hkeyword]; rfl) ?_)
  simp only [hkeyword]
  refine .need (show 4 ≤ room + 1 by omega) <| .expect hleft (by decide) <|
    .bind (htest.reads hlen l) (.expect hright (by decide) <|
      .last (.withLoops hbody) (.refl _ _) fun _ hnext => hnext) fun _ _ => ?_
  rw [ahead_cons, hright]
  rfl

theorem branch {test : Expr} {yes : Stmt} {keyword left right : Token} {us : List Token}
    {isOpen : Bool} (hkeyword : keyword.kind = .ifWord) (hleft : left.kind = .leftParen)
    (htest : Grammar.Written (.expr .expression test) (room + 1) ts) (hlen : ts.length ≤ w)
    (hright : right.kind = .rightParen)
    (hyes : Leads l (Grammar.statement w (room + 1)) us (pure yes) (Pauses isOpen)) :
    Leads l (Grammar.statement w (room + 4)) (keyword :: left :: (ts ++ right :: us))
      (pure (.branch test yes none)) fun next => next.kind ≠ .elseWord := by
  have hroom := htest.six_le
  unfold Grammar.statement
  refine .need (show 4 ≤ room + 2 by omega) (.accept? rfl (by rw [hkeyword]; rfl) ?_)
  simp only [hkeyword]
  refine .need (show 4 ≤ room + 1 by omega) <| .expect hleft (by decide) <|
    .bind (htest.reads hlen l) (.expect hright (by decide) <|
      .last hyes (.stay .behindNone (.refl _ _) fun _ hnext => hnext)
        fun _ hnext _ => hnext) fun _ _ => ?_
  rw [ahead_cons, hright]
  rfl

theorem branchElse {test : Expr} {yes no : Stmt} {keyword left right other : Token}
    {us vs : List Token} {isOpen : Bool} (hkeyword : keyword.kind = .ifWord)
    (hleft : left.kind = .leftParen)
    (htest : Grammar.Written (.expr .expression test) (room + 1) ts) (hlen : ts.length ≤ w)
    (hright : right.kind = .rightParen)
    (hyes : Leads l (Grammar.statement w (room + 1)) us (pure yes) (Pauses false))
    (hother : other.kind = .elseWord)
    (hno : Leads l (Grammar.statement w (room + 1)) vs (pure no) (Pauses isOpen)) :
    Leads l (Grammar.statement w (room + 4))
      (keyword :: left :: (ts ++ right :: (us ++ other :: vs)))
      (pure (.branch test yes (some no))) (Pauses isOpen) := by
  have hroom := htest.six_le
  unfold Grammar.statement
  refine .need (show 4 ≤ room + 2 by omega) (.accept? rfl (by rw [hkeyword]; rfl) ?_)
  simp only [hkeyword]
  refine .need (show 4 ≤ room + 1 by omega) <| .expect hleft (by decide) <|
    .bind (htest.reads hlen l) (.expect hright (by decide) <|
      .bind hyes (.last (.behindSome hother (by decide) hno) (.refl _ _) fun _ hnext => hnext)
        fun _ _ h => absurd h Bool.false_ne_true) fun _ _ => ?_
  rw [ahead_cons, hright]
  rfl

theorem forLoop {initial : Option Stmt} {test increment : Option Expr} {body : Stmt}
    {keyword left semicolon right : Token} {us vs ws : List Token} {P : Token → Prop}
    (hkeyword : keyword.kind = .forWord) (hleft : left.kind = .leftParen)
    (hinitial : FirstWritten room initial ts) (htest : ClauseWritten (room + 1) test us)
    (hsemicolon : semicolon.kind = .semicolon) (hincrement : ClauseWritten (room + 1) increment vs)
    (hright : right.kind = .rightParen) (hroom : 3 ≤ room)
    (hlen : (ts ++ (us ++ semicolon :: (vs ++ right :: ws))).length ≤ w)
    (hbody : Leads (l + 1) (Grammar.statement w room) ws (pure body) P) :
    Leads l (Grammar.statement w (room + 4))
      (keyword :: left :: (ts ++ (us ++ semicolon :: (vs ++ right :: ws))))
      (pure (.forLoop initial test increment body)) P := by
  unfold Grammar.statement
  refine .need (show 4 ≤ room + 2 by omega) (.accept? rfl (by rw [hkeyword]; rfl) ?_)
  simp only [hkeyword]
  simp only [List.length_append, List.length_cons] at hlen
  exact .need (show 4 ≤ room + 1 by omega) <| .expect hleft (by decide) <|
    .bind (hinitial.leads (by omega))
      (.bind (htest.leads (by omega) (by decide) rfl rfl) (.expect hsemicolon (by decide) <|
        .bind (hincrement.leads (by omega) (by decide) rfl rfl) (.expect hright (by decide) <|
          .last (.withLoops hbody) (.refl _ _) fun _ hnext => hnext) fun _ _ => hright)
        fun _ _ => hsemicolon) fun _ _ => trivial

theorem block {ss : List Stmt} {brace : Token} (hbrace : brace.kind = .leftBrace)
    (hroom : 2 ≤ room) (hbody : Leads l (Grammar.block w (room + 2)) ts (pure ss) fun _ => True) :
    Leads l (Grammar.statement w (room + 4)) (brace :: ts) (pure (.block ss)) fun _ => True := by
  unfold Grammar.statement
  refine .need (show 4 ≤ room + 2 by omega) (.accept? rfl (by rw [hbrace]; rfl) ?_)
  simp only [hbrace]
  exact .last hbody (.refl _ _) fun _ _ => trivial

/-! ## Declarations -/

theorem ofStatement {s : Stmt} {P : Token → Prop} (hroom : 1 ≤ room)
    (hhead : ∃ t us, ts = t :: us ∧ startsStatement t.kind)
    (h : Leads l (Grammar.statement w (room + 3)) ts (pure s) P) :
    Leads l (Grammar.declaration w (room + 5)) ts (pure (some s)) P := by
  obtain ⟨t, us, rfl, ht⟩ := hhead
  have hne {kind : TokenKind} (hkind : startsStatement kind = false) (next : Token) (_ : P next) :
      (ahead (t :: us) next).kind ≠ kind := by
    rintro rfl
    rw [show startsStatement t.kind = false from hkind] at ht
    cases ht
  unfold Grammar.declaration
  exact .orResume <| .need (show 4 ≤ room + 3 by omega) <| .decline (hne rfl) <|
    .decline (hne rfl) <| .decline (hne rfl) h

theorem var {s : Stmt} {keyword : Token} (hkeyword : keyword.kind = .varWord)
    (hs : VariableWritten (room + 2) s ts) (hlen : ts.length ≤ w) :
    Leads l (Grammar.declaration w (room + 5)) (keyword :: ts) (pure (some s)) fun _ => True := by
  have hroom : 4 ≤ room + 2 := by
    cases hs
    assumption
  have hne {kind : TokenKind} (hkind : .varWord ≠ kind) (next : Token) (_ : True) :
      (ahead (keyword :: ts) next).kind ≠ kind := by
    rwa [ahead_cons, hkeyword]
  unfold Grammar.declaration
  exact .orResume <| .need (show 4 ≤ room + 3 by omega) <| .decline (hne (by decide)) <|
    .decline (hne (by decide)) <| .accept hkeyword (by decide) (hs.leads hlen)

theorem function {d : FunDecl} {keyword : Token} (hkeyword : keyword.kind = .funWord)
    (hroom : 1 ≤ room)
    (hd : Leads l (functionDecl w (room + 1) .function (Grammar.block w (room + 1))) ts (pure d)
      fun _ => True) :
    Leads l (Grammar.declaration w (room + 5)) (keyword :: ts) (pure (some (.function d)))
      fun _ => True := by
  have hne (next : Token) (_ : True) : (ahead (keyword :: ts) next).kind ≠ .classWord := by
    rw [ahead_cons, hkeyword]
    decide
  unfold Grammar.declaration
  exact .orResume <| .need (show 4 ≤ room + 3 by omega) <| .decline hne <|
    .accept hkeyword (by decide) <| .last hd (.refl _ _) fun _ _ => trivial

/-- A reader of methods reads each as an item. -/
theorem method_item {d : FunDecl} {p : Reader FunDecl} (hd : Leads l p ts (pure d) fun _ => True) :
    Leads l (do return some (← p)) ts (pure (some d)) fun _ => True :=
  .last hd (.refl _ _) fun _ _ => trivial

theorem classDecl {keyword name left right : Token} {superclass : Option Reference}
    {ds : List FunDecl} {us : List Token} (hkeyword : keyword.kind = .classWord) (hroom : 2 ≤ room)
    (hname : name.kind = .identifier) (hsuper : SuperclassWritten superclass ts)
    (hleft : left.kind = .leftBrace) (hds : Passage.IsRead w l room us (.methods ds))
    (hright : right.kind = .rightBrace) (hlen : us.length ≤ w) :
    Leads l (Grammar.declaration w (room + 5))
      (keyword :: name :: (ts ++ left :: (us ++ [right])))
      (pure (some (.classDecl name superclass ds))) fun _ => True := by
  obtain ⟨parent, rfl, hparent⟩ := hsuper.leads (l := l)
  have hmethods := Leads.untilBrace (Q := Begins) (P := fun _ => True)
    (fun _ h => ⟨trivial, h.2.1, h.2.2⟩) (fun _ _ => trivial)
    (hds.imp fun d ts hd => ⟨method_item hd.1, hd.2⟩) w [] (Nat.le_trans hds.length_le hlen)
  unfold Grammar.declaration Grammar.classDecl
  exact .orResume <| .need (show 4 ≤ room + 3 by omega) <| .accept hkeyword (by decide) <|
    .need (show 4 ≤ room + 2 by omega) <| .expect hname (by decide) <|
    .bind hparent (.expect hleft (by decide) <|
      .bind hmethods (.expect hright (by decide) (.refl _ _)) fun _ _ => hright) fun _ _ => hleft

/-! ## Bodies -/

theorem body {ss : List Stmt} {right : Token} (hroom : 4 ≤ room)
    (hss : Passage.IsRead w l room ts (.declarations ss)) (hright : right.kind = .rightBrace)
    (hlen : ts.length ≤ w) :
    Leads l (Grammar.block w (room + 2)) (ts ++ [right]) (pure ss) fun _ => True := by
  have hread := Leads.untilBrace (Q := Begins) (fun _ h => h)
    (fun _ hbrace => by rw [hbrace]; decide) hss w [] (Nat.le_trans hss.length_le hlen)
  unfold Grammar.block
  exact .need hroom <| .bind hread (.expect hright (by decide) (.refl _ _)) fun _ _ => hright

theorem functionDecl {name left right brace : Token} {params : List Token} {ss : List Stmt}
    {us : List Token} {kind : FunctionKind} (hname : name.kind = .identifier)
    (hleft : left.kind = .leftParen) (hparams : ParamsWritten params ts)
    (hright : right.kind = .rightParen) (hbrace : brace.kind = .leftBrace) (hroom : 4 ≤ room)
    (hlen : ts.length < w) (hss : Leads 0 (Grammar.block w room) us (pure ss) fun _ => True) :
    Leads l (Grammar.functionDecl w room kind (Grammar.block w room))
      (name :: left :: (ts ++ right :: brace :: us)) (pure (.mk name params ss)) fun _ => True := by
  obtain ⟨ps, rfl, hps⟩ := hparams.leads (l := l) hlen
  unfold Grammar.functionDecl
  exact .need hroom <| .expect hname (by decide) <| .expect hleft (by decide) <|
    .bind hps (.expect hright (by decide) <| .expect hbrace (by decide) <|
      .last (.withLoops hss) (.refl _ _) fun _ _ => trivial) fun _ _ => hright

end Passage.IsRead

/-- **What is written is read**, if the list of tokens is wide enough. -/
theorem Passage.Written.leads {φ : Passage} (h : φ.Written l room ts) (hlen : ts.length ≤ w) :
    φ.IsRead w l room ts := by
  induction h with
  | expression he hsemicolon =>
    exact (IsRead.expression he hlen hsemicolon).weaken fun _ _ => trivial
  | print hk he hsemicolon => exact (IsRead.print hk he hlen hsemicolon).weaken fun _ _ => trivial
  | leave hk hl hsemicolon => exact (IsRead.leave hk hl hsemicolon).weaken fun _ _ => trivial
  | giveBack hk he hsemicolon =>
    exact (IsRead.giveBack hk he hlen hsemicolon).weaken fun _ _ => trivial
  | loop hk hleft htest hright _ ih =>
    exact IsRead.loop hk hleft htest (by simp at hlen; omega) hright (ih (by simp at hlen; omega))
  | branch hk hleft htest hright _ ih =>
    exact (IsRead.branch hk hleft htest (by simp at hlen; omega) hright
      (ih (by simp at hlen; omega))).weaken fun _ hnext => hnext rfl
  | branchElse hk hleft htest hright _ hother _ ihy ihn =>
    exact IsRead.branchElse hk hleft htest (by simp at hlen; omega) hright
      (ihy (by simp at hlen; omega)) hother (ihn (by simp at hlen; omega))
  | forLoop hk hleft hfirst htest hsemicolon hincrement hright hbody ih =>
    have hroom := hbody.six_le rfl
    exact IsRead.forLoop hk hleft hfirst htest hsemicolon hincrement hright (by omega)
      (by simp at hlen ⊢; omega) (ih (by simp at hlen; omega))
  | block hbrace hbody ih =>
    have hroom := hbody.six_le rfl
    exact (IsRead.block hbrace (by omega) (ih (Nat.le_of_succ_le hlen))).weaken fun _ _ => trivial
  | ofStatement hs ih =>
    have hroom := hs.six_le rfl
    exact IsRead.ofStatement (by omega) (hs.head rfl) (ih hlen)
  | var hk hs =>
    exact (IsRead.var hk hs (Nat.le_of_succ_le hlen)).weaken fun _ _ => trivial
  | function hk hd ih =>
    have hroom := hd.six_le rfl
    exact (IsRead.function hk (by omega) (ih (Nat.le_of_succ_le hlen) .function)).weaken
      fun _ _ => trivial
  | classDecl hk hroom hname hsuper hleft _ hright ih =>
    exact (IsRead.classDecl hk hroom hname hsuper hleft (ih (by simp at hlen; omega)) hright
      (by simp at hlen; omega)).weaken fun _ _ => trivial
  | noDeclarations | noMethods => exact .nil
  | moreDeclarations hs _ ih ihs =>
    refine .cons ⟨(ih (by simp at hlen; omega)).weaken fun _ hnext _ => hnext, fun z => ?_⟩
      (hs.ne_nil rfl) (ihs (by simp at hlen; omega))
    obtain ⟨t, us, rfl, ht⟩ := hs.head rfl
    exact begins_of_startsDeclaration ht
  | body hroom _ hright ih =>
    exact IsRead.body hroom (ih (by simp at hlen; omega)) hright (by simp at hlen; omega)
  | functionDecl hname hleft hparams hright hbrace hbody ih =>
    have hroom := hbody.six_le rfl
    exact fun kind => IsRead.functionDecl hname hleft hparams hright hbrace (by omega)
      (by simp at hlen; omega) (ih (by simp at hlen; omega))
  | moreMethods hd _ ih ihs =>
    refine .cons ⟨ih (by simp at hlen; omega) .method, fun z => ?_⟩ ?_
      (ihs (by simp at hlen; omega))
    · cases hd with
      | functionDecl hname =>
        unfold Begins Token.isEnd
        rw [ahead_cons, hname]
        decide
    · cases hd
      exact List.cons_ne_nil _ _

/-! ## A whole program -/

/-- Top-level declarations are read up to the end. -/
theorem topLevels_lead {ss : List Stmt} (h : Passage.IsRead w l room ts (.declarations ss)) :
    ∀ n done, ss.length ≤ n →
      Leads l (topLevels w room n done) ts (pure (done.reverse ++ ss)) (·.isEnd) := by
  induction h with
  | nil =>
    intro n done _
    rw [List.append_nil]
    cases n with
    | zero => exact .refl _ _
    | succ n => exact .stay (.atEnd true) (.refl _ _) fun _ hnext => hnext
  | @cons s ss ts us hs hne hrest ih =>
    intro n done hn
    obtain ⟨n, rfl⟩ : ∃ m, n = m + 1 := ⟨n - 1, (Nat.sub_add_cancel (Nat.zero_lt_of_lt hn)).symm⟩
    have hread := ih n (s :: done) (Nat.le_of_succ_le_succ hn)
    rw [List.reverse_cons, List.append_assoc, List.singleton_append] at hread
    have hnext (next : Token) (hend : next.isEnd) : (ahead us next).kind ≠ .elseWord := by
      cases hrest with
      | nil =>
        rw [ahead_nil, beq_iff_eq.mp hend]
        decide
      | cons hs' =>
        rw [ahead_append]
        exact (hs'.2 _).1
    unfold topLevels
    refine .stay (.atEnd false) (.bind (.orGiveUp hs.1) hread hnext) fun next _ => ?_
    rw [ahead_append]
    exact (hs.2 _).2.2

/-- Reading a top-level declaration is never cut off. -/
theorem topLevel_ok (c : Cursor) : ∃ s d, topLevel w room c = .ok s d := by
  have hfault : ∀ d, declaration w room c ≠ .error .fault d := by
    intro d h
    match room with
    | 0 | 1 | 2 | 3 | 4 => cases h
    | r + 5 =>
      unfold declaration orResume at h
      split at h <;> cases h
  unfold topLevel orGiveUp
  cases hrun : declaration w room c with
  | ok s d => exact ⟨s, d, rfl⟩
  | error e d =>
    cases e with
    | fault => exact absurd hrun (hfault d)
    | tooDeep => exact ⟨_, _, rfl⟩

/-- Reading a program is never cut off. -/
theorem topLevels_ok : ∀ n done (c : Cursor), ∃ p d, topLevels w room n done c = .ok p d := by
  intro n
  induction n with
  | zero => exact fun done c => ⟨_, c, rfl⟩
  | succ n ih =>
    intro done c
    have hend : atEnd c = .ok c.atEnd c := rfl
    unfold topLevels
    rw [bind_ok hend]
    cases c.atEnd with
    | true => exact ⟨_, c, rfl⟩
    | false =>
      obtain ⟨s, d, hs⟩ : ∃ s d, topLevel w room c = .ok s d := topLevel_ok c
      rw [if_neg Bool.false_ne_true, bind_ok hs]
      cases s with
      | none => exact ih done d
      | some s => exact ih (s :: done) d

end Grammar

open Grammar

/-- **The program that a token list is read as**, with no fault, is the one whose declarations the
tokens in front of the closing one write. -/
theorem Program.ofTokens_iff {room : Nat} {p : Program} {ts beyond : List Token} {z : Token}
    (hz : z.isEnd) (hts : ∀ t ∈ ts, t.isEnd = false) :
    Program.ofTokens room (ts ++ z :: beyond) = ⟨p, []⟩ ↔
      Passage.Written (.declarations p) 0 room ts := by
  have hlen : ts.length < (ts ++ z :: beyond).length := by simp
  unfold Program.ofTokens
  constructor
  · intro h
    have htakes : Takes (ts ++ z :: beyond).length 0
        (topLevels (ts ++ z :: beyond).length room (ts ++ z :: beyond).length []) fun p ts next =>
          Passage.Written (.declarations p) 0 room ts ∧ next.isEnd :=
      (Takes.of_bounded (.topLevels _ [])).mono fun _ _ _ h => by
        obtain ⟨new, rfl, hnew⟩ := h
        exact hnew
    dsimp only at h
    obtain ⟨p', d, hrun⟩ := topLevels_ok (ts ++ z :: beyond).length [] { rest := ts ++ z :: beyond }
    rw [hrun] at h
    obtain ⟨rfl, hnil⟩ : p' = p ∧ d.diagnostics = [] := by simpa using h
    exact htakes.whole hlen hz hts hrun hnil
  · intro h
    have hread := h.leads (Nat.le_of_lt hlen)
    have hrun := topLevels_lead hread _ [] (Nat.le_trans hread.length_le (Nat.le_of_lt hlen))
      (z :: beyond) [] hz
    dsimp only
    rw [hrun]
    rfl

end LoxKit
