import LoxKit.Proofs.Grammar.Takes
import LoxKit.Proofs.Grammar.Written

/-!
# Statements and the tokens that write them

Which tokens write which statements, said without a reader (`Passage.Written`), as `Written`
says it of expressions.  A statement is open if it ends with a branch that has only one arm: an
`else` behind it would be the other one.  So the first of two arms is never open.

A passage stands inside so many loops of its function body, and in some room.  What is written
in some room is written in any larger one (`Passage.Written.mono`).
-/
namespace LoxKit
namespace Grammar

/-- **What is made of statements**: a statement, a declaration, or several of them, the body of
a function or a block up to its closing brace, a function from its name on, and the methods of
a class. -/
inductive Passage where
  | statement (s : Stmt) (isOpen : Bool)
  | declaration (s : Stmt) (isOpen : Bool)
  | declarations (ss : List Stmt)
  | body (ss : List Stmt)
  | function (d : FunDecl)
  | methods (ds : List FunDecl)

/-! ## Parts without statements -/

/-- The tokens of an expression that may be absent. -/
def ClauseWritten (room : Nat) : Option Expr → List Token → Prop
  | none, ts => ts = []
  | some e, ts => Written (.expr .expression e) room ts

/-- The tokens of an initializer with its equals sign, which may be absent. -/
def InitialWritten (room : Nat) : Option Expr → List Token → Prop
  | none, ts => ts = []
  | some e, ts => ∃ equals us, equals.kind = .equal ∧ Written (.expr .conditional e) room us ∧
      ts = equals :: us

/-- The tokens of a variable declaration behind `var`. -/
inductive VariableWritten (room : Nat) : Stmt → List Token → Prop where
  | mk {name semicolon : Token} {initial : Option Expr} {ts : List Token} : 4 ≤ room →
    name.kind = .identifier → InitialWritten room initial ts → semicolon.kind = .semicolon →
    VariableWritten room (.var name initial) (name :: (ts ++ [semicolon]))

/-- The tokens of the first clause of a `for` statement, with its semicolon. -/
inductive FirstWritten (room : Nat) : Option Stmt → List Token → Prop where
  | none {semicolon : Token} : semicolon.kind = .semicolon → FirstWritten room none [semicolon]
  | var {keyword : Token} {s : Stmt} {ts : List Token} : keyword.kind = .varWord →
    VariableWritten room s ts → FirstWritten room (some s) (keyword :: ts)
  | expression {e : Expr} {semicolon : Token} {ts : List Token} :
    Written (.expr .expression e) room ts → semicolon.kind = .semicolon →
    FirstWritten room (some (.expression e)) (ts ++ [semicolon])

/-- The tokens of parameters. -/
def ParamsWritten (params : List Token) (ts : List Token) : Prop :=
  params = [] ∧ ts = [] ∨
    CommaList (fun (p : Token) ts => ts = [p] ∧ p.kind = .identifier) params ts ∧
      params.length ≤ listLimit

/-- The tokens of a superclass, which may be absent. -/
def SuperclassWritten : Option Reference → List Token → Prop
  | none, ts => ts = []
  | some r, ts => ∃ less name : Token, less.kind = .less ∧ name.kind = .identifier ∧
      r = ⟨name, none⟩ ∧ ts = [less, name]

/-! ## Passages -/

/-- **The tokens that write a passage** inside so many loops, in some room. -/
inductive Passage.Written : Passage → Nat → Nat → List Token → Prop where
  | expression {e : Expr} {semicolon : Token} {l room : Nat} {ts : List Token} :
    Grammar.Written (.expr .expression e) (room + 1) ts → semicolon.kind = .semicolon →
    Passage.Written (.statement (.expression e) false) l (room + 4) (ts ++ [semicolon])
  | print {e : Expr} {keyword semicolon : Token} {l room : Nat} {ts : List Token} :
    keyword.kind = .printWord → Grammar.Written (.expr .expression e) (room + 1) ts →
    semicolon.kind = .semicolon →
    Passage.Written (.statement (.print e) false) l (room + 4) (keyword :: (ts ++ [semicolon]))
  | leave {keyword semicolon : Token} {l room : Nat} :
    keyword.kind = .breakWord → 0 < l → semicolon.kind = .semicolon →
    Passage.Written (.statement (.leave keyword) false) l (room + 7) [keyword, semicolon]
  | giveBack {e : Option Expr} {keyword semicolon : Token} {l room : Nat} {ts : List Token} :
    keyword.kind = .returnWord → ClauseWritten (room + 4) e ts → semicolon.kind = .semicolon →
    Passage.Written (.statement (.giveBack keyword e) false) l (room + 7)
      (keyword :: (ts ++ [semicolon]))
  | loop {test : Expr} {body : Stmt} {isOpen : Bool} {keyword left right : Token} {l room : Nat}
      {ts us : List Token} :
    keyword.kind = .whileWord → left.kind = .leftParen →
    Grammar.Written (.expr .expression test) (room + 1) ts → right.kind = .rightParen →
    Passage.Written (.statement body isOpen) (l + 1) room us →
    Passage.Written (.statement (.loop test body) isOpen) l (room + 4)
      (keyword :: left :: (ts ++ right :: us))
  | branch {test : Expr} {yes : Stmt} {isOpen : Bool} {keyword left right : Token} {l room : Nat}
      {ts us : List Token} :
    keyword.kind = .ifWord → left.kind = .leftParen →
    Grammar.Written (.expr .expression test) (room + 1) ts → right.kind = .rightParen →
    Passage.Written (.statement yes isOpen) l (room + 1) us →
    Passage.Written (.statement (.branch test yes none) true) l (room + 4)
      (keyword :: left :: (ts ++ right :: us))
  | branchElse {test : Expr} {yes no : Stmt} {isOpen : Bool} {keyword left right other : Token}
      {l room : Nat} {ts us vs : List Token} :
    keyword.kind = .ifWord → left.kind = .leftParen →
    Grammar.Written (.expr .expression test) (room + 1) ts → right.kind = .rightParen →
    Passage.Written (.statement yes false) l (room + 1) us → other.kind = .elseWord →
    Passage.Written (.statement no isOpen) l (room + 1) vs →
    Passage.Written (.statement (.branch test yes (some no)) isOpen) l (room + 4)
      (keyword :: left :: (ts ++ right :: (us ++ other :: vs)))
  | forLoop {initial : Option Stmt} {test increment : Option Expr} {body : Stmt} {isOpen : Bool}
      {keyword left semicolon right : Token} {l room : Nat} {ts us vs ws : List Token} :
    keyword.kind = .forWord → left.kind = .leftParen → FirstWritten room initial ts →
    ClauseWritten (room + 1) test us → semicolon.kind = .semicolon →
    ClauseWritten (room + 1) increment vs → right.kind = .rightParen →
    Passage.Written (.statement body isOpen) (l + 1) room ws →
    Passage.Written (.statement (.forLoop initial test increment body) isOpen) l (room + 4)
      (keyword :: left :: (ts ++ (us ++ semicolon :: (vs ++ right :: ws))))
  | block {ss : List Stmt} {brace : Token} {l room : Nat} {ts : List Token} :
    brace.kind = .leftBrace → Passage.Written (.body ss) l (room + 2) ts →
    Passage.Written (.statement (.block ss) false) l (room + 4) (brace :: ts)
  | ofStatement {s : Stmt} {isOpen : Bool} {l room : Nat} {ts : List Token} :
    Passage.Written (.statement s isOpen) l (room + 3) ts →
    Passage.Written (.declaration s isOpen) l (room + 5) ts
  | var {keyword : Token} {s : Stmt} {l room : Nat} {ts : List Token} :
    keyword.kind = .varWord → VariableWritten (room + 2) s ts →
    Passage.Written (.declaration s false) l (room + 5) (keyword :: ts)
  | function {keyword : Token} {d : FunDecl} {l room : Nat} {ts : List Token} :
    keyword.kind = .funWord → Passage.Written (.function d) l (room + 1) ts →
    Passage.Written (.declaration (.function d) false) l (room + 5) (keyword :: ts)
  | classDecl {keyword name left right : Token} {superclass : Option Reference}
      {ds : List FunDecl} {l room : Nat} {ts us : List Token} :
    keyword.kind = .classWord → 2 ≤ room → name.kind = .identifier →
    SuperclassWritten superclass ts → left.kind = .leftBrace →
    Passage.Written (.methods ds) l room us → right.kind = .rightBrace →
    Passage.Written (.declaration (.classDecl name superclass ds) false) l (room + 5)
      (keyword :: name :: (ts ++ left :: (us ++ [right])))
  | noDeclarations {l room : Nat} : Passage.Written (.declarations []) l room []
  | moreDeclarations {s : Stmt} {isOpen : Bool} {ss : List Stmt} {l room : Nat}
      {ts us : List Token} :
    Passage.Written (.declaration s isOpen) l room ts →
    Passage.Written (.declarations ss) l room us →
    Passage.Written (.declarations (s :: ss)) l room (ts ++ us)
  | body {ss : List Stmt} {right : Token} {l room : Nat} {ts : List Token} :
    4 ≤ room → Passage.Written (.declarations ss) l room ts → right.kind = .rightBrace →
    Passage.Written (.body ss) l (room + 2) (ts ++ [right])
  | functionDecl {name left right brace : Token} {params : List Token} {ss : List Stmt}
      {l room : Nat} {ts us : List Token} :
    name.kind = .identifier → left.kind = .leftParen → ParamsWritten params ts →
    right.kind = .rightParen → brace.kind = .leftBrace → Passage.Written (.body ss) 0 room us →
    Passage.Written (.function (.mk name params ss)) l room
      (name :: left :: (ts ++ right :: brace :: us))
  | noMethods {l room : Nat} : Passage.Written (.methods []) l room []
  | moreMethods {d : FunDecl} {ds : List FunDecl} {l room : Nat} {ts us : List Token} :
    Passage.Written (.function d) l room ts → Passage.Written (.methods ds) l room us →
    Passage.Written (.methods (d :: ds)) l room (ts ++ us)

/-! ## More room -/

theorem ClauseWritten.mono {room room' : Nat} {e : Option Expr} {ts : List Token}
    (h : ClauseWritten room e ts) (hroom : room ≤ room') : ClauseWritten room' e ts := by
  cases e with
  | none => exact h
  | some e => exact Grammar.Written.mono h hroom

theorem InitialWritten.mono {room room' : Nat} {e : Option Expr} {ts : List Token}
    (h : InitialWritten room e ts) (hroom : room ≤ room') : InitialWritten room' e ts := by
  cases e with
  | none => exact h
  | some e =>
    obtain ⟨equals, us, hequals, he, rfl⟩ := h
    exact ⟨equals, us, hequals, he.mono hroom, rfl⟩

theorem VariableWritten.mono {room room' : Nat} {s : Stmt} {ts : List Token}
    (h : VariableWritten room s ts) (hroom : room ≤ room') : VariableWritten room' s ts := by
  cases h with
  | mk h4 hname hinitial hsemicolon =>
    exact .mk (Nat.le_trans h4 hroom) hname (hinitial.mono hroom) hsemicolon

theorem FirstWritten.mono {room room' : Nat} {s : Option Stmt} {ts : List Token}
    (h : FirstWritten room s ts) (hroom : room ≤ room') : FirstWritten room' s ts := by
  cases h with
  | none hsemicolon => exact .none hsemicolon
  | var hkeyword hs => exact .var hkeyword (hs.mono hroom)
  | expression he hsemicolon => exact .expression (he.mono hroom) hsemicolon

/-! ## No closing token -/

theorem ClauseWritten.endless {room : Nat} {e : Option Expr} {ts : List Token}
    (h : ClauseWritten room e ts) : ∀ t ∈ ts, t.isEnd = false := by
  cases e with
  | none =>
    cases h
    exact nofun
  | some e => exact Written.endless h

theorem VariableWritten.endless {room : Nat} {s : Stmt} {ts : List Token}
    (h : VariableWritten room s ts) : ∀ t ∈ ts, t.isEnd = false := by
  cases h with
  | @mk _ _ initial _ _ hname hinitial hsemicolon =>
    cases initial with
    | none =>
      cases hinitial
      simp_all [Token.isEnd]
    | some e =>
      obtain ⟨equals, us, hequals, he, rfl⟩ := hinitial
      have := he.endless
      simp_all [Token.isEnd, or_imp]

theorem FirstWritten.endless {room : Nat} {s : Option Stmt} {ts : List Token}
    (h : FirstWritten room s ts) : ∀ t ∈ ts, t.isEnd = false := by
  cases h with
  | none hsemicolon => simp_all [Token.isEnd]
  | var hkeyword hs =>
    have := hs.endless
    simp_all [Token.isEnd]
  | expression he hsemicolon =>
    have := he.endless
    simp_all [Token.isEnd, or_imp]

theorem ParamsWritten.endless {params ts : List Token} (h : ParamsWritten params ts) :
    ∀ t ∈ ts, t.isEnd = false := by
  rcases h with ⟨-, rfl⟩ | ⟨hparams, -⟩
  · exact nofun
  · induction hparams with
    | one hp => simp_all [Token.isEnd]
    | more hp hcomma _ ih => simp_all [Token.isEnd]

theorem SuperclassWritten.endless {r : Option Reference} {ts : List Token}
    (h : SuperclassWritten r ts) : ∀ t ∈ ts, t.isEnd = false := by
  cases r with
  | none =>
    cases h
    exact nofun
  | some r =>
    obtain ⟨_, name, hless, hname, rfl, rfl⟩ := h
    simp_all [Token.isEnd]

/-! ## How passages begin -/

/-- Whether a token of the kind begins a statement. -/
def startsStatement (kind : TokenKind) : Bool :=
  isStatementWord kind || isUnaryOperator kind || startsCall kind

/-- Whether a token of the kind begins a declaration. -/
def startsDeclaration (kind : TokenKind) : Bool :=
  startsStatement kind || kind == .classWord || kind == .funWord || kind == .varWord

/-- Whether a passage is a list, of any number of items. -/
def Passage.isList : Passage → Bool
  | declarations _ | methods _ => true
  | _ => false

/-- Whether a passage is a single statement or declaration. -/
def Passage.isSingle : Passage → Bool
  | statement .. | declaration .. => true
  | _ => false

/-- Whether a token of the kind begins such a passage. -/
def Passage.starts : Passage → TokenKind → Bool
  | statement .. => startsStatement
  | _ => startsDeclaration

namespace Passage.Written

variable {φ : Passage} {l room : Nat} {ts : List Token}

/-- What is written in some room is written in one unit more. -/
theorem succ (h : φ.Written l room ts) : φ.Written l (room + 1) ts := by
  induction h with
  | expression he hsemicolon => exact .expression he.succ hsemicolon
  | print hkeyword he hsemicolon => exact .print hkeyword he.succ hsemicolon
  | @leave _ _ _ room hkeyword hl hsemicolon =>
    exact @leave _ _ _ (room + 1) hkeyword hl hsemicolon
  | @giveBack _ _ _ _ room _ hkeyword he hsemicolon =>
    exact @giveBack _ _ _ _ (room + 1) _ hkeyword (he.mono (Nat.le_succ _)) hsemicolon
  | loop hkeyword hleft htest hright _ ih => exact .loop hkeyword hleft htest.succ hright ih
  | branch hkeyword hleft htest hright _ ih => exact .branch hkeyword hleft htest.succ hright ih
  | branchElse hkeyword hleft htest hright _ hother _ ihy ihn =>
    exact .branchElse hkeyword hleft htest.succ hright ihy hother ihn
  | forLoop hkeyword hleft hfirst htest hsemicolon hincrement hright _ ih =>
    exact .forLoop hkeyword hleft (hfirst.mono (Nat.le_succ _)) (htest.mono (Nat.le_succ _))
      hsemicolon (hincrement.mono (Nat.le_succ _)) hright ih
  | block hbrace _ ih => exact .block hbrace ih
  | ofStatement _ ih => exact .ofStatement ih
  | var hkeyword hs => exact .var hkeyword (hs.mono (Nat.le_succ _))
  | function hkeyword _ ih => exact .function hkeyword ih
  | classDecl hkeyword hroom hname hsuper hleft _ hright ih =>
    exact .classDecl hkeyword (Nat.le_succ_of_le hroom) hname hsuper hleft ih hright
  | noDeclarations => exact .noDeclarations
  | moreDeclarations _ _ ih ihs => exact .moreDeclarations ih ihs
  | body hroom _ hright ih => exact .body (Nat.le_succ_of_le hroom) ih hright
  | functionDecl hname hleft hparams hright hbrace _ ih =>
    exact .functionDecl hname hleft hparams hright hbrace ih
  | noMethods => exact .noMethods
  | moreMethods _ _ ih ihs => exact .moreMethods ih ihs

/-- **What is written in some room is written in any larger one.** -/
theorem mono (h : φ.Written l room ts) {room' : Nat} (hroom : room ≤ room') :
    φ.Written l room' ts := by
  induction hroom with
  | refl => exact h
  | step _ ih => exact ih.succ

/-- What begins an expression begins a statement. -/
theorem starts_expression {e : Expr} (h : Grammar.Written (.expr .expression e) room ts) :
    ∃ t us, ts = t :: us ∧ startsStatement t.kind := by
  obtain ⟨t, us, rfl, ht⟩ := h.head
  refine ⟨t, us, rfl, ?_⟩
  rcases Bool.or_eq_true_iff.mp ht with ht | ht <;> simp [startsStatement, ht]

/-- What begins a statement or a declaration. -/
theorem head (h : φ.Written l room ts) (hφ : φ.isSingle) :
    ∃ t us, ts = t :: us ∧ φ.starts t.kind := by
  induction h with
  | expression he =>
    obtain ⟨t, us, rfl, ht⟩ := starts_expression he
    exact ⟨t, _, rfl, ht⟩
  | ofStatement _ ih =>
    obtain ⟨t, us, rfl, ht⟩ := ih rfl
    refine ⟨t, us, rfl, ?_⟩
    simp only [Passage.starts] at ht ⊢
    simp [startsDeclaration, ht]
  | print hk | leave hk | giveBack hk | loop hk | branch hk | branchElse hk | forLoop hk | block hk
  | var hk | function hk | classDecl hk => exact ⟨_, _, rfl, by rw [hk]; rfl⟩
  | _ => cases hφ

theorem ne_nil (h : φ.Written l room ts) (hφ : φ.isSingle) : ts ≠ [] := by
  obtain ⟨t, us, rfl, -⟩ := h.head hφ
  exact List.cons_ne_nil _ _

/-- Every passage but a list needs the room in which a token is looked at. -/
theorem six_le (h : φ.Written l room ts) (hφ : φ.isList = false) : 6 ≤ room := by
  induction h with
  | expression he | print _ he =>
    have := he.six_le
    omega
  | loop _ _ _ _ _ ih | branch _ _ _ _ _ ih | forLoop _ _ _ _ _ _ _ _ ih | block _ _ ih
  | ofStatement _ ih | function _ _ ih | functionDecl _ _ _ _ _ _ ih =>
    have := ih rfl
    omega
  | branchElse _ _ _ _ _ _ _ ih _ =>
    have := ih rfl
    omega
  | var _ hs =>
    cases hs
    omega
  | noDeclarations | moreDeclarations | noMethods | moreMethods => cases hφ
  | _ => omega

/-- Nothing that is written holds the closing token of a list. -/
theorem endless (h : φ.Written l room ts) : ∀ t ∈ ts, t.isEnd = false := by
  induction h with
  | expression he | print _ he | loop _ _ he | branch _ _ he | branchElse _ _ he | giveBack _ he
  | var _ he | functionDecl _ _ he | classDecl _ _ _ he =>
    have := he.endless
    simp_all [Token.isEnd, or_imp]
  | forLoop _ _ hfirst htest _ hincrement =>
    have := hfirst.endless
    have := htest.endless
    have := hincrement.endless
    simp_all [Token.isEnd, or_imp]
  | _ => simp_all [Token.isEnd, or_imp]

end Passage.Written
end Grammar
end LoxKit
