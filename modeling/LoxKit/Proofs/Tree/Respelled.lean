import LoxKit.Proofs.Tree.Renaming

/-!
# Trees that differ in the spelling of names

Before resolution nothing in a tree says which variable a name stands for.  So of a tree with
variables renamed (`Stmt.Renamed`) all that is left without its distances is that some of the
names are spelled anew (`Stmt.Renamed.respelled_bare`).
-/
namespace LoxKit

/-- **A token is perhaps spelled anew.** -/
def Renaming.Spells (R : Renaming) (t t' : Token) : Prop := ∃ mark, t' = R.token mark t

theorem Renaming.Spells.refl (R : Renaming) (t : Token) : R.Spells t t := ⟨false, rfl⟩

theorem Renaming.Spells.kind {R : Renaming} {t t' : Token} (h : R.Spells t t') :
    t'.kind = t.kind := by
  obtain ⟨mark, rfl⟩ := h
  rfl

mutual

/-- **An expression with some names spelled anew.** -/
inductive Expr.Respelled (R : Renaming) : Expr → Expr → Prop where
  | literal (v : Literal) : Expr.Respelled R (.literal v) (.literal v)
  | name {t t' : Token} : R.Spells t t' → Expr.Respelled R (.name ⟨t, none⟩) (.name ⟨t', none⟩)
  | assign {t t' : Token} {v v' : Expr} : R.Spells t t' → Expr.Respelled R v v' →
    Expr.Respelled R (.assign ⟨t, none⟩ v) (.assign ⟨t', none⟩ v')
  | unary {e e' : Expr} (op : Token) : Expr.Respelled R e e' →
    Expr.Respelled R (.unary op e) (.unary op e')
  | binary {l l' r r' : Expr} (op : Token) : Expr.Respelled R l l' → Expr.Respelled R r r' →
    Expr.Respelled R (.binary l op r) (.binary l' op r')
  | logical {l l' r r' : Expr} (op : Token) : Expr.Respelled R l l' → Expr.Respelled R r r' →
    Expr.Respelled R (.logical l op r) (.logical l' op r')
  | conditional {t t' y y' n n' : Expr} : Expr.Respelled R t t' → Expr.Respelled R y y' →
    Expr.Respelled R n n' → Expr.Respelled R (.conditional t y n) (.conditional t' y' n')
  | call {f f' : Expr} {args args' : List Expr} (paren : Token) : Expr.Respelled R f f' →
    Expr.AllRespelled R args args' → Expr.Respelled R (.call f paren args) (.call f' paren args')
  | get {o o' : Expr} (p : Token) : Expr.Respelled R o o' →
    Expr.Respelled R (.get o p) (.get o' p)
  | set {o o' v v' : Expr} (p : Token) : Expr.Respelled R o o' → Expr.Respelled R v v' →
    Expr.Respelled R (.set o p v) (.set o' p v')
  | group {e e' : Expr} : Expr.Respelled R e e' → Expr.Respelled R (.group e) (.group e')
  | self {t t' : Token} : R.Spells t t' → Expr.Respelled R (.self ⟨t, none⟩) (.self ⟨t', none⟩)
  | super {t t' : Token} (m : Token) : R.Spells t t' →
    Expr.Respelled R (.super ⟨t, none⟩ m) (.super ⟨t', none⟩ m)

/-- Expressions with some names spelled anew. -/
inductive Expr.AllRespelled (R : Renaming) : List Expr → List Expr → Prop where
  | nil : Expr.AllRespelled R [] []
  | cons {e e' : Expr} {es es' : List Expr} : Expr.Respelled R e e' →
    Expr.AllRespelled R es es' → Expr.AllRespelled R (e :: es) (e' :: es')

end

mutual

/-- **A statement with some names spelled anew.** -/
inductive Stmt.Respelled (R : Renaming) : Stmt → Stmt → Prop where
  | expression {e e' : Expr} : e.Respelled R e' → Stmt.Respelled R (.expression e) (.expression e')
  | print {e e' : Expr} : e.Respelled R e' → Stmt.Respelled R (.print e) (.print e')
  | var {n n' : Token} {e e' : Option Expr} : R.Spells n n' → Option.Rel (Expr.Respelled R) e e' →
    Stmt.Respelled R (.var n e) (.var n' e')
  | block {body body' : List Stmt} : Stmt.AllRespelled R body body' →
    Stmt.Respelled R (.block body) (.block body')
  | branch {t t' : Expr} {y y' : Stmt} : t.Respelled R t' → Stmt.Respelled R y y' →
    Stmt.Respelled R (.branch t y none) (.branch t' y' none)
  | branchElse {t t' : Expr} {y y' n n' : Stmt} : t.Respelled R t' → Stmt.Respelled R y y' →
    Stmt.Respelled R n n' → Stmt.Respelled R (.branch t y (some n)) (.branch t' y' (some n'))
  | loop {t t' : Expr} {body body' : Stmt} : t.Respelled R t' → Stmt.Respelled R body body' →
    Stmt.Respelled R (.loop t body) (.loop t' body')
  | leave (k : Token) : Stmt.Respelled R (.leave k) (.leave k)
  | giveBack {e e' : Option Expr} (k : Token) : Option.Rel (Expr.Respelled R) e e' →
    Stmt.Respelled R (.giveBack k e) (.giveBack k e')
  | function {d d' : FunDecl} : FunDecl.Respelled R d d' →
    Stmt.Respelled R (.function d) (.function d')
  | classDecl {ms ms' : List FunDecl} (n : Token) : FunDecl.AllRespelled R ms ms' →
    Stmt.Respelled R (.classDecl n none ms) (.classDecl n none ms')
  | derived {t t' : Token} {ms ms' : List FunDecl} (n : Token) : R.Spells t t' →
    FunDecl.AllRespelled R ms ms' →
    Stmt.Respelled R (.classDecl n (some ⟨t, none⟩) ms) (.classDecl n (some ⟨t', none⟩) ms')

/-- Statements with some names spelled anew. -/
inductive Stmt.AllRespelled (R : Renaming) : List Stmt → List Stmt → Prop where
  | nil : Stmt.AllRespelled R [] []
  | cons {s s' : Stmt} {ss ss' : List Stmt} : Stmt.Respelled R s s' →
    Stmt.AllRespelled R ss ss' → Stmt.AllRespelled R (s :: ss) (s' :: ss')

/-- A function with some names spelled anew, but not its own. -/
inductive FunDecl.Respelled (R : Renaming) : FunDecl → FunDecl → Prop where
  | mk {ps ps' : List Token} {body body' : List Stmt} (n : Token) :
    List.Forall₂ R.Spells ps ps' → Stmt.AllRespelled R body body' →
    FunDecl.Respelled R (.mk n ps body) (.mk n ps' body')

/-- Functions with some names spelled anew. -/
inductive FunDecl.AllRespelled (R : Renaming) : List FunDecl → List FunDecl → Prop where
  | nil : FunDecl.AllRespelled R [] []
  | cons {d d' : FunDecl} {ds ds' : List FunDecl} : FunDecl.Respelled R d d' →
    FunDecl.AllRespelled R ds ds' → FunDecl.AllRespelled R (d :: ds) (d' :: ds')

end

theorem Expr.AllRespelled.length {R : Renaming} {es es' : List Expr}
    (h : Expr.AllRespelled R es es') : es'.length = es.length := by
  induction es generalizing es' with
  | nil =>
    cases h
    rfl
  | cons e es ih =>
    cases h with
    | cons _ hes => exact congrArg (· + 1) (ih hes)

/-! ## Renamed trees without their distances -/

section

variable (R : Renaming) (marks : Marks)

theorem Renaming.spells_reference (r : Reference) :
    R.Spells r.name (R.reference marks r).name := ⟨_, rfl⟩

mutual

theorem Renaming.respelled_expr : (e : Expr) → e.bare.Respelled R (R.expr marks e).bare
  | .literal v => .literal v
  | .name r => .name (R.spells_reference marks r)
  | .assign r v => .assign (R.spells_reference marks r) (Renaming.respelled_expr v)
  | .unary op e => .unary op (Renaming.respelled_expr e)
  | .binary l op r => .binary op (Renaming.respelled_expr l) (Renaming.respelled_expr r)
  | .logical l op r => .logical op (Renaming.respelled_expr l) (Renaming.respelled_expr r)
  | .conditional t y n => .conditional (Renaming.respelled_expr t) (Renaming.respelled_expr y)
      (Renaming.respelled_expr n)
  | .call f paren args => .call paren (Renaming.respelled_expr f) (Renaming.respelled_exprs args)
  | .get o p => .get p (Renaming.respelled_expr o)
  | .set o p v => .set p (Renaming.respelled_expr o) (Renaming.respelled_expr v)
  | .group e => .group (Renaming.respelled_expr e)
  | .self r => .self (R.spells_reference marks r)
  | .super r m => .super m (R.spells_reference marks r)

theorem Renaming.respelled_exprs :
    (es : List Expr) → Expr.AllRespelled R (Expr.bareAll es) (Expr.bareAll (R.exprs marks es))
  | [] => .nil
  | e :: es => .cons (Renaming.respelled_expr e) (Renaming.respelled_exprs es)

end

theorem Renaming.rel_map_expr (e : Option Expr) :
    Option.Rel (Expr.Respelled R) (e.map Expr.bare) ((e.map (R.expr marks)).map Expr.bare) := by
  cases e with
  | none => exact .none
  | some e => exact .some (R.respelled_expr marks e)

theorem Renaming.forall₂_token (mark : Bool) (ps : List Token) :
    List.Forall₂ R.Spells ps (ps.map (R.token mark)) := by
  rw [List.forall₂_map_right_iff]
  exact List.forall₂_same.mpr fun p _ => ⟨mark, rfl⟩

end

mutual

/-- **A renamed statement without its distances** has some names spelled anew. -/
theorem Stmt.Renamed.respelled_bare {R : Renaming} {marks : Marks} :
    (s : Stmt) → {s' : Stmt} → s.Renamed R marks s' → s.bare.Respelled R s'.bare
  | .expression e, _, h => by
    cases h
    exact .expression (R.respelled_expr marks e)
  | .print e, _, h => by
    cases h
    exact .print (R.respelled_expr marks e)
  | .var n e, _, h => by
    cases h
    exact .var ⟨_, rfl⟩ (R.rel_map_expr marks e)
  | .block body, _, h => by
    cases h with
    | block mark hbody => exact .block (Stmt.AllRenamed.respelled_bare body hbody)
  | .branch t y none, _, h => by
    cases h with
    | branch _ hy => exact .branch (R.respelled_expr marks t) (Stmt.Renamed.respelled_bare y hy)
  | .branch t y (some n), _, h => by
    cases h with
    | branchElse _ hy hn =>
      exact .branchElse (R.respelled_expr marks t) (Stmt.Renamed.respelled_bare y hy)
        (Stmt.Renamed.respelled_bare n hn)
  | .loop t body, _, h => by
    cases h with
    | loop _ hbody =>
      exact .loop (R.respelled_expr marks t) (Stmt.Renamed.respelled_bare body hbody)
  | .leave k, _, h => by
    cases h
    exact .leave k
  | .giveBack k e, _, h => by
    cases h
    exact .giveBack k (R.rel_map_expr marks e)
  | .function d, _, h => by
    cases h with
    | function _ hd => exact .function (FunDecl.Renamed.respelled_bare d hd)
  | .classDecl n none ms, _, h => by
    cases h with
    | classDecl _ _ hms => exact .classDecl n (FunDecl.AllRenamed.respelled_bare ms hms)
  | .classDecl n (some r) ms, _, h => by
    cases h with
    | classDecl _ _ hms =>
      exact .derived n (R.spells_reference marks r) (FunDecl.AllRenamed.respelled_bare ms hms)

theorem Stmt.AllRenamed.respelled_bare {R : Renaming} {marks : Marks} :
    (ss : List Stmt) → {ss' : List Stmt} → Stmt.AllRenamed R marks ss ss' →
      Stmt.AllRespelled R (Stmt.bareAll ss) (Stmt.bareAll ss')
  | [], _, h => by
    cases h
    exact .nil
  | s :: ss, _, h => by
    cases h with
    | cons hs hss =>
      exact .cons (Stmt.Renamed.respelled_bare s hs) (Stmt.AllRenamed.respelled_bare ss hss)

theorem FunDecl.Renamed.respelled_bare {R : Renaming} {marks : Marks} :
    (d : FunDecl) → {d' : FunDecl} → d.Renamed R marks d' → d.bare.Respelled R d'.bare
  | .mk n ps body, _, h => by
    cases h with
    | mk _ _ mark hbody =>
      exact .mk n (R.forall₂_token mark ps) (Stmt.AllRenamed.respelled_bare body hbody)

theorem FunDecl.AllRenamed.respelled_bare {R : Renaming} {marks : Marks} :
    (ds : List FunDecl) → {ds' : List FunDecl} → FunDecl.AllRenamed R marks ds ds' →
      FunDecl.AllRespelled R (FunDecl.bareAll ds) (FunDecl.bareAll ds')
  | [], _, h => by
    cases h
    exact .nil
  | d :: ds, _, h => by
    cases h with
    | cons hd hds =>
      exact .cons (FunDecl.Renamed.respelled_bare d hd) (FunDecl.AllRenamed.respelled_bare ds hds)

end
end LoxKit
