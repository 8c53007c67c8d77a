import LoxKit.Tree.Basic

/-!
# Programs without their line numbers

The line of a token says where in the source text it ends.  It is shown in messages and has no
other effect, so two programs that differ in their lines alone are the same program at two
places.  A tree with all its lines erased (`Stmt.unlined`) is what they have in common.
-/
namespace LoxKit

/-- A token that stands nowhere. -/
def Token.unlined (t : Token) : Token := { t with line := 0 }

@[simp] theorem Token.unlined_kind (t : Token) : t.unlined.kind = t.kind := rfl

@[simp] theorem Token.unlined_lexeme (t : Token) : t.unlined.lexeme = t.lexeme := rfl

@[simp] theorem Token.unlined_unlined (t : Token) : t.unlined.unlined = t.unlined := rfl

/-- Tokens that differ in their lines alone are of the same kind. -/
theorem Token.kind_of_unlined {t t' : Token} (h : t.unlined = t'.unlined) : t.kind = t'.kind :=
  show t.unlined.kind = t'.unlined.kind by rw [h]

/-- A reference to a name that stands nowhere. -/
def Reference.unlined (r : Reference) : Reference := { r with name := r.name.unlined }

@[simp] theorem Reference.unlined_name (r : Reference) : r.unlined.name = r.name.unlined := rfl

@[simp] theorem Reference.unlined_hops (r : Reference) : r.unlined.hops = r.hops := rfl

mutual

/-- **An expression without its lines.** -/
def Expr.unlined : Expr → Expr
  | .literal v => .literal v
  | .name r => .name r.unlined
  | .assign r v => .assign r.unlined v.unlined
  | .unary op e => .unary op.unlined e.unlined
  | .binary l op r => .binary l.unlined op.unlined r.unlined
  | .logical l op r => .logical l.unlined op.unlined r.unlined
  | .conditional t y n => .conditional t.unlined y.unlined n.unlined
  | .call f paren args => .call f.unlined paren.unlined (Expr.unlinedAll args)
  | .get o p => .get o.unlined p.unlined
  | .set o p v => .set o.unlined p.unlined v.unlined
  | .group e => .group e.unlined
  | .self r => .self r.unlined
  | .super r m => .super r.unlined m.unlined

/-- Expressions without their lines. -/
def Expr.unlinedAll : List Expr → List Expr
  | [] => []
  | e :: es => e.unlined :: Expr.unlinedAll es

end

mutual

/-- **A statement without its lines.** -/
def Stmt.unlined : Stmt → Stmt
  | .expression e => .expression e.unlined
  | .print e => .print e.unlined
  | .var n e => .var n.unlined (e.map Expr.unlined)
  | .block body => .block (Stmt.unlinedAll body)
  | .branch t y none => .branch t.unlined y.unlined none
  | .branch t y (some n) => .branch t.unlined y.unlined (some n.unlined)
  | .loop t body => .loop t.unlined body.unlined
  | .leave k => .leave k.unlined
  | .giveBack k e => .giveBack k.unlined (e.map Expr.unlined)
  | .function d => .function d.unlined
  | .classDecl n s ms => .classDecl n.unlined (s.map Reference.unlined) (FunDecl.unlinedAll ms)

/-- Statements without their lines. -/
def Stmt.unlinedAll : List Stmt → List Stmt
  | [] => []
  | s :: ss => s.unlined :: Stmt.unlinedAll ss

/-- A function without its lines. -/
def FunDecl.unlined : FunDecl → FunDecl
  | .mk n ps body => .mk n.unlined (ps.map Token.unlined) (Stmt.unlinedAll body)

/-- Functions without their lines. -/
def FunDecl.unlinedAll : List FunDecl → List FunDecl
  | [] => []
  | d :: ds => d.unlined :: FunDecl.unlinedAll ds

end

theorem Expr.unlinedAll_eq_map (es : List Expr) : Expr.unlinedAll es = es.map Expr.unlined := by
  induction es with
  | nil => rfl
  | cons e es ih => rw [Expr.unlinedAll, List.map_cons, ih]

theorem Stmt.unlinedAll_eq_map (ss : List Stmt) : Stmt.unlinedAll ss = ss.map Stmt.unlined := by
  induction ss with
  | nil => rfl
  | cons s ss ih => rw [Stmt.unlinedAll, List.map_cons, ih]

theorem FunDecl.unlinedAll_eq_map (ds : List FunDecl) :
    FunDecl.unlinedAll ds = ds.map FunDecl.unlined := by
  induction ds with
  | nil => rfl
  | cons d ds ih => rw [FunDecl.unlinedAll, List.map_cons, ih]

/-- Both arms of a branch without their lines. -/
theorem Stmt.unlined_branch (t : Expr) (y : Stmt) (n : Option Stmt) :
    (Stmt.branch t y n).unlined = .branch t.unlined y.unlined (n.map Stmt.unlined) := by
  cases n <;> rw [Stmt.unlined] <;> rfl

namespace FunDecl

@[simp] theorem unlined_name (d : FunDecl) : d.unlined.name = d.name.unlined := by
  cases d
  rw [unlined]
  rfl

@[simp] theorem unlined_params (d : FunDecl) : d.unlined.params = d.params.map Token.unlined := by
  cases d
  rw [unlined]
  rfl

@[simp] theorem unlined_body (d : FunDecl) : d.unlined.body = Stmt.unlinedAll d.body := by
  cases d
  rw [unlined]
  rfl

@[simp] theorem unlined_arity (d : FunDecl) : d.unlined.arity = d.arity := by
  simp [arity]

@[simp] theorem unlined_isInitializer (d : FunDecl) :
    d.unlined.isInitializer = d.isInitializer := by
  simp [isInitializer]

end FunDecl
end LoxKit
