import LoxKit.Proofs.Tree.Unlined

/-!
# Programs on other lines

The same tokens may stand on other lines.  A tree whose lines are told anew (`Stmt.moved`) is the
same tree, so whatever numbers the tokens may also number the places of a tree.
-/
namespace LoxKit

/-- A token on another line. -/
def Token.moved (m : Int → Int) (t : Token) : Token := { t with line := m t.line }

/-- A reference on another line. -/
def Reference.moved (m : Int → Int) (r : Reference) : Reference := { r with name := r.name.moved m }

section

variable (m : Int → Int)

@[simp] theorem Token.moved_kind (t : Token) : (t.moved m).kind = t.kind := rfl
@[simp] theorem Token.moved_lexeme (t : Token) : (t.moved m).lexeme = t.lexeme := rfl
@[simp] theorem Token.moved_isEnd (t : Token) : (t.moved m).isEnd = t.isEnd := rfl

@[simp] theorem Reference.moved_name (r : Reference) : (r.moved m).name = r.name.moved m := rfl

mutual

/-- **An expression on other lines.** -/
def Expr.moved : Expr → Expr
  | .literal v => .literal v
  | .name r => .name (r.moved m)
  | .assign r v => .assign (r.moved m) v.moved
  | .unary op e => .unary (op.moved m) e.moved
  | .binary l op r => .binary l.moved (op.moved m) r.moved
  | .logical l op r => .logical l.moved (op.moved m) r.moved
  | .conditional t y n => .conditional t.moved y.moved n.moved
  | .call f paren args => .call f.moved (paren.moved m) (Expr.movedAll args)
  | .get o p => .get o.moved (p.moved m)
  | .set o p v => .set o.moved (p.moved m) v.moved
  | .group e => .group e.moved
  | .self r => .self (r.moved m)
  | .super r n => .super (r.moved m) (n.moved m)

/-- Expressions on other lines. -/
def Expr.movedAll : List Expr → List Expr
  | [] => []
  | e :: es => e.moved :: Expr.movedAll es

end

mutual

/-- **A statement on other lines.** -/
def Stmt.moved : Stmt → Stmt
  | .expression e => .expression (e.moved m)
  | .print e => .print (e.moved m)
  | .var n e => .var (n.moved m) (e.map (Expr.moved m))
  | .block body => .block (Stmt.movedAll body)
  | .branch t y none => .branch (t.moved m) y.moved none
  | .branch t y (some n) => .branch (t.moved m) y.moved (some n.moved)
  | .loop t body => .loop (t.moved m) body.moved
  | .leave k => .leave (k.moved m)
  | .giveBack k e => .giveBack (k.moved m) (e.map (Expr.moved m))
  | .function d => .function d.moved
  | .classDecl n s ms =>
    .classDecl (n.moved m) (s.map (Reference.moved m)) (FunDecl.movedAll ms)

/-- Statements on other lines. -/
def Stmt.movedAll : List Stmt → List Stmt
  | [] => []
  | s :: ss => s.moved :: Stmt.movedAll ss

/-- A function on other lines. -/
def FunDecl.moved : FunDecl → FunDecl
  | .mk n ps body => .mk (n.moved m) (ps.map (Token.moved m)) (Stmt.movedAll body)

/-- Functions on other lines. -/
def FunDecl.movedAll : List FunDecl → List FunDecl
  | [] => []
  | d :: ds => d.moved :: FunDecl.movedAll ds

end

theorem Expr.movedAll_eq_map (es : List Expr) : Expr.movedAll m es = es.map (Expr.moved m) := by
  induction es with
  | nil => rfl
  | cons e es ih => rw [Expr.movedAll, List.map_cons, ih]

theorem Stmt.movedAll_eq_map (ss : List Stmt) : Stmt.movedAll m ss = ss.map (Stmt.moved m) := by
  induction ss with
  | nil => rfl
  | cons s ss ih => rw [Stmt.movedAll, List.map_cons, ih]

theorem FunDecl.movedAll_eq_map (ds : List FunDecl) :
    FunDecl.movedAll m ds = ds.map (FunDecl.moved m) := by
  induction ds with
  | nil => rfl
  | cons d ds ih => rw [FunDecl.movedAll, List.map_cons, ih]

namespace FunDecl

@[simp] theorem moved_name (d : FunDecl) : (d.moved m).name = d.name.moved m := by
  cases d
  rw [moved]
  rfl

@[simp] theorem moved_isInitializer (d : FunDecl) :
    (d.moved m).isInitializer = d.isInitializer := by
  simp [isInitializer]

end FunDecl

/-- Both arms of a branch on other lines. -/
theorem Stmt.moved_branch (t : Expr) (y : Stmt) (n : Option Stmt) :
    (Stmt.branch t y n).moved m = .branch (t.moved m) (y.moved m) (n.map (Stmt.moved m)) := by
  cases n <;> rw [Stmt.moved] <;> rfl

end

/-! ## All on the same line -/

mutual

/-- Lines that are all told as 0 are erased. -/
theorem Expr.moved_zero : (e : Expr) → e.moved (fun _ => 0) = e.unlined
  | .literal _ | .name _ | .self _ | .super _ _ => rfl
  | .assign r v => by rw [moved, unlined, v.moved_zero]; rfl
  | .unary op e => by rw [moved, unlined, e.moved_zero]; rfl
  | .binary l op r => by rw [moved, unlined, l.moved_zero, r.moved_zero]; rfl
  | .logical l op r => by rw [moved, unlined, l.moved_zero, r.moved_zero]; rfl
  | .conditional t y n => by rw [moved, unlined, t.moved_zero, y.moved_zero, n.moved_zero]
  | .call f paren args => by rw [moved, unlined, f.moved_zero, movedAll_zero args]; rfl
  | .get o p => by rw [moved, unlined, o.moved_zero]; rfl
  | .set o p v => by rw [moved, unlined, o.moved_zero, v.moved_zero]; rfl
  | .group e => by rw [moved, unlined, e.moved_zero]

theorem Expr.movedAll_zero : (es : List Expr) → movedAll (fun _ => 0) es = unlinedAll es
  | [] => rfl
  | e :: es => by rw [movedAll, unlinedAll, e.moved_zero, movedAll_zero es]

end

theorem Expr.map_moved_zero (e : Option Expr) :
    e.map (Expr.moved fun _ => 0) = e.map Expr.unlined := by
  cases e with
  | none => rfl
  | some e => exact congrArg some e.moved_zero

mutual

theorem Stmt.moved_zero : (s : Stmt) → s.moved (fun _ => 0) = s.unlined
  | .expression e | .print e => by rw [Stmt.moved, Stmt.unlined, e.moved_zero]
  | .var n e => by rw [Stmt.moved, Stmt.unlined, Expr.map_moved_zero]; rfl
  | .block body => by rw [Stmt.moved, Stmt.unlined, Stmt.movedAll_zero body]
  | .branch t y none => by rw [Stmt.moved, Stmt.unlined, t.moved_zero, y.moved_zero]
  | .branch t y (some n) => by rw [Stmt.moved, Stmt.unlined, t.moved_zero, y.moved_zero, n.moved_zero]
  | .loop t body => by rw [Stmt.moved, Stmt.unlined, t.moved_zero, body.moved_zero]
  | .leave _ => rfl
  | .giveBack k e => by rw [Stmt.moved, Stmt.unlined, Expr.map_moved_zero]; rfl
  | .function d => by rw [Stmt.moved, Stmt.unlined, d.moved_zero]
  | .classDecl n s ms => by rw [Stmt.moved, Stmt.unlined, FunDecl.movedAll_zero ms]; rfl

theorem Stmt.movedAll_zero :
    (ss : List Stmt) → Stmt.movedAll (fun _ => 0) ss = Stmt.unlinedAll ss
  | [] => rfl
  | s :: ss => by rw [Stmt.movedAll, Stmt.unlinedAll, s.moved_zero, Stmt.movedAll_zero ss]

theorem FunDecl.moved_zero : (d : FunDecl) → d.moved (fun _ => 0) = d.unlined
  | .mk n ps body => by rw [FunDecl.moved, FunDecl.unlined, Stmt.movedAll_zero body]; rfl

theorem FunDecl.movedAll_zero :
    (ds : List FunDecl) → FunDecl.movedAll (fun _ => 0) ds = FunDecl.unlinedAll ds
  | [] => rfl
  | d :: ds => by rw [FunDecl.movedAll, FunDecl.unlinedAll, d.moved_zero, FunDecl.movedAll_zero ds]

end
end LoxKit
