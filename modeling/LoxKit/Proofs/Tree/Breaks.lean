import LoxKit.Grammar.Statement

/-!
# The breaks of a program

Each `break` of a program stands inside a loop of its function or does not.  A function body begins
anew, and code at the top level counts as one body.
-/
namespace LoxKit

/-- **A `break` of a program**: its keyword, and whether a loop encloses it within its function. -/
structure Break where
  keyword : Token
  enclosed : Bool
  deriving DecidableEq

mutual

/-- **The breaks of a statement**, in order, of which a loop of the same function encloses the
statement if `enclosed`. -/
def Stmt.breaks (enclosed : Bool) : Stmt → List Break
  | .leave k => [⟨k, enclosed⟩]
  | .block body => Stmt.breaksAll enclosed body
  | .branch _ y none => y.breaks enclosed
  | .branch _ y (some n) => y.breaks enclosed ++ n.breaks enclosed
  | .loop _ body => body.breaks true
  | .function d => d.breaks
  | .classDecl _ _ ms => FunDecl.breaksAll ms
  | .expression _ | .print _ | .var _ _ | .giveBack _ _ => []

/-- The breaks of some statements. -/
def Stmt.breaksAll (enclosed : Bool) : List Stmt → List Break
  | [] => []
  | s :: ss => s.breaks enclosed ++ Stmt.breaksAll enclosed ss

/-- The breaks of a function. -/
def FunDecl.breaks : FunDecl → List Break
  | .mk _ _ body => Stmt.breaksAll false body

/-- The breaks of some functions. -/
def FunDecl.breaksAll : List FunDecl → List Break
  | [] => []
  | d :: ds => d.breaks ++ FunDecl.breaksAll ds

end

theorem Stmt.breaksAll_eq_flatMap (enclosed : Bool) (ss : List Stmt) :
    Stmt.breaksAll enclosed ss = ss.flatMap (Stmt.breaks enclosed) := by
  induction ss with
  | nil => rfl
  | cons s ss ih => rw [Stmt.breaksAll, ih, List.flatMap_cons]

theorem FunDecl.breaksAll_eq_flatMap (ds : List FunDecl) :
    FunDecl.breaksAll ds = ds.flatMap FunDecl.breaks := by
  induction ds with
  | nil => rfl
  | cons d ds ih => rw [FunDecl.breaksAll, ih, List.flatMap_cons]

/-- The breaks of a loop with its clauses: those of the initializer, and those of the body, which
the loop encloses. -/
theorem Stmt.breaks_forLoop (enclosed : Bool) (initial : Option Stmt)
    (test increment : Option Expr) (body : Stmt) :
    (Stmt.forLoop initial test increment body).breaks enclosed =
      initial.elim [] (Stmt.breaks enclosed) ++ body.breaks true := by
  cases initial <;> cases increment <;>
    simp [Stmt.forLoop, Stmt.breaks, Stmt.breaksAll]

end LoxKit
