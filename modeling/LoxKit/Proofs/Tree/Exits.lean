import LoxKit.Proofs.Tree.Shape

/-!
# Ways out of statements

A statement may be left before its end by a `break`, for the innermost loop around it, or by a
`return`, for the innermost call (`Exit`).  Its text shows whether that can happen: the keyword
stands in it, outside the bodies of its functions, and outside its loops if it is a `break`
(`Stmt.Exits`).  In an enclosed statement, no `break` leaves the body of a function
(`Stmt.Enclosed`).
-/
namespace LoxKit

/-- **A way out of a statement** before its end. -/
inductive Exit where
  | leave | giveBack
  deriving DecidableEq

mutual

/-- **The text of a statement has such a way out.**  A loop lets no `break` out, and a function
lets nothing out. -/
def Stmt.Exits (x : Exit) : Stmt → Prop
  | .leave _ => x = .leave
  | .giveBack _ _ => x = .giveBack
  | .block body => Stmt.AnyExits x body
  | .branch _ y none => y.Exits x
  | .branch _ y (some n) => y.Exits x ∨ n.Exits x
  | .loop _ body => x ≠ .leave ∧ body.Exits x
  | .expression _ | .print _ | .var _ _ | .function _ | .classDecl _ _ _ => False

/-- One of the statements has such a way out. -/
def Stmt.AnyExits (x : Exit) : List Stmt → Prop
  | [] => False
  | s :: ss => s.Exits x ∨ Stmt.AnyExits x ss

end

theorem Stmt.anyExits_iff {x : Exit} {ss : List Stmt} :
    Stmt.AnyExits x ss ↔ ∃ s ∈ ss, s.Exits x := by
  induction ss with
  | nil => simp [Stmt.AnyExits]
  | cons s ss ih => simp [Stmt.AnyExits, ih]

mutual

/-- The ways out of a statement have nothing to do with distances. -/
theorem Stmt.exits_bare (x : Exit) : (s : Stmt) → (s.bare.Exits x ↔ s.Exits x)
  | .expression _ | .print _ | .var _ _ | .leave _ | .giveBack _ _ | .function _
  | .classDecl _ _ _ => Iff.rfl
  | .block body => Stmt.anyExits_bareAll x body
  | .branch _ y none => y.exits_bare x
  | .branch _ y (some n) => or_congr (y.exits_bare x) (n.exits_bare x)
  | .loop _ body => and_congr_right' (body.exits_bare x)

theorem Stmt.anyExits_bareAll (x : Exit) :
    (ss : List Stmt) → (Stmt.AnyExits x (Stmt.bareAll ss) ↔ Stmt.AnyExits x ss)
  | [] => Iff.rfl
  | s :: ss => or_congr (s.exits_bare x) (Stmt.anyExits_bareAll x ss)

end

/-! ## Enclosed statements -/

mutual

/-- **In all functions of a statement, each `break` stands inside a loop** of the function. -/
def Stmt.Enclosed : Stmt → Prop
  | .block body => Stmt.AllEnclosed body
  | .branch _ y none => y.Enclosed
  | .branch _ y (some n) => y.Enclosed ∧ n.Enclosed
  | .loop _ body => body.Enclosed
  | .function d => d.Enclosed
  | .classDecl _ _ ms => FunDecl.AllEnclosed ms
  | .expression _ | .print _ | .var _ _ | .leave _ | .giveBack _ _ => True

/-- Enclosed statements. -/
def Stmt.AllEnclosed : List Stmt → Prop
  | [] => True
  | s :: ss => s.Enclosed ∧ Stmt.AllEnclosed ss

/-- A function of enclosed statements that no `break` leaves. -/
def FunDecl.Enclosed : FunDecl → Prop
  | .mk _ _ body => ¬Stmt.AnyExits .leave body ∧ Stmt.AllEnclosed body

/-- Enclosed functions. -/
def FunDecl.AllEnclosed : List FunDecl → Prop
  | [] => True
  | d :: ds => d.Enclosed ∧ FunDecl.AllEnclosed ds

end

theorem Stmt.allEnclosed_iff {ss : List Stmt} : Stmt.AllEnclosed ss ↔ ∀ s ∈ ss, s.Enclosed := by
  induction ss with
  | nil => simp [Stmt.AllEnclosed]
  | cons s ss ih => simp [Stmt.AllEnclosed, ih]

theorem FunDecl.allEnclosed_iff {ds : List FunDecl} :
    FunDecl.AllEnclosed ds ↔ ∀ d ∈ ds, d.Enclosed := by
  induction ds with
  | nil => simp [FunDecl.AllEnclosed]
  | cons d ds ih => simp [FunDecl.AllEnclosed, ih]

theorem FunDecl.enclosed_iff (d : FunDecl) :
    d.Enclosed ↔ ¬Stmt.AnyExits .leave d.body ∧ Stmt.AllEnclosed d.body := by
  cases d
  exact Iff.rfl

mutual

/-- To be enclosed has nothing to do with distances. -/
theorem Stmt.enclosed_bare : (s : Stmt) → (s.bare.Enclosed ↔ s.Enclosed)
  | .expression _ | .print _ | .var _ _ | .leave _ | .giveBack _ _ => Iff.rfl
  | .block body => Stmt.allEnclosed_bareAll body
  | .branch _ y none => y.enclosed_bare
  | .branch _ y (some n) => and_congr y.enclosed_bare n.enclosed_bare
  | .loop _ body => body.enclosed_bare
  | .function d => d.enclosed_bare
  | .classDecl _ _ ms => FunDecl.allEnclosed_bareAll ms

theorem Stmt.allEnclosed_bareAll :
    (ss : List Stmt) → (Stmt.AllEnclosed (Stmt.bareAll ss) ↔ Stmt.AllEnclosed ss)
  | [] => Iff.rfl
  | s :: ss => and_congr s.enclosed_bare (Stmt.allEnclosed_bareAll ss)

theorem FunDecl.enclosed_bare : (d : FunDecl) → (d.bare.Enclosed ↔ d.Enclosed)
  | .mk _ _ body =>
    and_congr (not_congr (Stmt.anyExits_bareAll .leave body)) (Stmt.allEnclosed_bareAll body)

theorem FunDecl.allEnclosed_bareAll :
    (ds : List FunDecl) → (FunDecl.AllEnclosed (FunDecl.bareAll ds) ↔ FunDecl.AllEnclosed ds)
  | [] => Iff.rfl
  | d :: ds => and_congr d.enclosed_bare (FunDecl.allEnclosed_bareAll ds)

end
end LoxKit
