import LoxKit.Proofs.Tree.Shape

/-!
# The names of a program

The tokens by which a program declares its variables, functions and classes, and refers to them.
A property of all of them (`Stmt.Named`) does not depend on distances (`Stmt.named_bare`).
-/
namespace LoxKit

variable {P : Token → Prop}

mutual

/-- **The names of an expression have a property.** -/
def Expr.Named (P : Token → Prop) : Expr → Prop
  | .literal _ => True
  | .name r | .self r | .super r _ => P r.name
  | .assign r v => P r.name ∧ v.Named P
  | .unary _ e | .get e _ | .group e => e.Named P
  | .binary l _ r | .logical l _ r => l.Named P ∧ r.Named P
  | .conditional t y n => t.Named P ∧ y.Named P ∧ n.Named P
  | .call f _ args => f.Named P ∧ Expr.AllNamed P args
  | .set o _ v => o.Named P ∧ v.Named P

/-- The names of expressions have a property. -/
def Expr.AllNamed (P : Token → Prop) : List Expr → Prop
  | [] => True
  | e :: es => e.Named P ∧ Expr.AllNamed P es

end

mutual

/-- **The names of a statement have a property.** -/
def Stmt.Named (P : Token → Prop) : Stmt → Prop
  | .expression e | .print e => e.Named P
  | .var n e => P n ∧ ∀ e' ∈ e, e'.Named P
  | .block body => Stmt.AllNamed P body
  | .branch t y none => t.Named P ∧ y.Named P
  | .branch t y (some n) => t.Named P ∧ y.Named P ∧ n.Named P
  | .loop t body => t.Named P ∧ body.Named P
  | .leave _ => True
  | .giveBack _ e => ∀ e' ∈ e, e'.Named P
  | .function d => d.Named P
  | .classDecl n s ms => P n ∧ (∀ r ∈ s, P r.name) ∧ FunDecl.AllNamed P ms

/-- The names of statements have a property. -/
def Stmt.AllNamed (P : Token → Prop) : List Stmt → Prop
  | [] => True
  | s :: ss => s.Named P ∧ Stmt.AllNamed P ss

/-- The names of a function have a property. -/
def FunDecl.Named (P : Token → Prop) : FunDecl → Prop
  | .mk n ps body => P n ∧ (∀ p ∈ ps, P p) ∧ Stmt.AllNamed P body

/-- The names of functions have a property. -/
def FunDecl.AllNamed (P : Token → Prop) : List FunDecl → Prop
  | [] => True
  | d :: ds => d.Named P ∧ FunDecl.AllNamed P ds

end

theorem Stmt.allNamed_iff {ss : List Stmt} : Stmt.AllNamed P ss ↔ ∀ s ∈ ss, s.Named P := by
  induction ss with
  | nil => simp [Stmt.AllNamed]
  | cons s ss ih => simp [Stmt.AllNamed, ih]

theorem FunDecl.allNamed_iff {ds : List FunDecl} : FunDecl.AllNamed P ds ↔ ∀ d ∈ ds, d.Named P := by
  induction ds with
  | nil => simp [FunDecl.AllNamed]
  | cons d ds ih => simp [FunDecl.AllNamed, ih]

theorem FunDecl.Named.name {d : FunDecl} (h : d.Named P) : P d.name := by
  cases d
  exact h.1

/-! ## Names do not depend on the distances -/

mutual

theorem Expr.named_bare : (e : Expr) → (e.bare.Named P ↔ e.Named P)
  | .literal _ => Iff.rfl
  | .name _ | .self _ | .super _ _ => Iff.rfl
  | .assign _ v => and_congr_right' v.named_bare
  | .unary _ e => e.named_bare
  | .binary l _ r | .logical l _ r => and_congr l.named_bare r.named_bare
  | .conditional t y n => and_congr t.named_bare (and_congr y.named_bare n.named_bare)
  | .call f _ args => and_congr f.named_bare (Expr.allNamed_bareAll args)
  | .get o _ => o.named_bare
  | .set o _ v => and_congr o.named_bare v.named_bare
  | .group e => e.named_bare

theorem Expr.allNamed_bareAll :
    (es : List Expr) → (Expr.AllNamed P (Expr.bareAll es) ↔ Expr.AllNamed P es)
  | [] => Iff.rfl
  | e :: es => and_congr e.named_bare (Expr.allNamed_bareAll es)

end

theorem Expr.forall_mem_map_named {e : Option Expr} :
    (∀ e' ∈ e.map Expr.bare, e'.Named P) ↔ ∀ e' ∈ e, e'.Named P := by
  cases e with
  | none => simp
  | some e => simpa using e.named_bare

mutual

theorem Stmt.named_bare : (s : Stmt) → (s.bare.Named P ↔ s.Named P)
  | .expression e => e.named_bare
  | .print e => e.named_bare
  | .var _ _ => and_congr_right' Expr.forall_mem_map_named
  | .block body => Stmt.allNamed_bareAll body
  | .branch t y none => and_congr t.named_bare y.named_bare
  | .branch t y (some n) => and_congr t.named_bare (and_congr y.named_bare n.named_bare)
  | .loop t body => and_congr t.named_bare body.named_bare
  | .leave _ => Iff.rfl
  | .giveBack _ _ => Expr.forall_mem_map_named
  | .function d => d.named_bare
  | .classDecl _ s ms => by
    simp only [Stmt.bare, Stmt.Named, FunDecl.allNamed_bareAll ms]
    cases s <;> simp

theorem Stmt.allNamed_bareAll :
    (ss : List Stmt) → (Stmt.AllNamed P (Stmt.bareAll ss) ↔ Stmt.AllNamed P ss)
  | [] => Iff.rfl
  | s :: ss => and_congr s.named_bare (Stmt.allNamed_bareAll ss)

theorem FunDecl.named_bare : (d : FunDecl) → (d.bare.Named P ↔ d.Named P)
  | .mk _ _ body => and_congr_right' (and_congr_right' (Stmt.allNamed_bareAll body))

theorem FunDecl.allNamed_bareAll :
    (ds : List FunDecl) → (FunDecl.AllNamed P (FunDecl.bareAll ds) ↔ FunDecl.AllNamed P ds)
  | [] => Iff.rfl
  | d :: ds => and_congr d.named_bare (FunDecl.allNamed_bareAll ds)

end
end LoxKit
