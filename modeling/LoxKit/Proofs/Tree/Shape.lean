import LoxKit.Grammar.Expression

/-!
# The shape of programs

What can be said about every program that was read from source text, before resolution:

* the names it declares, reads and assigns are names (`Token.IsName`), so that none of them
  is the word by which a method knows its object or its superclass;
* its operators are operators (`Expr.Shaped`);
* no declaration stands directly under a branch or a loop (`Stmt.Shaped`), so that the
  statements of a scope are executed each at most once, in their order.

Resolution changes nothing in a program but the distances of its references.  A program
without them is `bare`, and having a shape does not depend on them (`Stmt.shaped_bare`).
-/
namespace LoxKit

/-- The word by which a method knows the object it works on. -/
def thisName : String := "this"

/-- The word by which a method knows the superclass of its class. -/
def superName : String := "super"

/-- **A token that names what a program declares itself.** -/
def Token.IsName (t : Token) : Prop := t.lexeme ≠ thisName ∧ t.lexeme ≠ superName

/-- The operators between two operands that are both evaluated. -/
def TokenKind.isBinaryOperator : TokenKind → Bool
  | .comma | .plus | .minus | .star | .slash | .greater | .greaterEqual | .less | .lessEqual
  | .equalEqual | .bangEqual => true
  | _ => false

/-! ## Bare trees -/

/-- A reference that nothing is known of but its name. -/
def Reference.bare (r : Reference) : Reference := { r with hops := none }

@[simp] theorem Reference.bare_name (r : Reference) : r.bare.name = r.name := rfl

@[simp] theorem Reference.bare_bare (r : Reference) : r.bare.bare = r.bare := rfl

mutual

/-- An expression without its distances. -/
def Expr.bare : Expr → Expr
  | .literal v => .literal v
  | .name r => .name r.bare
  | .assign r v => .assign r.bare v.bare
  | .unary op e => .unary op e.bare
  | .binary l op r => .binary l.bare op r.bare
  | .logical l op r => .logical l.bare op r.bare
  | .conditional t y n => .conditional t.bare y.bare n.bare
  | .call f paren args => .call f.bare paren (Expr.bareAll args)
  | .get o p => .get o.bare p
  | .set o p v => .set o.bare p v.bare
  | .group e => .group e.bare
  | .self r => .self r.bare
  | .super r m => .super r.bare m

/-- Expressions without their distances. -/
def Expr.bareAll : List Expr → List Expr
  | [] => []
  | e :: es => e.bare :: Expr.bareAll es

end

mutual

/-- A statement without its distances. -/
def Stmt.bare : Stmt → Stmt
  | .expression e => .expression e.bare
  | .print e => .print e.bare
  | .var n e => .var n (e.map Expr.bare)
  | .block body => .block (Stmt.bareAll body)
  | .branch t y none => .branch t.bare y.bare none
  | .branch t y (some n) => .branch t.bare y.bare (some n.bare)
  | .loop t body => .loop t.bare body.bare
  | .leave k => .leave k
  | .giveBack k e => .giveBack k (e.map Expr.bare)
  | .function d => .function d.bare
  | .classDecl n s ms => .classDecl n (s.map Reference.bare) (FunDecl.bareAll ms)

/-- Statements without their distances. -/
def Stmt.bareAll : List Stmt → List Stmt
  | [] => []
  | s :: ss => s.bare :: Stmt.bareAll ss

/-- A function without its distances. -/
def FunDecl.bare : FunDecl → FunDecl
  | .mk n ps body => .mk n ps (Stmt.bareAll body)

/-- Functions without their distances. -/
def FunDecl.bareAll : List FunDecl → List FunDecl
  | [] => []
  | d :: ds => d.bare :: FunDecl.bareAll ds

end

@[simp] theorem FunDecl.bare_name (d : FunDecl) : d.bare.name = d.name := by cases d; rfl

@[simp] theorem FunDecl.bare_params (d : FunDecl) : d.bare.params = d.params := by cases d; rfl

@[simp] theorem FunDecl.bare_body (d : FunDecl) : d.bare.body = Stmt.bareAll d.body := by
  cases d; rfl

@[simp] theorem FunDecl.bare_arity (d : FunDecl) : d.bare.arity = d.arity := by
  simp [FunDecl.arity]

@[simp] theorem FunDecl.bare_isInitializer (d : FunDecl) :
    d.bare.isInitializer = d.isInitializer := by
  simp [FunDecl.isInitializer]

theorem Expr.bareAll_eq_map (es : List Expr) : Expr.bareAll es = es.map Expr.bare := by
  induction es with
  | nil => rfl
  | cons e es ih => rw [Expr.bareAll, List.map_cons, ih]

theorem FunDecl.bareAll_eq_map (ds : List FunDecl) :
    FunDecl.bareAll ds = ds.map FunDecl.bare := by
  induction ds with
  | nil => rfl
  | cons d ds ih => rw [FunDecl.bareAll, List.map_cons, ih]

/-! ## Shaped trees -/

mutual

/-- **An expression of names and operators.** -/
def Expr.Shaped : Expr → Prop
  | .literal _ => True
  | .name r => r.name.IsName
  | .assign r v => r.name.IsName ∧ v.Shaped
  | .unary op e => Grammar.isUnaryOperator op.kind ∧ e.Shaped
  | .binary l op r => op.kind.isBinaryOperator ∧ l.Shaped ∧ r.Shaped
  | .logical l _ r => l.Shaped ∧ r.Shaped
  | .conditional t y n => t.Shaped ∧ y.Shaped ∧ n.Shaped
  | .call f _ args => f.Shaped ∧ Expr.AllShaped args
  | .get o _ => o.Shaped
  | .set o _ v => o.Shaped ∧ v.Shaped
  | .group e => e.Shaped
  | .self r => r.name.lexeme = thisName
  | .super r _ => r.name.lexeme = superName

/-- Shaped expressions. -/
def Expr.AllShaped : List Expr → Prop
  | [] => True
  | e :: es => e.Shaped ∧ Expr.AllShaped es

end

/-- Whether a statement declares a name. -/
def Stmt.isDeclaration : Stmt → Bool
  | .var .. | .function _ | .classDecl .. => true
  | _ => false

/-- The parts of a statement that run in the same frame as it does: the arms of a branch and the
body of a loop. -/
def Stmt.parts : Stmt → List Stmt
  | .branch _ y n => y :: n.toList
  | .loop _ body => [body]
  | _ => []

mutual

/-- **A statement with its declarations in their places.** -/
def Stmt.Shaped : Stmt → Prop
  | .expression e | .print e => e.Shaped
  | .var n e => n.IsName ∧ ∀ e' ∈ e, e'.Shaped
  | .block body => Stmt.AllShaped body
  | .branch t y none => t.Shaped ∧ y.isDeclaration = false ∧ y.Shaped
  | .branch t y (some n) =>
    t.Shaped ∧ (y.isDeclaration = false ∧ y.Shaped) ∧ n.isDeclaration = false ∧ n.Shaped
  | .loop t body => t.Shaped ∧ body.isDeclaration = false ∧ body.Shaped
  | .leave _ => True
  | .giveBack _ e => ∀ e' ∈ e, e'.Shaped
  | .function d => d.Shaped
  | .classDecl n s ms => n.IsName ∧ (∀ r ∈ s, r.name.IsName) ∧ FunDecl.AllShaped ms

/-- Shaped statements. -/
def Stmt.AllShaped : List Stmt → Prop
  | [] => True
  | s :: ss => s.Shaped ∧ Stmt.AllShaped ss

/-- A function of a shaped body, with names for its parameters. -/
def FunDecl.Shaped : FunDecl → Prop
  | .mk n ps body => n.IsName ∧ (∀ p ∈ ps, p.IsName) ∧ Stmt.AllShaped body

/-- Shaped functions. -/
def FunDecl.AllShaped : List FunDecl → Prop
  | [] => True
  | d :: ds => d.Shaped ∧ FunDecl.AllShaped ds

end

/-- No part of a shaped statement is a declaration. -/
theorem Stmt.Shaped.part {s p : Stmt} (hs : s.Shaped) (hp : p ∈ s.parts) :
    p.isDeclaration = false ∧ p.Shaped := by
  cases s with
  | branch t y n =>
    cases n with
    | none =>
      obtain rfl := List.mem_singleton.mp hp
      exact hs.2
    | some n =>
      rcases List.mem_cons.mp hp with rfl | hp
      · exact hs.2.1
      · obtain rfl := List.mem_singleton.mp hp
        exact hs.2.2
  | loop t body =>
    obtain rfl := List.mem_singleton.mp hp
    exact hs.2
  | _ => cases hp

theorem Expr.allShaped_iff {es : List Expr} : Expr.AllShaped es ↔ ∀ e ∈ es, e.Shaped := by
  induction es with
  | nil => simp [Expr.AllShaped]
  | cons e es ih => simp [Expr.AllShaped, ih]

theorem Stmt.allShaped_iff {ss : List Stmt} : Stmt.AllShaped ss ↔ ∀ s ∈ ss, s.Shaped := by
  induction ss with
  | nil => simp [Stmt.AllShaped]
  | cons s ss ih => simp [Stmt.AllShaped, ih]

theorem FunDecl.allShaped_iff {ds : List FunDecl} :
    FunDecl.AllShaped ds ↔ ∀ d ∈ ds, d.Shaped := by
  induction ds with
  | nil => simp [FunDecl.AllShaped]
  | cons d ds ih => simp [FunDecl.AllShaped, ih]

/-! ## The shape does not depend on the distances -/

mutual

theorem Expr.shaped_bare : (e : Expr) → (e.bare.Shaped ↔ e.Shaped)
  | .literal _ => Iff.rfl
  | .name _ => Iff.rfl
  | .assign _ v => and_congr_right' v.shaped_bare
  | .unary _ e => and_congr_right' e.shaped_bare
  | .binary l _ r => and_congr_right' (and_congr l.shaped_bare r.shaped_bare)
  | .logical l _ r => and_congr l.shaped_bare r.shaped_bare
  | .conditional t y n => and_congr t.shaped_bare (and_congr y.shaped_bare n.shaped_bare)
  | .call f _ args => and_congr f.shaped_bare (Expr.allShaped_bareAll args)
  | .get o _ => o.shaped_bare
  | .set o _ v => and_congr o.shaped_bare v.shaped_bare
  | .group e => e.shaped_bare
  | .self _ => Iff.rfl
  | .super _ _ => Iff.rfl

theorem Expr.allShaped_bareAll :
    (es : List Expr) → (Expr.AllShaped (Expr.bareAll es) ↔ Expr.AllShaped es)
  | [] => Iff.rfl
  | e :: es => and_congr e.shaped_bare (Expr.allShaped_bareAll es)

end

@[simp] theorem Stmt.isDeclaration_bare (s : Stmt) : s.bare.isDeclaration = s.isDeclaration := by
  cases s with
  | branch t y n => cases n <;> rfl
  | _ => rfl

theorem Expr.forall_mem_map_bare {e : Option Expr} :
    (∀ e' ∈ e.map Expr.bare, e'.Shaped) ↔ ∀ e' ∈ e, e'.Shaped := by
  cases e with
  | none => simp
  | some e => simpa using e.shaped_bare

mutual

theorem Stmt.shaped_bare : (s : Stmt) → (s.bare.Shaped ↔ s.Shaped)
  | .expression e => e.shaped_bare
  | .print e => e.shaped_bare
  | .var _ _ => and_congr_right' Expr.forall_mem_map_bare
  | .block body => Stmt.allShaped_bareAll body
  | .branch t y none => by
    simp only [Stmt.bare, Stmt.Shaped, t.shaped_bare, y.shaped_bare, Stmt.isDeclaration_bare]
  | .branch t y (some n) => by
    simp only [Stmt.bare, Stmt.Shaped, t.shaped_bare, y.shaped_bare, n.shaped_bare,
      Stmt.isDeclaration_bare]
  | .loop t body => by
    simp only [Stmt.bare, Stmt.Shaped, t.shaped_bare, body.shaped_bare, Stmt.isDeclaration_bare]
  | .leave _ => Iff.rfl
  | .giveBack _ _ => Expr.forall_mem_map_bare
  | .function d => d.shaped_bare
  | .classDecl _ s ms => by
    simp only [Stmt.bare, Stmt.Shaped, FunDecl.allShaped_bareAll ms]
    cases s <;> simp

theorem Stmt.allShaped_bareAll :
    (ss : List Stmt) → (Stmt.AllShaped (Stmt.bareAll ss) ↔ Stmt.AllShaped ss)
  | [] => Iff.rfl
  | s :: ss => and_congr s.shaped_bare (Stmt.allShaped_bareAll ss)

theorem FunDecl.shaped_bare : (d : FunDecl) → (d.bare.Shaped ↔ d.Shaped)
  | .mk _ _ body => and_congr_right' (and_congr_right' (Stmt.allShaped_bareAll body))

theorem FunDecl.allShaped_bareAll :
    (ds : List FunDecl) → (FunDecl.AllShaped (FunDecl.bareAll ds) ↔ FunDecl.AllShaped ds)
  | [] => Iff.rfl
  | d :: ds => and_congr d.shaped_bare (FunDecl.allShaped_bareAll ds)

end
end LoxKit
