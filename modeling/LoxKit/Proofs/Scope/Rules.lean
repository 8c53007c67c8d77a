import LoxKit.Proofs.Scope.Visit

/-!
# The static rules

What a program must not do is told by where its parts stand.  Each part that a rule is about
is a `Place`: the token a breach is reported at, with the constructs around it.
`Stmt.places` lists the places of a program in the order of the walk, and `Place.breaks` says
which rules a place breaks.  Neither keeps a state: what the innermost class or function around
a place is (`Stack.classContext`, `Stack.functionContext`) and what its innermost scope declares
are read off the stack.

The rules speak of the innermost construct of a sort.  A function inside a method is a function
and not a method, so a `return` in it may give a value back wherever the method is an
initializer; and a class inside a method of another is what `super` in it is about.
-/
namespace LoxKit
namespace Scope

/-- What the innermost function body around a place is.  The body of a method stands directly
inside the level of its class. -/
def Stack.functionContext : Stack → FunctionContext
  | [] => .none
  | .call decl _ :: .this _ :: _ => if decl.isInitializer then .initializer else .method
  | .call _ _ :: _ => .function
  | _ :: Γ => functionContext Γ

/-- Whether the innermost scope declares a name. -/
def Stack.declares (Γ : Stack) (name : String) : Bool := Γ.head?.any (·.names.contains name)

/-- **A place that a static rule is about**, with the constructs around it. -/
inductive Place where
  /-- The declaration of a variable, a function, a class or a parameter. -/
  | declaration (name : Token) (stack : Stack)
  /-- The use of a variable for its value.  In the initializer of a variable, that variable is
  given too. -/
  | read (name : Token) (initializing : Option Token) (stack : Stack)
  | self (keyword : Token) (stack : Stack)
  | super (keyword : Token) (stack : Stack)
  | giveBack (keyword : Token) (hasValue : Bool) (stack : Stack)
  /-- The superclass of a class. -/
  | inheritance (name superclass : Token)

namespace Place

/-- The token that a breach is reported at. -/
def token : Place → Token
  | declaration n _ | read n _ _ | inheritance _ n => n
  | self k _ | super k _ | giveBack k _ _ => k

/-- **The static rules**: whether a place breaks one.  Global code has no scope of its own, so
there a name may be declared again, and be read in its own initializer. -/
def breaks : Place → Fault → Bool
  | giveBack _ _ Γ, .topLevelReturn => Γ.functionContext = .none
  | giveBack _ hasValue Γ, .initializerReturn => hasValue && Γ.functionContext = .initializer
  | declaration n Γ, .redeclared => Γ.declares n.lexeme
  | read n initializing Γ, .readInOwnInitializer =>
    !Γ.isEmpty && initializing.any (·.lexeme == n.lexeme)
  | inheritance n s, .selfInheritance => s.lexeme == n.lexeme
  | self _ Γ, .thisOutsideClass => Γ.classContext = .none
  | super _ Γ, .superOutsideClass => Γ.classContext = .none
  | super _ Γ, .superWithoutSuperclass => Γ.classContext = .plain
  | _, _ => false

end Place

/-- The faults that are breaches of a rule. -/
def Fault.rules : List Fault :=
  [.topLevelReturn, .initializerReturn, .redeclared, .readInOwnInitializer, .selfInheritance,
    .thisOutsideClass, .superOutsideClass, .superWithoutSuperclass]

/-- All faults but the one that is about room. -/
theorem Fault.mem_rules {f : Fault} : f ∈ Fault.rules ↔ f ≠ .tooDeep := by
  cases f <;> decide

/-- **What is wrong with a place**: one report for each rule that it breaks. -/
def Place.diagnostics (p : Place) : List Diagnostic :=
  (Fault.rules.filter p.breaks).map fun f => .atToken p.token f.message

end Scope

open Scope

/-! ## The places of a program -/

mutual

/-- The places of an expression, in the initializer of a variable or not. -/
def Expr.places (initializing : Option Token) : Expr → Stack → List Place
  | .literal _, _ => []
  | .name r, Γ => [.read r.name initializing Γ]
  | .assign _ e, Γ | .unary _ e, Γ | .group e, Γ => e.places initializing Γ
  | .binary l _ r, Γ | .logical l _ r, Γ => l.places initializing Γ ++ r.places initializing Γ
  | .conditional t y n, Γ =>
    t.places initializing Γ ++ (y.places initializing Γ ++ n.places initializing Γ)
  | .call f _ args, Γ => f.places initializing Γ ++ Expr.placesAll initializing args Γ
  | .get o _, Γ => o.places initializing Γ
  | .set o _ v, Γ => v.places initializing Γ ++ o.places initializing Γ
  | .self r, Γ => [.self r.name Γ]
  | .super r _, Γ => [.super r.name Γ]

/-- The places of expressions. -/
def Expr.placesAll (initializing : Option Token) : List Expr → Stack → List Place
  | [], _ => []
  | e :: es, Γ => e.places initializing Γ ++ Expr.placesAll initializing es Γ

end

/-- The places of the parameters of a function, each entered before the next. -/
def Token.placesAll : List Token → Stack → List Place
  | [], _ => []
  | p :: ps, Γ => .declaration p Γ :: Token.placesAll ps (Γ.enter p.lexeme true)

mutual

/-- **The places of a statement.**  A variable is declared before its initializer, and a class
before its superclass is read. -/
def Stmt.places : Stmt → Stack → List Place
  | .expression e, Γ | .print e, Γ => e.places none Γ
  | .var n none, Γ => [.declaration n Γ]
  | .var n (some e), Γ => .declaration n Γ :: e.places (some n) (Γ.enter n.lexeme false)
  | .block body, Γ => Stmt.placesAll body (.block body {} :: Γ)
  | .branch t y none, Γ => t.places none Γ ++ y.places Γ
  | .branch t y (some n), Γ => t.places none Γ ++ (y.places Γ ++ n.places Γ)
  | .loop t body, Γ => t.places none Γ ++ body.places Γ
  | .leave _, _ => []
  | .giveBack k none, Γ => [.giveBack k false Γ]
  | .giveBack k (some e), Γ => .giveBack k true Γ :: e.places none Γ
  | .function d, Γ => .declaration d.name Γ :: d.places (Γ.enter d.name.lexeme true)
  | .classDecl n none ms, Γ =>
    .declaration n Γ :: FunDecl.placesAll ms (Stack.members ⟨n, none, ms⟩ (Γ.enter n.lexeme true))
  | .classDecl n (some r) ms, Γ =>
    .declaration n Γ :: .inheritance n r.name :: .read r.name none (Γ.enter n.lexeme true) ::
      FunDecl.placesAll ms (Stack.members ⟨n, some r, ms⟩ (Γ.enter n.lexeme true))

/-- The places of statements, each on the stack behind the one before. -/
def Stmt.placesAll : List Stmt → Stack → List Place
  | [], _ => []
  | s :: ss, Γ => s.places Γ ++ Stmt.placesAll ss (s.declare Γ)

/-- The places of a function from its parameters on. -/
def FunDecl.places : FunDecl → Stack → List Place
  | .mk n ps body, Γ =>
    Token.placesAll ps (.call (.mk n ps body) {} :: Γ) ++
      Stmt.placesAll body (Stack.enterAll ps (.call (.mk n ps body) {} :: Γ))

/-- The places of the methods of a class. -/
def FunDecl.placesAll : List FunDecl → Stack → List Place
  | [], _ => []
  | d :: ds, Γ => d.places Γ ++ FunDecl.placesAll ds Γ

end

namespace Scope

namespace Place

/-- The rule that a place is about, if there is just one. -/
def rule? : Place → Option Fault
  | declaration .. => some .redeclared
  | read .. => some .readInOwnInitializer
  | self .. => some .thisOutsideClass
  | inheritance .. => some .selfInheritance
  | super .. | giveBack .. => none

theorem breaks_of_rule?_ne {p : Place} {f g : Fault} (h : p.rule? = some f) (hg : g ≠ f) :
    p.breaks g = false := by
  cases p <;> cases h <;> cases g <;> first | rfl | exact absurd rfl hg

/-- Such a place is reported where it breaks its rule. -/
theorem diagnostics_eq {p : Place} {f : Fault} (h : p.rule? = some f) :
    p.diagnostics = if p.breaks f then [.atToken p.token f.message] else [] := by
  have hother : ∀ g, g ≠ f → p.breaks g = false := fun _ => breaks_of_rule?_ne h
  have hrules : Fault.rules.filter p.breaks = if p.breaks f then [f] else [] := by
    cases f with
    | tooDeep => cases p <;> cases h
    | _ => cases hp : p.breaks _ <;> simp [Fault.rules, hother, hp]
  rw [diagnostics, hrules]
  split <;> rfl

end Place

/-! ## What the rules read off the stack -/

namespace Stack

@[simp] theorem functionContext_call_members (decl : FunDecl) (names : Scope) (site : ClassSite)
    (Γ : Stack) : functionContext (.call decl names :: Γ.members site) =
      if decl.isInitializer then .initializer else .method := by
  unfold members
  split <;> rfl

@[simp] theorem functionContext_enter (Γ : Stack) (x : String) (b : Bool) :
    (Γ.enter x b).functionContext = Γ.functionContext := by
  rcases Γ with - | ⟨l, Γ⟩
  · rfl
  · cases l with
    | call decl names => cases Γ with
      | nil => rfl
      | cons l Γ => cases l <;> rfl
    | _ => rfl

@[simp] theorem functionContext_enterAll (ps : List Token) (Γ : Stack) :
    (Γ.enterAll ps).functionContext = Γ.functionContext := by
  induction ps generalizing Γ with
  | nil => rfl
  | cons p ps ih => exact (ih _).trans (functionContext_enter ..)

end Stack
end Scope

@[simp] theorem Stmt.functionContext_declare (s : Stmt) (Γ : Stack) :
    (s.declare Γ).functionContext = Γ.functionContext := by
  cases s <;> simp [Stmt.declare]

end LoxKit
