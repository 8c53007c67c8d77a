import LoxKit.Proofs.Tree.Shape
import LoxKit.Scope.Basic

/-!
# What resolution sees of a program

Resolution walks over a program with a stack of open scopes.  This module says which scopes
are open where: `Stmt.visits` lists, in the order of the walk, each place of a program where
a name is used or declared, together with the stack that is open there (`Visit`).

A scope on the stack is a `Level`: the construct it was opened for and the names declared in
it so far.  A block and a function body with its parameters have a level each; a class body
has one for `this`, and one around it for `super` if the class has a superclass.

A visit is **settled** (`Visit.Settled`) if resolution found nothing wrong with it and noted
what it should: a name is declared once in its scope; a use records the number of levels
inside the innermost one that declares its name; what is read has been defined by then.  An
assignment is the exception.  The name it assigns may be declared and not yet defined, which
is so exactly inside the variable's own initializer (`Visit.InOwnInitializer`).

The superclass of a class is read before the class has its name, so there the name counts as
declared and not yet defined too.
-/
namespace LoxKit
namespace Scope

/-- A class declaration. -/
structure ClassSite where
  name : Token
  superclass : Option Reference
  methods : List FunDecl

/-- **An open scope**: what it was opened for, and the names in it. -/
inductive Level where
  | block (body : List Stmt) (names : Scope)
  /-- The parameters and the body of a function. -/
  | call (decl : FunDecl) (names : Scope)
  /-- What the methods of a class have in common. -/
  | this (site : ClassSite)
  /-- What the methods of a class with a superclass have in common besides. -/
  | super (site : ClassSite)

/-- The names of a level, and whether each is ready to be read. -/
def Level.names : Level → Scope
  | block _ names | call _ names => names
  | this _ => .ofList [(thisName, true)]
  | super _ => .ofList [(superName, true)]

/-- **The open scopes**, the innermost first. -/
abbrev Stack := List Level

namespace Stack

/-- The scopes of a stack as resolution keeps them. -/
def scopes (Γ : Stack) : List Scope := Γ.map Level.names

/-- The number of levels inside the innermost one that declares a name. -/
def depth? (Γ : Stack) (name : String) : Option Nat := Scope.depth? Γ.scopes name

/-- Enters a name into the innermost level.  Global names are entered nowhere. -/
def enter (name : String) (ready : Bool) : Stack → Stack
  | .block body names :: Γ => .block body (names.put name ready) :: Γ
  | .call decl names :: Γ => .call decl (names.put name ready) :: Γ
  | Γ => Γ

/-- Enters parameters. -/
def enterAll (params : List Token) (Γ : Stack) : Stack :=
  params.foldl (fun Γ p => Γ.enter p.lexeme true) Γ

/-- The levels of a class around those of its methods. -/
def members (site : ClassSite) (Γ : Stack) : Stack :=
  if site.superclass.isSome then .this site :: .super site :: Γ else .this site :: Γ

/-- What the innermost class around a place is. -/
def classContext : Stack → ClassContext
  | [] => .none
  | .this site :: _ => if site.superclass.isSome then .derived else .plain
  | _ :: Γ => classContext Γ

end Stack

/-- **A place where a name is used or declared**, with the scopes open there. -/
inductive Visit where
  | use (kind : UseKind) (ref : Reference) (stack : Stack)
  | declare (name : Token) (stack : Stack)

end Scope

open Scope

/-! ## The visits of a program -/

mutual

/-- The visits of an expression, in the order of the walk: an assigned value before its
target, and the value of a property before the object. -/
def Expr.visits : Expr → Stack → List Visit
  | .literal _, _ => []
  | .name r, Γ => [.use .read r Γ]
  | .assign r v, Γ => v.visits Γ ++ [.use .assign r Γ]
  | .unary _ e, Γ | .group e, Γ => e.visits Γ
  | .binary l _ r, Γ | .logical l _ r, Γ => l.visits Γ ++ r.visits Γ
  | .conditional t y n, Γ => t.visits Γ ++ (y.visits Γ ++ n.visits Γ)
  | .call f _ args, Γ => f.visits Γ ++ Expr.visitsAll args Γ
  | .get o _, Γ => o.visits Γ
  | .set o _ v, Γ => v.visits Γ ++ o.visits Γ
  | .self r, Γ => [.use .this r Γ]
  | .super r _, Γ => [.use .super r Γ]

/-- The visits of expressions. -/
def Expr.visitsAll : List Expr → Stack → List Visit
  | [], _ => []
  | e :: es, Γ => e.visits Γ ++ Expr.visitsAll es Γ

end

/-- The visits of the parameters of a function, each entered before the next. -/
def Token.visitsAll : List Token → Stack → List Visit
  | [], _ => []
  | p :: ps, Γ => .declare p Γ :: Token.visitsAll ps (Γ.enter p.lexeme true)

/-- The stack behind a statement, which may have declared a name. -/
def Stmt.declare (Γ : Stack) : Stmt → Stack
  | .var n _ | .classDecl n _ _ => Γ.enter n.lexeme true
  | .function d => Γ.enter d.name.lexeme true
  | _ => Γ

mutual

/-- **The visits of a statement.** -/
def Stmt.visits : Stmt → Stack → List Visit
  | .expression e, Γ | .print e, Γ => e.visits Γ
  | .var n none, Γ => [.declare n Γ]
  | .var n (some e), Γ => .declare n Γ :: e.visits (Γ.enter n.lexeme false)
  | .block body, Γ => Stmt.visitsAll body (.block body {} :: Γ)
  | .branch t y none, Γ => t.visits Γ ++ y.visits Γ
  | .branch t y (some n), Γ => t.visits Γ ++ (y.visits Γ ++ n.visits Γ)
  | .loop t body, Γ => t.visits Γ ++ body.visits Γ
  | .leave _, _ => []
  | .giveBack _ none, _ => []
  | .giveBack _ (some e), Γ => e.visits Γ
  | .function d, Γ => .declare d.name Γ :: d.visits (Γ.enter d.name.lexeme true)
  | .classDecl n none ms, Γ =>
    .declare n Γ :: FunDecl.visitsAll ms (Stack.members ⟨n, none, ms⟩ (Γ.enter n.lexeme true))
  | .classDecl n (some r) ms, Γ =>
    .declare n Γ :: .use .read r (Γ.enter n.lexeme false) ::
      FunDecl.visitsAll ms (Stack.members ⟨n, some r, ms⟩ (Γ.enter n.lexeme true))

/-- The visits of statements, each on the stack behind the one before. -/
def Stmt.visitsAll : List Stmt → Stack → List Visit
  | [], _ => []
  | s :: ss, Γ => s.visits Γ ++ Stmt.visitsAll ss (s.declare Γ)

/-- The visits of a function from its parameters on. -/
def FunDecl.visits : FunDecl → Stack → List Visit
  | .mk n ps body, Γ =>
    Token.visitsAll ps (.call (.mk n ps body) {} :: Γ) ++
      Stmt.visitsAll body (Stack.enterAll ps (.call (.mk n ps body) {} :: Γ))

/-- The visits of the methods of a class. -/
def FunDecl.visitsAll : List FunDecl → Stack → List Visit
  | [], _ => []
  | d :: ds, Γ => d.visits Γ ++ FunDecl.visitsAll ds Γ

end

theorem FunDecl.visits_eq (d : FunDecl) (Γ : Stack) :
    d.visits Γ = Token.visitsAll d.params (.call d {} :: Γ) ++
      Stmt.visitsAll d.body (Stack.enterAll d.params (.call d {} :: Γ)) := by
  cases d
  rfl

theorem FunDecl.mem_visitsAll {ds : List FunDecl} {Γ : Stack} {v : Visit} :
    v ∈ FunDecl.visitsAll ds Γ ↔ ∃ d ∈ ds, v ∈ d.visits Γ := by
  induction ds with
  | nil => simp [FunDecl.visitsAll]
  | cons d ds ih => simp [FunDecl.visitsAll, ih]

namespace Scope
namespace Visit

/-- **Nothing is wrong with a visit**, and its distance is right. -/
def Settled : Visit → Prop
  | declare n Γ => n.IsName ∧ ∀ l ∈ Γ.head?, l.names.contains n.lexeme = false
  | use kind r Γ =>
    r.hops = Γ.depth? r.name.lexeme ∧
    match kind with
    | .read =>
      r.name.IsName ∧
      ∀ d l, r.hops = some d → Γ[d]? = some l → l.names.get? r.name.lexeme = some true
    | .assign =>
      r.name.IsName ∧
      ∀ d l, r.hops = some d → Γ[d]? = some l →
        l.names.get? r.name.lexeme = some true ∨
          (d = 0 ∧ l.names.get? r.name.lexeme = some false)
    | .this =>
      r.name.lexeme = thisName ∧ ∃ d site, r.hops = some d ∧ Γ[d]? = some (.this site)
    | .super =>
      r.name.lexeme = superName ∧
      ∃ d site, r.hops = some (d + 1) ∧ Γ.depth? thisName = some d ∧
        Γ[d]? = some (.this site) ∧ Γ[d + 1]? = some (.super site)

/-- **An assignment to a variable inside its own initializer.** -/
def InOwnInitializer : Visit → Prop
  | use .assign r Γ => ∃ l ∈ Γ.head?, l.names.get? r.name.lexeme = some false
  | _ => False

/-- What resolution notes of a visit. -/
def annotation? : Visit → Option Annotation
  | declare _ _ => none
  | use kind r Γ => (Γ.depth? r.name.lexeme).map fun d => ⟨kind, r.name, d⟩

end Visit
end Scope
end LoxKit
