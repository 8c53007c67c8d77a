import LoxKit.Scope.Basic
import LoxKit.Grammar.Statement

/-!
# Resolution

Resolution fills every reference of a program with the number of frames between the place
and the frame that binds the name, and checks the static rules on the way.  A fault is
reported and passed over; only want of room makes it give a top-level statement up, which
then stays as it was.  The order of the walk is the order of the annotations and of the
diagnostics: an assigned value before its target, and the value of a property before the
object.

A node takes one unit of room, and so do a class body and a function body.
-/
namespace LoxKit
namespace Scope

/-- Goes on only if there is so much spare room. -/
def need (spare room : Nat) : Resolving Unit :=
  if room < spare then throw .tooDeep else return

/-- The spare room that reporting a fault needs. -/
def reportRoom : Nat := 5

/-- Reports a fault at a token. -/
def blame (room : Nat) (t : Token) (f : Fault) : Resolving Unit := do
  need reportRoom room
  modify (·.blame t f)

/-- Reports a fault at a token where a condition holds. -/
def blameIf (c : Bool) (room : Nat) (t : Token) (f : Fault) : Resolving Unit :=
  if c then blame room t f else return

/-- A name declared, but not ready yet. -/
def declare (room : Nat) (name : Token) : Resolving Unit := do
  need 1 room
  modify (·.lookAt name)
  blameIf ((← get).declares name) (room - 1) name .redeclared
  modify (·.declare name)

/-- A name declared and ready at once. -/
def introduce (room : Nat) (name : Token) : Resolving Unit := do
  declare room name
  modify (·.define name)

/-- A reference with the number of frames to its binding filled in. -/
def resolved (room : Nat) (kind : UseKind) (r : Reference) : Resolving Reference := do
  need 1 room
  modify (·.lookAt r.name)
  need 2 room
  let hops := depth? (← get).scopes r.name.lexeme
  modify (·.use kind r.name)
  return { r with hops }

/-- A use of a variable for its value. -/
def readReference (room : Nat) (r : Reference) : Resolving Reference := do
  blameIf ((← get).pending r.name) room r.name .readInOwnInitializer
  resolved room .read r

/-- The spare room that opening a scope needs. -/
def scopeRoom : Nat := 1

/-- Resolves inside a new scope in which some names are ready from the start. -/
def inScope (room : Nat) (names : List String) (p : Resolving α) : Resolving α := do
  need scopeRoom room
  modify (·.push names)
  let a ← p
  modify (·.pop)
  return a

/-- Resolves an expression. -/
def expr : Nat → Expr → Resolving Expr
  | 0, _ => throw .tooDeep
  | room + 1, e => do
    match e with
    | .literal v => return .literal v
    | .name r => return .name (← readReference room r)
    | .assign r v => do
      let v ← expr room v
      return .assign (← resolved room .assign r) v
    | .unary op e => return .unary op (← expr room e)
    | .binary l op r => do
      let l ← expr room l
      return .binary l op (← expr room r)
    | .logical l op r => do
      let l ← expr room l
      return .logical l op (← expr room r)
    | .conditional t y n => do
      let t ← expr room t
      let y ← expr room y
      return .conditional t y (← expr room n)
    | .call f paren args => do
      let f ← expr room f
      return .call f paren (← args.mapM (expr room))
    | .get o p => return .get (← expr room o) p
    | .set o p v => do
      let v ← expr room v
      return .set (← expr room o) p v
    | .group e => return .group (← expr room e)
    | .self r => do
      need 1 room
      if (← get).classContext = .none then
        blame room r.name .thisOutsideClass
        return .self r
      else return .self (← resolved room .this r)
    | .super r m => do
      need 1 room
      match (← get).classContext with
      | .none => blame room r.name .superOutsideClass
      | .plain => blame room r.name .superWithoutSuperclass
      | .derived => pure ()
      return .super (← resolved room .super r) m

/-- Resolves an expression that may be absent. -/
def optionalExpr (room : Nat) : Option Expr → Resolving (Option Expr)
  | none => return none
  | some e => return some (← expr room e)

mutual

/-- Resolves a statement. -/
def stmt : Nat → Stmt → Resolving Stmt
  | 0, _ => throw .tooDeep
  | room + 1, s => do
    match s with
    | .expression e => return .expression (← expr room e)
    | .print e => return .print (← expr room e)
    | .var n e => do
      declare room n
      let e ← optionalExpr room e
      modify (·.define n)
      return .var n e
    | .block body => return .block (← inScope room [] (body.mapM (stmt room)))
    | .branch t y n => do
      let t ← expr room t
      let y ← stmt room y
      match n with
      | none => return .branch t y none
      | some n => return .branch t y (some (← stmt room n))
    | .loop t body => do
      let t ← expr room t
      return .loop t (← stmt room body)
    | .leave k => return .leave k
    | .giveBack k e => do
      need 1 room
      blameIf ((← get).function = .none) room k .topLevelReturn
      blameIf (e.isSome && (← get).function = .initializer) room k .initializerReturn
      return .giveBack k (← optionalExpr room e)
    | .function d => do
      introduce room d.name
      return .function (← funDecl room .function d)
    | .classDecl n s ms => classDecl room n s ms

/-- Resolves a class. -/
def classDecl : Nat → Token → Option Reference → List FunDecl → Resolving Stmt
  | 0, _, _, _ => throw .tooDeep
  | room + 1, n, s, ms => do
    let outer := (← get).classContext
    modify ({ · with classContext := .plain })
    introduce room n
    let method (d : FunDecl) : Resolving FunDecl :=
      funDecl room (if d.isInitializer then .initializer else .method) d
    let members := inScope room ["this"] (ms.mapM method)
    let resolved ←
      match s with
      | none => pure (.classDecl n none (← members))
      | some r => do
        blameIf (r.name.lexeme == n.lexeme) room r.name .selfInheritance
        modify ({ · with classContext := .derived })
        let r ← readReference (room - 1) r
        pure (.classDecl n (some r) (← inScope room ["super"] members))
    modify ({ · with classContext := outer })
    return resolved

/-- Resolves a function, whose body is of the given sort. -/
def funDecl : Nat → FunctionContext → FunDecl → Resolving FunDecl
  | 0, _, _ => throw .tooDeep
  | room + 1, sort, .mk name params body => do
    let outer := (← get).function
    modify ({ · with function := sort })
    let body ← inScope room [] do
      params.forM (introduce room)
      body.mapM (stmt room)
    modify ({ · with function := outer })
    return .mk name params body

end

/-- Gives up what nests too deeply, which then stays as it was. -/
def orAbandon (before : α) (p : Resolving α) : Resolving α := do
  try p
  catch _ => do
    modify (·.abandon)
    return before

/-- Resolves a top-level statement, or gives it up. -/
def topLevel (room : Nat) (s : Stmt) : Resolving Stmt := orAbandon s (stmt room s)

end Scope

/-- **What resolution gives**: the resolved tree, with all that was found on the way. -/
structure Resolution (α : Type) where
  result : α
  annotations : List Annotation
  diagnostics : List Diagnostic
  /-- The number of scopes still open. -/
  openScopes : Nat

/-- The outcome of a resolution that began with `before`. -/
def Resolution.of (before : α) (p : Scope.Resolving α) : Resolution α :=
  match p {} with
  | .ok a w => ⟨a, w.annotations, w.diagnostics, w.scopes.length⟩
  | .error _ w => ⟨before, w.annotations, w.diagnostics, w.scopes.length⟩

/-- **Resolves a program** in the given room. -/
def Program.resolve (room : Nat) (p : Program) : Resolution Program :=
  .of p (p.mapM (Scope.topLevel room))

/-- **Resolves an expression** that stands in global code. -/
def Expr.resolve (room : Nat) (e : Expr) : Resolution Expr :=
  .of e (Scope.orAbandon e (Scope.expr room e))

end LoxKit
