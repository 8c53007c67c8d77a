import LoxKit.Machine.Eval

/-!
# Lexical scoping

A second meaning of programs, in which there are no frames and no distances.  The names at a
place of a program are an immutable map from local names to cells of a store (`Env`).  Each
declaration of a local variable, function, class or parameter extends the map with a fresh
cell, so what is known at one place is never changed by a declaration at another.  A function
keeps the map of its declaration, in which its own name stands already.  A name that is not in
the map is looked up in one table of global names, which changes.

The evaluator follows a program as the machine does, and bounds its recursion in the same way
by `room`, one unit for each activation; but no step needs spare room, and the distances that
resolution has filled in are not looked at.
-/
namespace LoxKit
namespace Lexical

/-- The number of a cell. -/
abbrev Cell := Nat

/-- **What names mean at a place.** -/
structure Env where
  /-- Whether the place is in a block or in a function. -/
  isLocal : Bool := false
  /-- The cells of the local names, the latest declaration first. -/
  cells : List (String × Cell) := []

namespace Env

/-- What names mean in global code. -/
def global : Env := {}

/-- The cell of a local name. -/
def cell? (ρ : Env) (name : String) : Option Cell := ρ.cells.lookup name

/-- Inside a block or a function. -/
def inside (ρ : Env) : Env := { ρ with isLocal := true }

/-- With one more local name. -/
def extend (ρ : Env) (name : String) (ℓ : Cell) : Env := { ρ with cells := (name, ℓ) :: ρ.cells }

end Env

/-- **The state of the world** in which programs run. -/
structure World where
  /-- The values of the cells made so far. -/
  store : Array (Value Env) := #[]
  globals : Bindings (Value Env)
  /-- The fields of each object, by its number. -/
  fields : Array (Bindings (Value Env)) := #[]
  classCount : Nat := 0
  /-- The line of the call begun last, 0 before the first. -/
  line : Int := 0
  output : String := ""
  clock : Nat → Float
  readings : Nat := 0

/-- A world in which nothing has run. -/
def World.initial (clock : Nat → Float) : World :=
  { globals := .ofList [(Native.clock.name, .native .clock)], clock }

/-- **A step of a run.** -/
abbrev Step := EStateM Failure World

namespace Step

/-- Fails with an error of the program at a token. -/
def fail (place : Token) (cause : RunError) : Step α := throw (.error place cause)

/-- Extends a map with a name in a fresh cell.  The value of the cell may know its own name. -/
def extend (ρ : Env) (name : String) (v : Env → Value Env) : Step Env := do
  let ρ := ρ.extend name (← get).store.size
  modify fun W => { W with store := W.store.push (v ρ) }
  return ρ

/-- Declares a name, locally or globally. -/
def declare (ρ : Env) (name : String) (v : Env → Value Env) : Step Env := do
  if ρ.isLocal then extend ρ name v
  else
    modify fun W => { W with globals := W.globals.put name (v ρ) }
    return ρ

/-- The value of a cell. -/
def content (ℓ : Cell) : Step (Value Env) := return (← get).store[ℓ]?.getD .nil

theorem get_bind (f : World → Step α) (W : World) : (get >>= f) W = f W W := rfl

theorem content_eq {W : World} {ℓ : Cell} {v : Value Env} (h : W.store[ℓ]? = some v) :
    content ℓ W = .ok v W := by
  unfold content
  rw [get_bind, h]
  rfl

/-- **The value of a name**: of its cell if it is local, or else of the global name. -/
def read (ρ : Env) (name : Token) : Step (Value Env) := do
  match ρ.cell? name.lexeme with
  | some ℓ => content ℓ
  | none =>
    match (← get).globals.get? name.lexeme with
    | some v => return v
    | none => fail name (.undefinedVariable name.lexeme)

/-- **Assigns to a name**, which has to be there. -/
def write (ρ : Env) (name : Token) (v : Value Env) : Step Unit := do
  match ρ.cell? name.lexeme with
  | some ℓ => modify fun W => { W with store := W.store.modify ℓ fun _ => v }
  | none =>
    if (← get).globals.contains name.lexeme then
      modify fun W => { W with globals := W.globals.put name.lexeme v }
    else fail name (.undefinedVariable name.lexeme)

/-- A copy of a method that works on a value as `this`. -/
def bind (method : Closure Env) (this : Value Env) : Step (Closure Env) :=
  return { method with home := ← extend method.home "this" fun _ => this }

/-- A new object without fields. -/
def newObject (c : ClassValue Env) : Step (Value Env) := do
  let id := (← get).fields.size
  modify fun W => { W with fields := W.fields.push .empty }
  return .object id c

/-- Gives a field of an object a value. -/
def setField (id : ObjectId) (name : String) (v : Value Env) : Step Unit :=
  modify fun W => { W with fields := W.fields.modify id (·.put name v) }

/-- Reads the clock. -/
def readClock : Step (Value Env) := do
  let W ← get
  modify fun W => { W with readings := W.readings + 1 }
  return .number (W.clock W.readings)

/-- Declares the parameters of a call, each in a fresh cell. -/
def extendAll (ρ : Env) : List (String × Value Env) → Step Env
  | [] => return ρ
  | (name, v) :: rest => do extendAll (← extend ρ name fun _ => v) rest

end Step

/-! ## The evaluator -/

/-- The superclass that a reference stands for. -/
def superclass? (ρ : Env) : Option Reference → Step (Option (ClassValue Env))
  | none => return none
  | some r => do
    match ← Step.read ρ r.name with
    | .classValue c => return some c
    | _ => Step.fail r.name .superclassNotClass

/-- **Declares a class.**  Its methods know its name, and its superclass as `super`. -/
def declareClass (ρ : Env) (name : Token) (superclass : Option Reference)
    (methods : List FunDecl) : Step Env := do
  let parent ← superclass? ρ superclass
  let ρ ← Step.declare ρ name.lexeme fun _ => .nil
  let home ←
    match parent with
    | none => pure ρ
    | some c => Step.extend ρ "super" fun _ => .classValue c
  let number := (← get).classCount
  modify fun W => { W with classCount := W.classCount + 1 }
  let head : ClassHead Env := ⟨number, name.lexeme, Machine.methodTable home methods⟩
  Step.write ρ name (.classValue (.of head parent))
  return ρ

/-- The value of a property of an object: a field, or else a method that works on it. -/
def property (id : ObjectId) (c : ClassValue Env) (name : Token) : Step (Value Env) := do
  match ((← get).fields[id]?.getD .empty).get? name.lexeme with
  | some v => return v
  | none =>
    match c.method? name.lexeme with
    | some method => return .function (← Step.bind method (.object id c))
    | none => Step.fail name (.undefinedProperty name.lexeme)

/-- A method of the superclass, working on the object of the method around the place. -/
def superMethod (ρ : Env) (method : Token) : Step (Value Env) := do
  match ρ.cell? "super", ρ.cell? "this" with
  | some parent, some this =>
    let parent ← Step.content parent
    let this ← Step.content this
    match parent with
    | .classValue c =>
      match c.method? method.lexeme with
      | some f => return .function (← Step.bind f this)
      | none => Step.fail method (.undefinedSuperMethod method.lexeme)
    | _ => throw (.breach .superNotClass)
  | _, _ => throw (.breach .unresolvedSuper)

/-- What a call yields when its body is through: an initializer its object. -/
def callResult (f : Closure Env) : Completion Env → Step (Value Env)
  | completion =>
    if f.isInitializer then
      match f.home.cell? "this" with
      | some this => Step.content this
      | none => return .nil
    else
      match completion with
      | .giveBack v => return v
      | _ => return .nil

/-- Executes statements, each where the one before has left it. -/
def inOrder (exec : Env → Stmt → Step (Completion Env × Env)) :
    Env → List Stmt → Step (Completion Env)
  | _, [] => return .normal
  | ρ, s :: rest => do
    match ← exec ρ s with
    | (.normal, ρ) => inOrder exec ρ rest
    | (other, _) => return other

mutual

/-- **Evaluates an expression.** -/
def eval (turns : Nat) : Nat → Env → Expr → Step (Value Env)
  | 0, _, _ => throw .stackOverflow
  | room + 1, ρ, e => do
    match e with
    | .literal v => return .ofLiteral v
    | .group e => eval turns room ρ e
    | .name r | .self r => Step.read ρ r.name
    | .assign r e => do
      let v ← eval turns room ρ e
      Step.write ρ r.name v
      return v
    | .unary op e => do
      let v ← eval turns room ρ e
      liftExcept (Operator.unary op v)
    | .binary l op r => do
      let a ← eval turns room ρ l
      let b ← eval turns room ρ r
      liftExcept (Operator.binary op a b)
    | .logical l op r => do
      let a ← eval turns room ρ l
      if Operator.decides op a then return a else eval turns room ρ r
    | .conditional t y n => do
      let v ← eval turns room ρ t
      if v.truthy then eval turns room ρ y else eval turns room ρ n
    | .call f paren args => do
      let callee ← eval turns room ρ f
      let values ← evalAll turns room ρ args
      match Machine.arity? callee with
      | none => Step.fail paren .notCallable
      | some n =>
        if values.length ≠ n then Step.fail paren (.wrongArity n values.length)
        else
          modify ({ · with line := paren.line })
          call turns room callee values
    | .get o p => do
      match ← eval turns room ρ o with
      | .object id c => property id c p
      | _ => Step.fail p .propertyOfNonObject
    | .set o p e => do
      match ← eval turns room ρ o with
      | .object id _ => do
        let v ← eval turns room ρ e
        Step.setField id p.lexeme v
        return v
      | _ => Step.fail p .fieldOfNonObject
    | .super _ m => superMethod ρ m

/-- Evaluates the arguments of a call. -/
def evalAll (turns : Nat) : Nat → Env → List Expr → Step (List (Value Env))
  | 0, _, _ => throw .stackOverflow
  | room + 1, ρ, args => args.mapM (eval turns room ρ)

/-- Calls a value with arguments of the right number. -/
def call (turns : Nat) : Nat → Value Env → List (Value Env) → Step (Value Env)
  | 0, _, _ => throw .stackOverflow
  | room + 1, callee, args => do
    match callee with
    | .function f => invoke turns room f args
    | .native .clock => Step.readClock
    | .classValue c => construct turns room c args
    | _ => return .nil

/-- Makes an object of a class and sets it up. -/
def construct (turns : Nat) : Nat → ClassValue Env → List (Value Env) → Step (Value Env)
  | 0, _, _ => throw .stackOverflow
  | room + 1, c, args => do
    let object ← Step.newObject c
    match c.initializer? with
    | none => return object
    | some f => do
      let f ← Step.bind f object
      let _ ← invoke turns room f args
      return object

/-- Calls a function: its body runs where its declaration stood, with its parameters. -/
def invoke (turns : Nat) : Nat → Closure Env → List (Value Env) → Step (Value Env)
  | 0, _, _ => throw .stackOverflow
  | room + 1, f, args => do
    let params := f.decl.params.map (·.lexeme)
    let ρ ← Step.extendAll f.home.inside (params.zip args)
    let completion ← execAll turns room ρ f.decl.body
    callResult f completion

/-- Executes the statements of a body. -/
def execAll (turns : Nat) : Nat → Env → List Stmt → Step (Completion Env)
  | 0, _, _ => throw .stackOverflow
  | room + 1, ρ, body => inOrder (exec turns room) ρ body

/-- **Executes a statement.**  Yields what names mean behind it. -/
def exec (turns : Nat) : Nat → Env → Stmt → Step (Completion Env × Env)
  | 0, _, _ => throw .stackOverflow
  | room + 1, ρ, s => do
    match s with
    | .expression e => do
      let _ ← eval turns room ρ e
      return (.normal, ρ)
    | .print e => do
      let v ← eval turns room ρ e
      modify fun W => { W with output := W.output ++ (v.render ++ "\n") }
      return (.normal, ρ)
    | .var n none => return (.normal, ← Step.declare ρ n.lexeme fun _ => .nil)
    | .var n (some e) => do
      let v ← eval turns room ρ e
      return (.normal, ← Step.declare ρ n.lexeme fun _ => v)
    | .block body => return (← execAll turns room ρ.inside body, ρ)
    | .branch t y n => do
      let v ← eval turns room ρ t
      if v.truthy then return ((← exec turns room ρ y).1, ρ)
      else
        match n with
        | some n => return ((← exec turns room ρ n).1, ρ)
        | none => return (.normal, ρ)
    | .loop t body =>
      let body := do return (← exec turns room ρ body).1
      return (← Run.repeatWhile (eval turns room ρ t) body turns, ρ)
    | .leave _ => return (.leave, ρ)
    | .giveBack _ none => return (.giveBack .nil, ρ)
    | .giveBack _ (some e) => return (.giveBack (← eval turns room ρ e), ρ)
    | .function d =>
      return (.normal, ← Step.declare ρ d.name.lexeme fun ρ => .function ⟨d, ρ, false⟩)
    | .classDecl n s ms => return (.normal, ← declareClass ρ n s ms)

end

/-- **Runs a program** in a world. -/
def runProgram (limits : Limits) (W : World) (p : Program) : Except Failure Unit × World :=
  let step (s : Stmt) := do return (← exec limits.turns limits.room .global s).1
  match Machine.runAll step p W with
  | .ok _ W => (.ok (), W)
  | .error e W => (.error e, W)

end Lexical
end LoxKit
