import LoxKit.Limits
import LoxKit.Machine.Operators
import LoxKit.Machine.Spare

/-!
# Running programs

Expressions are evaluated and statements executed by recursion on `room`.  Each activation
takes one unit of it: that of a node, of the arguments of a call, of the call itself, of the
function or the class that is called, and of the statements of a body.  A step for which not
enough is left fails with a stack overflow.  `turns` bounds the turns of each loop.

A block runs in a new frame, a call in a new frame on the frame of the function, and a class
with a superclass binds `super` in a frame around the frames of its methods.
-/
namespace LoxKit
namespace Machine

/-- What a call yields when its body is through. -/
def callResult (room : Nat) (f : Closure FrameId) :
    Completion FrameId → Run (Value FrameId)
  | completion => do
    if f.isInitializer then
      Run.need Spare.initialized room
      match (← get).frames.getAt f.home 0 "this" with
      | .ok v => return v
      | .error fault => throw (.breach (.access fault))
    else
      match completion with
      | .giveBack v => return v
      | _ => return .nil

/-- The methods of a class as functions of the same surroundings. -/
def methodTable {σ : Type} (home : σ) (methods : List FunDecl) : Bindings (Closure σ) :=
  .ofList (methods.map fun d => (d.name.lexeme, ⟨d, home, d.isInitializer⟩))

/-- The superclass that a reference stands for, which takes the room of a node. -/
def superclass? (room : Nat) : Option Reference → Run (Option (ClassValue FrameId))
  | none => return none
  | some r => do
    Run.need (1 + Spare.read r) room
    match ← Run.readReference r with
    | .classValue c => return some c
    | _ => Run.fail r.name .superclassNotClass

/-- **Declares a class.**  Its name is defined before its methods exist. -/
def declareClass (room : Nat) (name : Token) (superclass : Option Reference)
    (methods : List FunDecl) : Run Unit := do
  let parent ← superclass? room superclass
  Run.need Spare.define room
  Run.define name.lexeme .nil
  let here := (← get).current
  let frame ←
    match parent with
    | none => pure here
    | some c => do
      Run.need Spare.make room
      Run.newFrame here (.ofList [("super", .classValue c)])
  Run.need (if methods.isEmpty then Spare.make else 1 + Spare.make) room
  let number := (← get).classCount
  modify fun m => { m with classCount := m.classCount + 1 }
  let head : ClassHead FrameId := ⟨number, name.lexeme, methodTable frame methods⟩
  Run.assignFrom here name (.classValue (.of head parent))

/-- The value of a property of an object: a field, or else a method that works on it. -/
def property (room : Nat) (id : ObjectId) (c : ClassValue FrameId) (name : Token) :
    Run (Value FrameId) := do
  match ((← get).fields[id]?.getD .empty).get? name.lexeme with
  | some v => do
    Run.need Spare.field room
    return v
  | none => do
    Run.need (1 + Spare.bind) room
    match c.method? name.lexeme with
    | some method => return .function (← Run.bind method (.object id c))
    | none => Run.fail name (.undefinedProperty name.lexeme)

/-- A method of the superclass, working on the object of the method around the place.  That
object is bound one frame inside the superclass. -/
def superMethod (room : Nat) (r : Reference) (method : Token) : Run (Value FrameId) := do
  Run.need Spare.bind room
  match r.hops with
  | none => throw (.breach .unresolvedSuper)
  | some hops =>
    let parent ← Run.readAt hops "super"
    let this ← Run.readAt (hops - 1) "this"
    match parent with
    | .classValue c =>
      match c.method? method.lexeme with
      | some f => return .function (← Run.bind f this)
      | none => Run.fail method (.undefinedSuperMethod method.lexeme)
    | _ => throw (.breach .superNotClass)

/-- How many arguments a value takes when called, if it can be called. -/
def arity? {σ : Type} : Value σ → Option Nat
  | .function f => some f.decl.arity
  | .native f => some f.arity
  | .classValue c => some c.arity
  | _ => none

mutual

/-- **Evaluates an expression.** -/
def eval (turns : Nat) : Nat → Expr → Run (Value FrameId)
  | 0, _ => throw .stackOverflow
  | room + 1, e => do
    match e with
    | .literal v => return .ofLiteral v
    | .group e => eval turns room e
    | .name r | .self r => do
      Run.need (Spare.read r) room
      Run.readReference r
    | .assign r e => do
      let v ← eval turns room e
      Run.need (Spare.write r) room
      Run.writeReference r v
      return v
    | .unary op e => do
      let v ← eval turns room e
      Run.need (Spare.unary op) room
      liftExcept (Operator.unary op v)
    | .binary l op r => do
      let a ← eval turns room l
      let b ← eval turns room r
      Run.need (Spare.binary op a b) room
      liftExcept (Operator.binary op a b)
    | .logical l op r => do
      let a ← eval turns room l
      Run.need Spare.truth room
      if Operator.decides op a then return a else eval turns room r
    | .conditional t y n => do
      let v ← eval turns room t
      Run.need Spare.truth room
      if v.truthy then eval turns room y else eval turns room n
    | .call f paren args => do
      let callee ← eval turns room f
      let values ← evalAll turns room args
      Run.need Spare.callable room
      match arity? callee with
      | none => Run.fail paren .notCallable
      | some n =>
        if values.length ≠ n then Run.fail paren (.wrongArity n values.length)
        else
          modify ({ · with line := paren.line })
          call turns room callee values
    | .get o p => do
      match ← eval turns room o with
      | .object id c => property room id c p
      | _ => Run.fail p .propertyOfNonObject
    | .set o p e => do
      match ← eval turns room o with
      | .object id _ => do
        let v ← eval turns room e
        Run.need Spare.field room
        Run.setField id p.lexeme v
        return v
      | _ => Run.fail p .fieldOfNonObject
    | .super r m => superMethod room r m

/-- Evaluates the arguments of a call. -/
def evalAll (turns : Nat) : Nat → List Expr → Run (List (Value FrameId))
  | 0, _ => throw .stackOverflow
  | room + 1, args => args.mapM (eval turns room)

/-- Calls a value with arguments of the right number. -/
def call (turns : Nat) : Nat → Value FrameId → List (Value FrameId) → Run (Value FrameId)
  | 0, _, _ => throw .stackOverflow
  | room + 1, callee, args => do
    match callee with
    | .function f => invoke turns room f args
    | .native .clock => do
      Run.need Spare.clock room
      Run.readClock
    | .classValue c => construct turns room c args
    | _ => return .nil

/-- Makes an object of a class and sets it up. -/
def construct (turns : Nat) :
    Nat → ClassValue FrameId → List (Value FrameId) → Run (Value FrameId)
  | 0, _, _ => throw .stackOverflow
  | room + 1, c, args => do
    Run.need Spare.make room
    let object ← Run.newObject c
    match c.initializer? with
    | none => return object
    | some f => do
      Run.need Spare.bind room
      let f ← Run.bind f object
      let _ ← invoke turns room f args
      return object

/-- Calls a function, whose body runs in a new frame that binds the parameters. -/
def invoke (turns : Nat) : Nat → Closure FrameId → List (Value FrameId) → Run (Value FrameId)
  | 0, _, _ => throw .stackOverflow
  | room + 1, f, args => do
    Run.need Spare.make room
    let params := f.decl.params.map (·.lexeme)
    let frame ← Run.newFrame f.home (.ofList (params.zip args))
    let completion ← Run.inFrame frame (execAll turns room f.decl.body)
    callResult room f completion

/-- Executes the statements of a body. -/
def execAll (turns : Nat) : Nat → List Stmt → Run (Completion FrameId)
  | 0, _ => throw .stackOverflow
  | room + 1, body => Run.untilLeft (exec turns room) body

/-- **Executes a statement.** -/
def exec (turns : Nat) : Nat → Stmt → Run (Completion FrameId)
  | 0, _ => throw .stackOverflow
  | room + 1, s => do
    match s with
    | .expression e => do
      let _ ← eval turns room e
      return .normal
    | .print e => do
      let v ← eval turns room e
      Run.need (Spare.words v) room
      modify (·.write (v.render ++ "\n"))
      return .normal
    | .var n none => do
      Run.need Spare.define room
      Run.define n.lexeme .nil
      return .normal
    | .var n (some e) => do
      let v ← eval turns room e
      Run.need Spare.define room
      Run.define n.lexeme v
      return .normal
    | .block body => do
      Run.need Spare.make room
      let frame ← Run.newFrame (← get).current .empty
      Run.inFrame frame (execAll turns room body)
    | .branch t y n => do
      let v ← eval turns room t
      Run.need Spare.truth room
      if v.truthy then exec turns room y
      else
        match n with
        | some n => exec turns room n
        | none => return .normal
    | .loop t body =>
      let test := do
        let v ← eval turns room t
        Run.need Spare.truth room
        return v
      Run.repeatWhile test (exec turns room body) turns
    | .leave _ => return .leave
    | .giveBack _ none => do
      Run.need Spare.make room
      return .giveBack .nil
    | .giveBack _ (some e) => do
      let v ← eval turns room e
      Run.need Spare.make room
      return .giveBack v
    | .function d => do
      Run.need Spare.make room
      let here := (← get).current
      Run.define d.name.lexeme (.function ⟨d, here, false⟩)
      return .normal
    | .classDecl n s ms => do
      Run.need 1 room
      declareClass (room - 1) n s ms
      return .normal

end

/-- Runs a step of a machine. -/
def after (m : Machine) (step : Run α) : Except Failure α × Machine :=
  match step m with
  | .ok a m => (.ok a, m)
  | .error e m => (.error e, m)

/-- Executes one statement. -/
def execute (limits : Limits) (m : Machine) (s : Stmt) :
    Except Failure (Completion FrameId) × Machine :=
  m.after (exec limits.turns limits.room s)

/-- Evaluates an expression. -/
def evaluate (limits : Limits) (m : Machine) (e : Expr) :
    Except Failure (Value FrameId) × Machine :=
  m.after (eval limits.turns limits.room e)

/-- Executes top-level statements in order.  A value given back ends them. -/
def runAll {ς σ : Type} (exec : Stmt → EStateM Failure ς (Completion σ)) :
    List Stmt → EStateM Failure ς Unit
  | [] => return
  | s :: rest => do
    match ← exec s with
    | .giveBack _ => return
    | _ => runAll exec rest

/-- **Runs a program.** -/
def runProgram (limits : Limits) (m : Machine) (p : Program) : Except Failure Unit × Machine :=
  m.after (runAll (exec limits.turns limits.room) p)

end Machine
end LoxKit
