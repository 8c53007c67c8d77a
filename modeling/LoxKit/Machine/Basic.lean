import LoxKit.Store
import LoxKit.Value

/-!
# The machine

The state in which programs run: the frames and the objects made so far, the frame in which
the next name is defined, the output, and the clock.  Frame 0 is the global frame; it binds
the native functions from the start.

A step of a run may fail.  A failure of the program itself names the token at which it
arose; running out of room is a failure of its own; what remains are broken promises between
resolution and run, which no resolved program meets, and the end of patience with a loop.
-/
namespace LoxKit

variable {σ : Type}

/-- **What a program can do wrong** while it runs. -/
inductive RunError where
  | undefinedVariable (name : String)
  | undefinedProperty (name : String)
  /-- The superclass has no method of the name. -/
  | undefinedSuperMethod (name : String)
  | operandNotNumber
  | operandsNotNumbers
  | operandsNotAddable
  | divisionByZero
  | notCallable
  | wrongArity (expected given : Nat)
  | propertyOfNonObject
  | fieldOfNonObject
  | superclassNotClass
  deriving DecidableEq

/-- The wording of each error. -/
def RunError.message : RunError → String
  | undefinedVariable name => (AccessFault.undefined name).message
  | undefinedProperty name => s!"Undefined property '{name}'."
  | undefinedSuperMethod name => s!"Undefined property '{name}'."
  | operandNotNumber => "Operand must be a number."
  | operandsNotNumbers => "Operands must be numbers."
  | operandsNotAddable => "Operands must be two numbers or include a string."
  | divisionByZero => "Division by zero."
  | notCallable => "Can only call functions and classes."
  | wrongArity expected given => s!"Expected {expected} arguments but got {given}."
  | propertyOfNonObject => "Only instances have properties."
  | fieldOfNonObject => "Only instances have fields."
  | superclassNotClass => "Superclass must be a class."

/-- **A broken promise** between the stages. -/
inductive Breach where
  /-- A resolved name is not where resolution saw it. -/
  | access (fault : AccessFault)
  /-- A binary expression with an operator that is none. -/
  | binaryOperator (lexeme : String)
  /-- A unary expression with an operator that is none. -/
  | unaryOperator (lexeme : String)
  /-- `super` was not resolved. -/
  | unresolvedSuper
  /-- `super` is bound to something other than a class. -/
  | superNotClass
  deriving DecidableEq

/-- The wording of a breach, for those that have one. -/
def Breach.message? : Breach → Option String
  | access fault => some fault.message
  | binaryOperator lexeme => some s!"Unknown binary operator '{lexeme}'"
  | unaryOperator lexeme => some s!"Unknown unary operator '{lexeme}'"
  | unresolvedSuper => none
  | superNotClass => none

/-- **Why a step failed.** -/
inductive Failure where
  | error (place : Token) (cause : RunError)
  | stackOverflow
  | breach (cause : Breach)
  /-- A loop took more turns than were granted. -/
  | outOfTurns
  deriving DecidableEq

namespace Failure

theorem error_ne_breach (place : Token) (cause : RunError) (b : Breach) :
    error place cause ≠ breach b := by
  intro h
  cases h

theorem stackOverflow_ne_breach (b : Breach) : stackOverflow ≠ breach b := by
  intro h
  cases h

theorem outOfTurns_ne_breach (b : Breach) : outOfTurns ≠ breach b := by
  intro h
  cases h

end Failure

/-- What executing a statement leaves to its surroundings. -/
inductive Completion (σ : Type) where
  /-- Go on with the next statement. -/
  | normal
  /-- Leave the innermost loop. -/
  | leave
  /-- Leave the innermost call with a value. -/
  | giveBack (v : Value σ)
  deriving Inhabited

/-- A completion in listings. -/
def Completion.inspect : Completion σ → String
  | normal => "None"
  | leave => "BREAK"
  | giveBack v => s!"ReturnSignal({v.inspect})"

/-- The global frame. -/
def globalFrame : FrameId := 0

/-- **The state of the machine.** -/
structure Machine where
  frames : Store (Value FrameId)
  /-- The frame in which names are defined. -/
  current : FrameId := globalFrame
  /-- The fields of each object, by its number. -/
  fields : Array (Bindings (Value FrameId)) := #[]
  /-- The number of classes made so far. -/
  classCount : Nat := 0
  /-- The line of the call begun last, 0 before the first. -/
  line : Int := 0
  /-- All that was printed. -/
  output : String := ""
  /-- What the clock shows, in seconds, at each reading. -/
  clock : Nat → Float
  /-- The number of readings of the clock. -/
  readings : Nat := 0

namespace Machine

/-- The frames of a machine that has run nothing. -/
def initialFrames : Store (Value FrameId) :=
  (Store.new {} none (.ofList [(Native.clock.name, .native .clock)])).2

/-- A machine that has run nothing. -/
def initial (clock : Nat → Float) : Machine := { frames := initialFrames, clock }

/-- At first the clock is bound, and nothing else. -/
theorem of_get?_initialFrames {f : FrameId} {x : String} {v : Value FrameId}
    (h : (initialFrames.bindings f).get? x = some v) :
    x = Native.clock.name ∧ v = .native .clock := by
  rw [initialFrames, Store.bindings_new] at h
  split at h
  · exact Bindings.of_get?_singleton h
  · cases h

/-- The global names with their values, in the order of their definitions. -/
def globals (m : Machine) : Bindings (Value FrameId) := m.frames.bindings globalFrame

/-- Adds to the output. -/
def write (m : Machine) (text : String) : Machine := { m with output := m.output ++ text }

end Machine

/-- **A step of a run.** -/
abbrev Run := EStateM Failure Machine

namespace Run

/-- Fails with an error of the program at a token. -/
def fail (place : Token) (cause : RunError) : Run α := throw (.error place cause)

/-- Goes on only if there is so much spare room. -/
def need (spare room : Nat) : Run Unit :=
  if room < spare then throw .stackOverflow else return

/-- Turns an access to the frames into a step.  That a name is bound nowhere is an error of
the program at the token of the name, all else a breach. -/
def access (name : Token) : Except AccessFault α → Run α
  | .ok a => return a
  | .error (.undefined x) => fail name (.undefinedVariable x)
  | .error fault => throw (.breach (.access fault))

/-- A new frame. -/
def newFrame (enclosing : FrameId) (bindings : Bindings (Value FrameId)) : Run FrameId := do
  let f := (← get).frames.frames.size
  modify fun m => { m with frames := (m.frames.new (some enclosing) bindings).2 }
  return f

/-- Binds a name in a frame. -/
def bindIn (f : FrameId) (name : String) (v : Value FrameId) : Run Unit :=
  modify fun m => { m with frames := m.frames.define f name v }

/-- Defines a name in the current frame. -/
def define (name : String) (v : Value FrameId) : Run Unit := do bindIn (← get).current name v

/-- Runs a step in another frame.  The frame before is current again afterwards, however the
step ends. -/
def inFrame (f : FrameId) (step : Run α) : Run α := fun m =>
  let before := m.current
  match step { m with current := f } with
  | .ok a m => .ok a { m with current := before }
  | .error e m => .error e { m with current := before }

/-- The value that a resolved use finds so many frames outward. -/
def readAt (hops : Int) (name : String) : Run (Value FrameId) := do
  let m ← get
  match m.frames.getAt m.current hops name with
  | .ok v => return v
  | .error fault => throw (.breach (.access fault))

/-- **The value of a reference**: that of the frame found by resolution, or else that of the
global name. -/
def readReference (r : Reference) : Run (Value FrameId) := do
  match r.hops with
  | some hops => readAt hops r.name.lexeme
  | none => access r.name ((← get).frames.get globalFrame r.name.lexeme)

/-- Gives a name a new value in the nearest frame outward that binds it. -/
def assignFrom (f : FrameId) (name : Token) (v : Value FrameId) : Run Unit := do
  let g ← access name ((← get).frames.locate f name.lexeme)
  bindIn g name.lexeme v

/-- Gives a resolved name a new value in the frame found by resolution. -/
def assignAt (hops : Int) (name : Token) (v : Value FrameId) : Run Unit := do
  let m ← get
  let g ← access name (m.frames.locateAt m.current hops name.lexeme)
  bindIn g name.lexeme v

/-- **Assigns to a reference**, in the frame found by resolution or else globally. -/
def writeReference (r : Reference) (v : Value FrameId) : Run Unit :=
  match r.hops with
  | some hops => assignAt hops r.name v
  | none => assignFrom globalFrame r.name v

theorem get_bind (f : Machine → Run α) (m : Machine) : (get >>= f) m = f m m := rfl

theorem readAt_ok {m : Machine} {hops : Int} {x : String} {v : Value FrameId}
    (h : m.frames.getAt m.current hops x = .ok v) : readAt hops x m = .ok v m := by
  unfold readAt
  rw [get_bind, h]
  rfl

theorem assignFrom_ok {m : Machine} {f g : FrameId} {name : Token}
    (h : m.frames.locate f name.lexeme = .ok g) (v : Value FrameId) :
    assignFrom f name v m = .ok () { m with frames := m.frames.define g name.lexeme v } := by
  unfold assignFrom
  rw [get_bind, h]
  rfl

theorem assignAt_ok {m : Machine} {hops : Int} {g : FrameId} {name : Token}
    (h : m.frames.locateAt m.current hops name.lexeme = .ok g) (v : Value FrameId) :
    assignAt hops name v m = .ok () { m with frames := m.frames.define g name.lexeme v } := by
  unfold assignAt
  rw [get_bind, h]
  rfl

/-- A name that is missing at the distance cannot be assigned to. -/
theorem assignAt_missing {m : Machine} {hops : Int} {name : Token}
    (h : m.frames.locateAt m.current hops name.lexeme = .error (.missing name.lexeme hops))
    (v : Value FrameId) :
    assignAt hops name v m = .error (.breach (.access (.missing name.lexeme hops))) m := by
  unfold assignAt
  rw [get_bind, h]
  rfl

/-- A copy of a method that works on a value as `this`. -/
def bind (method : Closure FrameId) (this : Value FrameId) : Run (Closure FrameId) := do
  let f ← newFrame method.home (.ofList [("this", this)])
  return { method with home := f }

/-- A new object without fields. -/
def newObject (c : ClassValue FrameId) : Run (Value FrameId) := do
  let id := (← get).fields.size
  modify fun m => { m with fields := m.fields.push .empty }
  return .object id c

/-- Gives a field of an object a value. -/
def setField (id : ObjectId) (name : String) (v : Value FrameId) : Run Unit :=
  modify fun m => { m with fields := m.fields.modify id (·.put name v) }

/-- Reads the clock. -/
def readClock : Run (Value FrameId) := do
  let m ← get
  modify fun m => { m with readings := m.readings + 1 }
  return .number (m.clock m.readings)

/-- Executes statements until one leaves more to do than to go on. -/
def untilLeft {ς : Type} (exec : Stmt → EStateM Failure ς (Completion σ)) :
    List Stmt → EStateM Failure ς (Completion σ)
  | [] => return .normal
  | s :: rest => do
    match ← exec s with
    | .normal => untilLeft exec rest
    | other => return other

/-- Repeats a body while a test holds, for at most the given number of turns. -/
def repeatWhile {ς : Type} (test : EStateM Failure ς (Value σ))
    (body : EStateM Failure ς (Completion σ)) : Nat → EStateM Failure ς (Completion σ)
  | 0 => throw .outOfTurns
  | turns + 1 => do
    let v ← test
    if v.truthy then
      match ← body with
      | .normal => repeatWhile test body turns
      | .leave => return .normal
      | .giveBack v => return .giveBack v
    else return .normal

end Run
end LoxKit
