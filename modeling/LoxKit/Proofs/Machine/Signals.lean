import LoxKit.Proofs.Machine.Noted

/-!
# The signals of a run

A `break` and a `return` are signals to what is around them: they end a loop and a call.  Here a
run is told with notes of all that has to do with them: where a loop and a call begin and end,
what the test of a loop says, where a `break` and a `return` are executed, and, to show what
comes between, where the execution of a statement and the evaluation of an expression begin
(`Signal`).

To tell a run with its signals changes nothing: without them it is the run itself
(`Machine.traceRunAll_shows`).
-/
namespace LoxKit

/-- **What is noted of the control of a run.** -/
inductive Signal where
  /-- The evaluation of an expression begins. -/
  | evaluated (e : Expr)
  /-- The execution of a statement begins. -/
  | executed (s : Stmt)
  | loopBegun
  /-- The test of a loop is evaluated to a value. -/
  | tested (v : Value FrameId)
  /-- A loop ends, and leaves so much to do. -/
  | loopEnded (c : Completion FrameId)
  /-- The body of a function begins. -/
  | callBegun (f : FunDecl)
  /-- The body of a function ends, and leaves so much to do. -/
  | callEnded (f : FunDecl) (c : Completion FrameId)
  /-- A `break` is executed. -/
  | left (keyword : Token)
  /-- A `return` is executed, with a value. -/
  | gaveBack (keyword : Token) (v : Value FrameId)

/-- A step that may leave signals. -/
abbrev Tracing := Noting Signal

namespace Machine

open Noting

mutual

/-- **Evaluates an expression, with signals.** -/
def traceEval (turns : Nat) : Nat → Expr → Tracing (Value FrameId)
  | 0, _ => throw .stackOverflow
  | room + 1, e => do
    note (.evaluated e)
    match e with
    | .literal v => return .ofLiteral v
    | .group e => traceEval turns room e
    | .name r | .self r => do
      Run.need (Spare.read r) room
      Run.readReference r
    | .assign r e => do
      let v ← traceEval turns room e
      Run.need (Spare.write r) room
      Run.writeReference r v
      return v
    | .unary op e => do
      let v ← traceEval turns room e
      Run.need (Spare.unary op) room
      (liftExcept (Operator.unary op v) : Run _)
    | .binary l op r => do
      let a ← traceEval turns room l
      let b ← traceEval turns room r
      Run.need (Spare.binary op a b) room
      (liftExcept (Operator.binary op a b) : Run _)
    | .logical l op r => do
      let a ← traceEval turns room l
      Run.need Spare.truth room
      if Operator.decides op a then return a else traceEval turns room r
    | .conditional t y n => do
      let v ← traceEval turns room t
      Run.need Spare.truth room
      if v.truthy then traceEval turns room y else traceEval turns room n
    | .call f paren args => do
      let callee ← traceEval turns room f
      let values ← traceEvalAll turns room args
      Run.need Spare.callable room
      match arity? callee with
      | none => Run.fail paren .notCallable
      | some n =>
        if values.length ≠ n then Run.fail paren (.wrongArity n values.length)
        else
          (modify ({ · with line := paren.line }) : Run Unit)
          traceCall turns room callee values
    | .get o p => do
      match ← traceEval turns room o with
      | .object id c => property room id c p
      | _ => Run.fail p .propertyOfNonObject
    | .set o p e => do
      match ← traceEval turns room o with
      | .object id _ => do
        let v ← traceEval turns room e
        Run.need Spare.field room
        Run.setField id p.lexeme v
        return v
      | _ => Run.fail p .fieldOfNonObject
    | .super r m => superMethod room r m

/-- Evaluates the arguments of a call, with signals. -/
def traceEvalAll (turns : Nat) : Nat → List Expr → Tracing (List (Value FrameId))
  | 0, _ => throw .stackOverflow
  | room + 1, args => args.mapM (traceEval turns room)

/-- Calls a value, with signals. -/
def traceCall (turns : Nat) :
    Nat → Value FrameId → List (Value FrameId) → Tracing (Value FrameId)
  | 0, _, _ => throw .stackOverflow
  | room + 1, callee, args => do
    match callee with
    | .function f => traceInvoke turns room f args
    | .native .clock => do
      Run.need Spare.clock room
      Run.readClock
    | .classValue c => traceConstruct turns room c args
    | _ => return .nil

/-- Makes an object, with signals. -/
def traceConstruct (turns : Nat) :
    Nat → ClassValue FrameId → List (Value FrameId) → Tracing (Value FrameId)
  | 0, _, _ => throw .stackOverflow
  | room + 1, c, args => do
    Run.need Spare.make room
    let object ← Run.newObject c
    match c.initializer? with
    | none => return object
    | some f => do
      Run.need Spare.bind room
      let f ← Run.bind f object
      let _ ← traceInvoke turns room f args
      return object

/-- **Calls a function, with signals.** -/
def traceInvoke (turns : Nat) :
    Nat → Closure FrameId → List (Value FrameId) → Tracing (Value FrameId)
  | 0, _, _ => throw .stackOverflow
  | room + 1, f, args => do
    Run.need Spare.make room
    let params := f.decl.params.map (·.lexeme)
    let frame ← Run.newFrame f.home (.ofList (params.zip args))
    note (.callBegun f.decl)
    let completion ← inFrame frame (traceExecAll turns room f.decl.body)
    note (.callEnded f.decl completion)
    callResult room f completion

/-- Executes the statements of a body, with signals. -/
def traceExecAll (turns : Nat) : Nat → List Stmt → Tracing (Completion FrameId)
  | 0, _ => throw .stackOverflow
  | room + 1, body => Run.untilLeft (traceExec turns room) body

/-- **Executes a statement, with signals.** -/
def traceExec (turns : Nat) : Nat → Stmt → Tracing (Completion FrameId)
  | 0, _ => throw .stackOverflow
  | room + 1, s => do
    note (.executed s)
    match s with
    | .expression e => do
      let _ ← traceEval turns room e
      return .normal
    | .print e => do
      let v ← traceEval turns room e
      Run.need (Spare.words v) room
      (modify (·.write (v.render ++ "\n")) : Run Unit)
      return .normal
    | .var n none => do
      Run.need Spare.define room
      Run.define n.lexeme .nil
      return .normal
    | .var n (some e) => do
      let v ← traceEval turns room e
      Run.need Spare.define room
      Run.define n.lexeme v
      return .normal
    | .block body => do
      Run.need Spare.make room
      let frame ← Run.newFrame (← get).machine.current .empty
      inFrame frame (traceExecAll turns room body)
    | .branch t y n => do
      let v ← traceEval turns room t
      Run.need Spare.truth room
      if v.truthy then traceExec turns room y
      else
        match n with
        | some n => traceExec turns room n
        | none => return .normal
    | .loop t body => do
      let test := do
        let v ← traceEval turns room t
        Run.need Spare.truth room
        note (.tested v)
        return v
      note .loopBegun
      let completion ← Run.repeatWhile test (traceExec turns room body) turns
      note (.loopEnded completion)
      return completion
    | .leave k => do
      note (.left k)
      return .leave
    | .giveBack k none => do
      Run.need Spare.make room
      note (.gaveBack k .nil)
      return .giveBack .nil
    | .giveBack k (some e) => do
      let v ← traceEval turns room e
      Run.need Spare.make room
      note (.gaveBack k v)
      return .giveBack v
    | .function d => do
      Run.need Spare.make room
      let here := (← get).machine.current
      Run.define d.name.lexeme (.function ⟨d, here, false⟩)
      return .normal
    | .classDecl n s ms => do
      Run.need 1 room
      declareClass (room - 1) n s ms
      return .normal

end

/-! ## Signals change nothing -/

/-- The functions with signals show those without. -/
structure TracesAt (turns room : Nat) : Prop where
  eval : ∀ e, Shows (traceEval turns room e) (Machine.eval turns room e)
  evalAll : ∀ es, Shows (traceEvalAll turns room es) (Machine.evalAll turns room es)
  call : ∀ v vs, Shows (traceCall turns room v vs) (Machine.call turns room v vs)
  construct : ∀ c vs, Shows (traceConstruct turns room c vs) (Machine.construct turns room c vs)
  invoke : ∀ f vs, Shows (traceInvoke turns room f vs) (Machine.invoke turns room f vs)
  execAll : ∀ ss, Shows (traceExecAll turns room ss) (Machine.execAll turns room ss)
  exec : ∀ s, Shows (traceExec turns room s) (Machine.exec turns room s)

namespace TracesAt

variable {turns room : Nat}

theorem eval_succ (h : TracesAt turns room) (e : Expr) :
    Shows (traceEval turns (room + 1) e) (Machine.eval turns (room + 1) e) := by
  refine .note ?_
  cases e with
  | literal v => exact .pure _
  | group e => exact h.eval e
  | name r | self r => exact .bind (.lift _) fun _ => .lift _
  | assign r e =>
    exact .bind (h.eval e) fun _ => .bind (.lift _) fun _ => .bind (.lift _) fun _ => .pure _
  | unary op e => exact .bind (h.eval e) fun _ => .bind (.lift _) fun _ => .lift _
  | binary l op r =>
    exact .bind (h.eval l) fun _ => .bind (h.eval r) fun _ => .bind (.lift _) fun _ => .lift _
  | logical l op r =>
    exact .bind (h.eval l) fun _ => .bind (.lift _) fun _ => .ite (.pure _) (h.eval r)
  | conditional t y n =>
    exact .bind (h.eval t) fun _ => .bind (.lift _) fun _ => .ite (h.eval y) (h.eval n)
  | call f paren args =>
    refine .bind (h.eval f) fun callee => .bind (h.evalAll args) fun values =>
      .bind (.lift _) fun _ => ?_
    cases arity? callee with
    | none => exact .lift _
    | some n => exact .ite (.lift _) (.bind (.lift _) fun _ => h.call callee values)
  | get o p =>
    refine .bind (h.eval o) fun v => ?_
    cases v <;> exact .lift _
  | set o p e =>
    refine .bind (h.eval o) fun v => ?_
    cases v with
    | object id c =>
      exact .bind (h.eval e) fun _ => .bind (.lift _) fun _ => .bind (.lift _) fun _ => .pure _
    | _ => exact .lift _
  | super r m => exact .lift _

theorem call_succ (h : TracesAt turns room) (v : Value FrameId) (vs : List (Value FrameId)) :
    Shows (traceCall turns (room + 1) v vs) (Machine.call turns (room + 1) v vs) := by
  cases v with
  | function f => exact h.invoke f vs
  | native f =>
    cases f
    exact .bind (.lift _) fun _ => .lift _
  | classValue c => exact h.construct c vs
  | _ => exact .pure _

theorem construct_succ (h : TracesAt turns room) (c : ClassValue FrameId)
    (vs : List (Value FrameId)) :
    Shows (traceConstruct turns (room + 1) c vs) (Machine.construct turns (room + 1) c vs) := by
  refine .bind (.lift _) fun _ => .bind (.lift _) fun object => ?_
  cases c.initializer? with
  | none => exact .pure _
  | some f =>
    exact .bind (.lift _) fun _ => .bind (.lift _) fun f => .bind (h.invoke f vs) fun _ => .pure _

theorem invoke_succ (h : TracesAt turns room) (f : Closure FrameId) (vs : List (Value FrameId)) :
    Shows (traceInvoke turns (room + 1) f vs) (Machine.invoke turns (room + 1) f vs) :=
  .bind (.lift _) fun _ => .bind (.lift _) fun frame =>
    .note (.bind (.inFrame frame (h.execAll _)) fun _ => .note (.lift _))

theorem exec_succ (h : TracesAt turns room) (s : Stmt) :
    Shows (traceExec turns (room + 1) s) (Machine.exec turns (room + 1) s) := by
  refine .note ?_
  cases s with
  | expression e => exact .bind (h.eval e) fun _ => .pure _
  | print e =>
    exact .bind (h.eval e) fun _ => .bind (.lift _) fun _ => .bind (.lift _) fun _ => .pure _
  | var n e =>
    cases e with
    | none => exact .bind (.lift _) fun _ => .bind (.lift _) fun _ => .pure _
    | some e =>
      exact .bind (h.eval e) fun _ => .bind (.lift _) fun _ => .bind (.lift _) fun _ => .pure _
  | block body =>
    exact .bind (.lift _) fun _ => .get fun _ => .bind (.lift _) fun f =>
      .inFrame f (h.execAll body)
  | branch t y n =>
    refine .bind (h.eval t) fun _ => .bind (.lift _) fun _ => .ite (h.exec y) ?_
    cases n with
    | none => exact .pure _
    | some n => exact h.exec n
  | loop t body =>
    have htest := Shows.bind (h.eval t) fun v =>
      .bind (.lift (Run.need Spare.truth room)) fun _ => .note (e := Signal.tested v)
        (x := fun _ => Pure.pure v) (.pure v)
    exact .note (.noteBehind .loopEnded (.repeatWhile htest (h.exec body) turns))
  | leave k => exact .note (.pure _)
  | giveBack k e =>
    cases e with
    | none => exact .bind (.lift _) fun _ => .note (.pure _)
    | some e => exact .bind (h.eval e) fun _ => .bind (.lift _) fun _ => .note (.pure _)
  | function d => exact .bind (.lift _) fun _ => .get fun _ => .bind (.lift _) fun _ => .pure _
  | classDecl n s ms => exact .bind (.lift _) fun _ => .bind (.lift _) fun _ => .pure _

end TracesAt

theorem tracesAt (turns room : Nat) : TracesAt turns room := by
  induction room with
  | zero =>
    exact ⟨fun _ => .throw _, fun _ => .throw _, fun _ _ => .throw _, fun _ _ => .throw _,
      fun _ _ => .throw _, fun _ => .throw _, fun _ => .throw _⟩
  | succ room h =>
    exact ⟨h.eval_succ, fun es => .mapM h.eval es, h.call_succ, h.construct_succ, h.invoke_succ,
      fun ss => .untilLeft h.exec ss, h.exec_succ⟩

/-- **To tell a run with its signals changes nothing.** -/
theorem traceRunAll_shows (turns room : Nat) (p : List Stmt) :
    Shows (runAll (traceExec turns room) p) (runAll (exec turns room) p) := by
  induction p with
  | nil => exact .pure _
  | cons s rest ih =>
    refine .bind ((tracesAt turns room).exec s) fun c => ?_
    cases c with
    | giveBack v => exact .pure _
    | normal | leave => exact ih

end Machine
end LoxKit
