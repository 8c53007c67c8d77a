import LoxKit.Machine.Eval
import LoxKit.Proofs.Scope.Visit

/-!
# Watching a run

A run says nothing of the moments it passes through.  Here the machine runs under watch: a
journal notes each frame that is opened, with the construct it is opened for, and each node
that uses a name when its evaluation begins (`Event`).  An assignment is noted once more when
its value is there and is about to be stored.

To watch a run changes nothing: without its journal it is the run itself
(`Machine.watchRunAll_shows`).
-/
namespace LoxKit

open Scope

/-- **What a frame is opened for.** -/
inductive Opening where
  | block (body : List Stmt)
  | call (decl : FunDecl)
  /-- To bind the object that a method works on. -/
  | receiver (decl : FunDecl)
  /-- To bind the superclass for the methods of a class. -/
  | parent (site : ClassSite)

/-- **What is noted of a run**, with the machine as it was then. -/
inductive Event where
  | opened (frame : FrameId) (opening : Opening)
  /-- The evaluation of a node that uses a name begins. -/
  | used (kind : UseKind) (ref : Reference) (machine : Machine)
  /-- The value of an assignment is about to be stored. -/
  | stored (ref : Reference) (machine : Machine)

/-- The events noted so far, in order. -/
abbrev Journal := List Event

/-- What holds of each note with those in front of it still does behind a last one. -/
theorem Journal.forall_append {ε : Type} {P : List ε → ε → Prop} {es : List ε} {e : ε}
    (h : ∀ before e' after, es = before ++ e' :: after → P before e') (he : P es e) :
    ∀ before e' after, es ++ [e] = before ++ e' :: after → P before e' := by
  intro before e' after hes
  rcases List.eq_nil_or_concat after with rfl | ⟨after, last, rfl⟩
  · obtain ⟨hbefore, hlast⟩ := List.append_inj' hes rfl
    cases hlast
    rwa [← hbefore]
  · rw [List.concat_eq_append, ← List.cons_append, ← List.append_assoc] at hes
    exact h before e' after (List.append_inj' hes rfl).1

/-- **A machine under watch.** -/
structure Watched where
  machine : Machine
  journal : Journal := []

/-- A step of a run under watch. -/
abbrev Watching := EStateM Failure Watched

namespace Watching

variable {α β : Type}

/-- A step in which there is nothing to note. -/
def lift (step : Run α) : Watching α := fun w =>
  match step w.machine with
  | .ok a m => .ok a { w with machine := m }
  | .error e m => .error e { w with machine := m }

instance : MonadLift Run Watching := ⟨lift⟩

/-- Notes an event. -/
def note (event : Machine → Event) : Watching Unit :=
  modify fun w => { w with journal := w.journal ++ [event w.machine] }

/-- A new frame. -/
def newFrame (opening : Opening) (enclosing : FrameId) (bindings : Bindings (Value FrameId)) :
    Watching FrameId := do
  let f ← Run.newFrame enclosing bindings
  note fun _ => .opened f opening
  return f

/-- A copy of a method that works on a value as `this`. -/
def bind (method : Closure FrameId) (this : Value FrameId) : Watching (Closure FrameId) := do
  let f ← newFrame (.receiver method.decl) method.home (.ofList [("this", this)])
  return { method with home := f }

/-- Runs a step in another frame. -/
def inFrame (f : FrameId) (step : Watching α) : Watching α := fun w =>
  let before := w.machine.current
  match step { w with machine := { w.machine with current := f } } with
  | .ok a w => .ok a { w with machine := { w.machine with current := before } }
  | .error e w => .error e { w with machine := { w.machine with current := before } }

end Watching

namespace Machine

open Watching

/-- The superclass that a reference stands for, under watch. -/
def watchSuperclass? (room : Nat) : Option Reference → Watching (Option (ClassValue FrameId))
  | none => return none
  | some r => do
    note (.used .read r)
    Run.need (1 + Spare.read r) room
    match ← Run.readReference r with
    | .classValue c => return some c
    | _ => Run.fail r.name .superclassNotClass

/-- Declares a class, under watch. -/
def watchClass (room : Nat) (name : Token) (superclass : Option Reference)
    (methods : List FunDecl) : Watching Unit := do
  let parent ← watchSuperclass? room superclass
  Run.need Spare.define room
  Run.define name.lexeme .nil
  let here := (← get).machine.current
  let frame ←
    match parent with
    | none => pure here
    | some c => do
      Run.need Spare.make room
      newFrame (.parent ⟨name, superclass, methods⟩) here (.ofList [("super", .classValue c)])
  Run.need (if methods.isEmpty then Spare.make else 1 + Spare.make) room
  let number := (← get).machine.classCount
  (modify fun m => { m with classCount := m.classCount + 1 } : Run Unit)
  let head : ClassHead FrameId := ⟨number, name.lexeme, methodTable frame methods⟩
  Run.assignFrom here name (.classValue (.of head parent))

/-- The value of a property of an object, under watch. -/
def watchProperty (room : Nat) (id : ObjectId) (c : ClassValue FrameId) (name : Token) :
    Watching (Value FrameId) := do
  match ((← get).machine.fields[id]?.getD .empty).get? name.lexeme with
  | some v => do
    Run.need Spare.field room
    return v
  | none => do
    Run.need (1 + Spare.bind) room
    match c.method? name.lexeme with
    | some method => return .function (← bind method (.object id c))
    | none => Run.fail name (.undefinedProperty name.lexeme)

/-- A method of the superclass, under watch. -/
def watchSuperMethod (room : Nat) (r : Reference) (method : Token) :
    Watching (Value FrameId) := do
  note (.used .super r)
  Run.need Spare.bind room
  match r.hops with
  | none => throw (.breach .unresolvedSuper)
  | some hops =>
    let parent ← Run.readAt hops "super"
    let this ← Run.readAt (hops - 1) "this"
    match parent with
    | .classValue c =>
      match c.method? method.lexeme with
      | some f => return .function (← bind f this)
      | none => Run.fail method (.undefinedSuperMethod method.lexeme)
    | _ => throw (.breach .superNotClass)

mutual

/-- **Evaluates an expression under watch.** -/
def watchEval (turns : Nat) : Nat → Expr → Watching (Value FrameId)
  | 0, _ => throw .stackOverflow
  | room + 1, e => do
    match e with
    | .literal v => return .ofLiteral v
    | .group e => watchEval turns room e
    | .name r => do
      note (.used .read r)
      Run.need (Spare.read r) room
      Run.readReference r
    | .self r => do
      note (.used .this r)
      Run.need (Spare.read r) room
      Run.readReference r
    | .assign r e => do
      note (.used .assign r)
      let v ← watchEval turns room e
      Run.need (Spare.write r) room
      note (.stored r)
      Run.writeReference r v
      return v
    | .unary op e => do
      let v ← watchEval turns room e
      Run.need (Spare.unary op) room
      (liftExcept (Operator.unary op v) : Run _)
    | .binary l op r => do
      let a ← watchEval turns room l
      let b ← watchEval turns room r
      Run.need (Spare.binary op a b) room
      (liftExcept (Operator.binary op a b) : Run _)
    | .logical l op r => do
      let a ← watchEval turns room l
      Run.need Spare.truth room
      if Operator.decides op a then return a else watchEval turns room r
    | .conditional t y n => do
      let v ← watchEval turns room t
      Run.need Spare.truth room
      if v.truthy then watchEval turns room y else watchEval turns room n
    | .call f paren args => do
      let callee ← watchEval turns room f
      let values ← watchEvalAll turns room args
      Run.need Spare.callable room
      match arity? callee with
      | none => Run.fail paren .notCallable
      | some n =>
        if values.length ≠ n then Run.fail paren (.wrongArity n values.length)
        else
          (modify ({ · with line := paren.line }) : Run Unit)
          watchCall turns room callee values
    | .get o p => do
      match ← watchEval turns room o with
      | .object id c => watchProperty room id c p
      | _ => Run.fail p .propertyOfNonObject
    | .set o p e => do
      match ← watchEval turns room o with
      | .object id _ => do
        let v ← watchEval turns room e
        Run.need Spare.field room
        Run.setField id p.lexeme v
        return v
      | _ => Run.fail p .fieldOfNonObject
    | .super r m => watchSuperMethod room r m

/-- Evaluates the arguments of a call under watch. -/
def watchEvalAll (turns : Nat) : Nat → List Expr → Watching (List (Value FrameId))
  | 0, _ => throw .stackOverflow
  | room + 1, args => args.mapM (watchEval turns room)

/-- Calls a value under watch. -/
def watchCall (turns : Nat) :
    Nat → Value FrameId → List (Value FrameId) → Watching (Value FrameId)
  | 0, _, _ => throw .stackOverflow
  | room + 1, callee, args => do
    match callee with
    | .function f => watchInvoke turns room f args
    | .native .clock => do
      Run.need Spare.clock room
      Run.readClock
    | .classValue c => watchConstruct turns room c args
    | _ => return .nil

/-- Makes an object under watch. -/
def watchConstruct (turns : Nat) :
    Nat → ClassValue FrameId → List (Value FrameId) → Watching (Value FrameId)
  | 0, _, _ => throw .stackOverflow
  | room + 1, c, args => do
    Run.need Spare.make room
    let object ← Run.newObject c
    match c.initializer? with
    | none => return object
    | some f => do
      Run.need Spare.bind room
      let f ← bind f object
      let _ ← watchInvoke turns room f args
      return object

/-- Calls a function under watch. -/
def watchInvoke (turns : Nat) :
    Nat → Closure FrameId → List (Value FrameId) → Watching (Value FrameId)
  | 0, _, _ => throw .stackOverflow
  | room + 1, f, args => do
    Run.need Spare.make room
    let params := f.decl.params.map (·.lexeme)
    let frame ← newFrame (.call f.decl) f.home (.ofList (params.zip args))
    let completion ← inFrame frame (watchExecAll turns room f.decl.body)
    callResult room f completion

/-- Executes the statements of a body under watch. -/
def watchExecAll (turns : Nat) : Nat → List Stmt → Watching (Completion FrameId)
  | 0, _ => throw .stackOverflow
  | room + 1, body => Run.untilLeft (watchExec turns room) body

/-- **Executes a statement under watch.** -/
def watchExec (turns : Nat) : Nat → Stmt → Watching (Completion FrameId)
  | 0, _ => throw .stackOverflow
  | room + 1, s => do
    match s with
    | .expression e => do
      let _ ← watchEval turns room e
      return .normal
    | .print e => do
      let v ← watchEval turns room e
      Run.need (Spare.words v) room
      (modify (·.write (v.render ++ "\n")) : Run Unit)
      return .normal
    | .var n none => do
      Run.need Spare.define room
      Run.define n.lexeme .nil
      return .normal
    | .var n (some e) => do
      let v ← watchEval turns room e
      Run.need Spare.define room
      Run.define n.lexeme v
      return .normal
    | .block body => do
      Run.need Spare.make room
      let frame ← newFrame (.block body) (← get).machine.current .empty
      inFrame frame (watchExecAll turns room body)
    | .branch t y n => do
      let v ← watchEval turns room t
      Run.need Spare.truth room
      if v.truthy then watchExec turns room y
      else
        match n with
        | some n => watchExec turns room n
        | none => return .normal
    | .loop t body =>
      let test := do
        let v ← watchEval turns room t
        Run.need Spare.truth room
        return v
      Run.repeatWhile test (watchExec turns room body) turns
    | .leave _ => return .leave
    | .giveBack _ none => do
      Run.need Spare.make room
      return .giveBack .nil
    | .giveBack _ (some e) => do
      let v ← watchEval turns room e
      Run.need Spare.make room
      return .giveBack v
    | .function d => do
      Run.need Spare.make room
      let here := (← get).machine.current
      Run.define d.name.lexeme (.function ⟨d, here, false⟩)
      return .normal
    | .classDecl n s ms => do
      Run.need 1 room
      watchClass (room - 1) n s ms
      return .normal

end

end Machine

/-! ## Watching changes nothing -/

namespace Watching

variable {α β : Type}

/-- What is left of a result without the journal. -/
def unwatched : EStateM.Result Failure Watched α → EStateM.Result Failure Machine α
  | .ok a w => .ok a w.machine
  | .error e w => .error e w.machine

/-- **A step under watch shows a step**: it is that step but for the journal. -/
def Shows (x : Watching α) (y : Run α) : Prop := ∀ w, unwatched (x w) = y w.machine

namespace Shows

theorem lift (y : Run α) : Shows (Watching.lift y) y := by
  intro w
  unfold Watching.lift
  cases y w.machine <;> rfl

theorem pure (a : α) : Shows (Pure.pure a) (Pure.pure a) := fun _ => rfl

theorem throw (e : Failure) : Shows (α := α) (MonadExcept.throw e) (MonadExcept.throw e) :=
  fun _ => rfl

theorem bind {x : Watching α} {y : Run α} {f : α → Watching β} {g : α → Run β}
    (hx : Shows x y) (hf : ∀ a, Shows (f a) (g a)) : Shows (x >>= f) (y >>= g) := by
  intro w
  have h := hx w
  simp only [Bind.bind, EStateM.bind, ← h]
  cases x w with
  | ok a w' => exact hf a w'
  | error e w' => rfl

/-- A note shows nothing. -/
theorem note {event : Machine → Event} {x : Unit → Watching α} {y : Run α}
    (hx : Shows (x ()) y) : Shows (Watching.note event >>= x) y :=
  fun w => hx { w with journal := w.journal ++ [event w.machine] }

/-- Looking at the machine. -/
theorem get {f : Watched → Watching α} {g : Machine → Run α}
    (h : ∀ w : Watched, Shows (f w) (g w.machine)) :
    Shows (MonadState.get >>= f) (MonadState.get >>= g) := fun w => h w w

theorem newFrame (opening : Opening) (enclosing : FrameId) (b : Bindings (Value FrameId)) :
    Shows (Watching.newFrame opening enclosing b) (Run.newFrame enclosing b) := fun _ => rfl

theorem bindMethod (method : Closure FrameId) (this : Value FrameId) :
    Shows (Watching.bind method this) (Run.bind method this) :=
  .bind (.newFrame _ _ _) fun _ => .pure _

theorem inFrame {x : Watching α} {y : Run α} (f : FrameId) (h : Shows x y) :
    Shows (Watching.inFrame f x) (Run.inFrame f y) := by
  intro w
  have hx := h { w with machine := { w.machine with current := f } }
  unfold Watching.inFrame Run.inFrame
  simp only [← hx]
  cases x { w with machine := { w.machine with current := f } } <;> rfl

theorem ite {P : Prop} [Decidable P] {x x' : Watching α} {y y' : Run α} (h : Shows x y)
    (h' : Shows x' y') : Shows (if P then x else x') (if P then y else y') := by
  split
  · exact h
  · exact h'

theorem mapM {γ : Type} {f : γ → Watching α} {g : γ → Run α} (h : ∀ c, Shows (f c) (g c))
    (cs : List γ) : Shows (cs.mapM f) (cs.mapM g) := by
  induction cs with
  | nil => rw [List.mapM_nil, List.mapM_nil]; exact .pure []
  | cons c cs ih =>
    rw [List.mapM_cons, List.mapM_cons]
    exact .bind (h c) fun _ => .bind ih fun _ => .pure _

theorem untilLeft {f : Stmt → Watching (Completion FrameId)} {g : Stmt → Run (Completion FrameId)}
    (h : ∀ s, Shows (f s) (g s)) (ss : List Stmt) :
    Shows (Run.untilLeft f ss) (Run.untilLeft g ss) := by
  induction ss with
  | nil => exact .pure _
  | cons s ss ih =>
    refine .bind (h s) fun c => ?_
    cases c with
    | normal => exact ih
    | leave => exact .pure _
    | giveBack v => exact .pure _

theorem repeatWhile {t : Watching (Value FrameId)} {t' : Run (Value FrameId)}
    {b : Watching (Completion FrameId)} {b' : Run (Completion FrameId)} (ht : Shows t t')
    (hb : Shows b b') (turns : Nat) :
    Shows (Run.repeatWhile t b turns) (Run.repeatWhile t' b' turns) := by
  induction turns with
  | zero => exact .throw _
  | succ turns ih =>
    refine .bind ht fun v => .ite (.bind hb fun c => ?_) (.pure _)
    cases c with
    | normal => exact ih
    | leave => exact .pure _
    | giveBack v => exact .pure _

end Shows
end Watching

namespace Machine

open Watching

theorem shows_watchSuperclass? (room : Nat) (r : Option Reference) :
    Shows (watchSuperclass? room r) (superclass? room r) := by
  cases r with
  | none => exact .pure _
  | some r =>
    refine .note (.bind (.lift _) fun _ => .bind (.lift _) fun v => ?_)
    cases v with
    | classValue c => exact .pure _
    | _ => exact .lift _

theorem shows_watchClass (room : Nat) (n : Token) (s : Option Reference) (ms : List FunDecl) :
    Shows (watchClass room n s ms) (declareClass room n s ms) := by
  refine .bind (shows_watchSuperclass? room s) fun parent => .bind (.lift _) fun _ =>
    .bind (.lift _) fun _ => .get fun w => ?_
  cases parent with
  | none =>
    exact .bind (.pure _) fun _ => .bind (.lift _) fun _ => .get fun _ =>
      .bind (.lift _) fun _ => .lift _
  | some c =>
    exact .bind (.lift _) fun _ => .bind (.newFrame _ _ _) fun _ => .bind (.lift _) fun _ =>
      .get fun _ => .bind (.lift _) fun _ => .lift _

theorem shows_watchProperty (room : Nat) (id : ObjectId) (c : ClassValue FrameId) (n : Token) :
    Shows (watchProperty room id c n) (property room id c n) := by
  refine .get fun w => ?_
  generalize (w.machine.fields[id]?.getD .empty).get? n.lexeme = v
  cases v with
  | some v => exact .bind (.lift _) fun _ => .pure _
  | none =>
    refine .bind (.lift _) fun _ => ?_
    generalize c.method? n.lexeme = method
    cases method with
    | some method => exact .bind (.bindMethod _ _) fun _ => .pure _
    | none => exact .lift _

theorem shows_watchSuperMethod (room : Nat) (r : Reference) (m : Token) :
    Shows (watchSuperMethod room r m) (superMethod room r m) := by
  refine .note (.bind (.lift _) fun _ => ?_)
  generalize r.hops = hops
  cases hops with
  | none => exact .throw _
  | some hops =>
    refine .bind (.lift _) fun parent => .bind (.lift _) fun this => ?_
    cases parent with
    | classValue c =>
      dsimp only
      generalize c.method? m.lexeme = method
      cases method with
      | some method => exact .bind (.bindMethod _ _) fun _ => .pure _
      | none => exact .lift _
    | _ => exact .throw _

/-- The functions under watch show those that are not. -/
structure ShowsAt (turns room : Nat) : Prop where
  eval : ∀ e, Shows (watchEval turns room e) (Machine.eval turns room e)
  evalAll : ∀ es, Shows (watchEvalAll turns room es) (Machine.evalAll turns room es)
  call : ∀ v vs, Shows (watchCall turns room v vs) (Machine.call turns room v vs)
  construct : ∀ c vs, Shows (watchConstruct turns room c vs) (Machine.construct turns room c vs)
  invoke : ∀ f vs, Shows (watchInvoke turns room f vs) (Machine.invoke turns room f vs)
  execAll : ∀ ss, Shows (watchExecAll turns room ss) (Machine.execAll turns room ss)
  exec : ∀ s, Shows (watchExec turns room s) (Machine.exec turns room s)

variable {turns room : Nat}

theorem ShowsAt.eval_succ (h : ShowsAt turns room) (e : Expr) :
    Shows (watchEval turns (room + 1) e) (Machine.eval turns (room + 1) e) := by
  cases e with
  | literal v => exact .pure _
  | group e => exact h.eval e
  | name r | self r => exact .note (.bind (.lift _) fun _ => .lift _)
  | assign r e =>
    exact .note (.bind (h.eval e) fun _ => .bind (.lift _) fun _ =>
      .note (.bind (.lift _) fun _ => .pure _))
  | unary op e => exact .bind (h.eval e) fun _ => .bind (.lift _) fun _ => .lift _
  | binary l op r =>
    exact .bind (h.eval l) fun _ => .bind (h.eval r) fun _ => .bind (.lift _) fun _ => .lift _
  | logical l op r =>
    exact .bind (h.eval l) fun _ => .bind (.lift _) fun _ => .ite (.pure _) (h.eval r)
  | conditional t y n =>
    exact .bind (h.eval t) fun _ => .bind (.lift _) fun _ => .ite (h.eval y) (h.eval n)
  | call f paren args =>
    refine .bind (h.eval f) fun callee => .bind (h.evalAll args) fun values =>
      .bind (.lift _) fun _ => ?_
    generalize arity? callee = n
    cases n with
    | none => exact .lift _
    | some n => exact .ite (.lift _) (.bind (.lift _) fun _ => h.call callee values)
  | get o p =>
    refine .bind (h.eval o) fun v => ?_
    cases v with
    | object id c => exact shows_watchProperty room id c p
    | _ => exact .lift _
  | set o p e =>
    refine .bind (h.eval o) fun v => ?_
    cases v with
    | object id c =>
      exact .bind (h.eval e) fun _ => .bind (.lift _) fun _ => .bind (.lift _) fun _ => .pure _
    | _ => exact .lift _
  | super r m => exact shows_watchSuperMethod room r m

theorem ShowsAt.call_succ (h : ShowsAt turns room) (v : Value FrameId)
    (vs : List (Value FrameId)) :
    Shows (watchCall turns (room + 1) v vs) (Machine.call turns (room + 1) v vs) := by
  cases v with
  | function f => exact h.invoke f vs
  | native f =>
    cases f
    exact .bind (.lift _) fun _ => .lift _
  | classValue c => exact h.construct c vs
  | _ => exact .pure _

theorem ShowsAt.construct_succ (h : ShowsAt turns room) (c : ClassValue FrameId)
    (vs : List (Value FrameId)) :
    Shows (watchConstruct turns (room + 1) c vs) (Machine.construct turns (room + 1) c vs) := by
  refine .bind (.lift _) fun _ => .bind (.lift _) fun object => ?_
  generalize c.initializer? = f
  cases f with
  | none => exact .pure _
  | some f =>
    exact .bind (.lift _) fun _ => .bind (.bindMethod _ _) fun f => .bind (h.invoke f vs)
      fun _ => .pure _

theorem ShowsAt.invoke_succ (h : ShowsAt turns room) (f : Closure FrameId)
    (vs : List (Value FrameId)) :
    Shows (watchInvoke turns (room + 1) f vs) (Machine.invoke turns (room + 1) f vs) :=
  .bind (.lift _) fun _ => .bind (.newFrame _ _ _) fun frame =>
    .bind (.inFrame frame (h.execAll _)) fun _ => .lift _

theorem ShowsAt.exec_succ (h : ShowsAt turns room) (s : Stmt) :
    Shows (watchExec turns (room + 1) s) (Machine.exec turns (room + 1) s) := by
  cases s with
  | expression e => exact .bind (h.eval e) fun _ => .pure _
  | print e =>
    exact .bind (h.eval e) fun _ => .bind (.lift _) fun _ => .bind (.lift _) fun _ => .pure _
  | var n e =>
    cases e with
    | none => exact .bind (.lift _) fun _ => .bind (.lift _) fun _ => .pure _
    | some e =>
      exact .bind (h.eval e) fun _ => .bind (.lift _) fun _ => .bind (.lift _) fun _ => .pure _
  | block body =>
    exact .bind (.lift _) fun _ => .get fun _ => .bind (.newFrame _ _ _) fun f =>
      .inFrame f (h.execAll body)
  | branch t y n =>
    refine .bind (h.eval t) fun _ => .bind (.lift _) fun _ => .ite (h.exec y) ?_
    cases n with
    | none => exact .pure _
    | some n => exact h.exec n
  | loop t body =>
    exact .repeatWhile (.bind (h.eval t) fun _ => .bind (.lift _) fun _ => .pure _)
      (h.exec body) turns
  | leave k => exact .pure _
  | giveBack k e =>
    cases e with
    | none => exact .bind (.lift _) fun _ => .pure _
    | some e => exact .bind (h.eval e) fun _ => .bind (.lift _) fun _ => .pure _
  | function d => exact .bind (.lift _) fun _ => .get fun _ => .bind (.lift _) fun _ => .pure _
  | classDecl n s ms =>
    exact .bind (.lift _) fun _ => .bind (shows_watchClass _ n s ms) fun _ => .pure _

theorem showsAt (turns room : Nat) : ShowsAt turns room := by
  induction room with
  | zero =>
    exact ⟨fun _ => .throw _, fun _ => .throw _, fun _ _ => .throw _, fun _ _ => .throw _,
      fun _ _ => .throw _, fun _ => .throw _, fun _ => .throw _⟩
  | succ room h =>
    exact ⟨h.eval_succ, fun es => .mapM h.eval es, h.call_succ, h.construct_succ, h.invoke_succ,
      fun ss => .untilLeft h.exec ss, h.exec_succ⟩

/-- **To watch a program run changes nothing.** -/
theorem watchRunAll_shows (turns room : Nat) (p : List Stmt) :
    Shows (runAll (watchExec turns room) p) (runAll (exec turns room) p) := by
  induction p with
  | nil => exact .pure _
  | cons s rest ih =>
    refine .bind ((showsAt turns room).exec s) fun c => ?_
    cases c with
    | giveBack v => exact .pure _
    | _ => exact ih

end Machine
end LoxKit
