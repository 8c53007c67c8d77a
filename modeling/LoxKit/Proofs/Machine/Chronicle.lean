import LoxKit.Proofs.Machine.Noted
import LoxKit.Proofs.Machine.Watch

/-!
# The chronicle of a run

The journal of a run under watch says which frames are opened and where names are used.  It does
not say what a method is bound to, nor where a call ends.  Here a run is told with more: besides
the events of the journal its chronicle has entries for the classes that are made of their
declarations, for the methods that are bound to objects, and for the calls of functions and of
classes, each with its beginning and its end (`Entry`).

Without these entries a chronicle is the journal, and the run is the run under watch
(`Machine.tellRunAll_tells`).
-/
namespace LoxKit

open Scope

/-- **What is noted of a run** in its chronicle. -/
inductive Entry where
  | event (e : Event)
  /-- A frame is opened that binds an object, for a copy of a method that works on it. -/
  | bound (frame : FrameId) (method : Closure FrameId) (this : Value FrameId)
  /-- A class is made of its declaration. -/
  | declared (site : ClassSite) (c : ClassValue FrameId)
  /-- The call of a function begins. -/
  | begun (f : Closure FrameId) (args : List (Value FrameId))
  /-- The call of a function is complete. -/
  | ended (f : Closure FrameId) (args : List (Value FrameId)) (v : Value FrameId)
  /-- The call of a class begins, with the machine as it was then. -/
  | making (c : ClassValue FrameId) (args : List (Value FrameId)) (machine : Machine)
  /-- The call of a class is complete. -/
  | made (c : ClassValue FrameId) (args : List (Value FrameId)) (v : Value FrameId)

/-- The event of the journal that an entry tells. -/
def Entry.event? : Entry → Option Event
  | event e => some e
  | bound f g _ => some (.opened f (.receiver g.decl))
  | _ => none

/-- A step of a run that is told. -/
abbrev Telling := Noting Entry

namespace Telling

/-- Notes what there is to say of the machine as it is. -/
def note (entry : Machine → Entry) : Telling Unit :=
  modify fun n => { n with notes := n.notes ++ [entry n.machine] }

/-- Notes an event. -/
def observe (event : Machine → Event) : Telling Unit := note fun m => .event (event m)

/-- A new frame, with its entry. -/
def newFrame (entry : FrameId → Entry) (enclosing : FrameId)
    (bindings : Bindings (Value FrameId)) : Telling FrameId := do
  let f ← Run.newFrame enclosing bindings
  note fun _ => entry f
  return f

/-- A new frame for a block, a call or a class. -/
def openFrame (opening : Opening) : FrameId → Bindings (Value FrameId) → Telling FrameId :=
  newFrame fun f => .event (.opened f opening)

/-- A copy of a method that works on a value as `this`. -/
def bindMethod (method : Closure FrameId) (this : Value FrameId) :
    Telling (Closure FrameId) := do
  let f ← newFrame (.bound · method this) method.home (.ofList [("this", this)])
  return { method with home := f }

/-- A step between an entry in front and one behind, of what it yields. -/
def between {α : Type} (before : Machine → Entry) (behind : α → Entry) (x : Telling α) :
    Telling α := do
  note before
  let a ← x
  note fun _ => behind a
  return a

end Telling

namespace Machine

open Telling

/-- The superclass that a reference stands for, with entries. -/
def tellSuperclass? (room : Nat) : Option Reference → Telling (Option (ClassValue FrameId))
  | none => return none
  | some r => do
    observe (.used .read r)
    Run.need (1 + Spare.read r) room
    match ← Run.readReference r with
    | .classValue c => return some c
    | _ => Run.fail r.name .superclassNotClass

/-- Declares a class, with entries. -/
def tellClass (room : Nat) (name : Token) (superclass : Option Reference)
    (methods : List FunDecl) : Telling Unit := do
  let parent ← tellSuperclass? room superclass
  Run.need Spare.define room
  Run.define name.lexeme .nil
  let here := (← get).machine.current
  let frame ←
    match parent with
    | none => pure here
    | some c => do
      Run.need Spare.make room
      openFrame (.parent ⟨name, superclass, methods⟩) here (.ofList [("super", .classValue c)])
  Run.need (if methods.isEmpty then Spare.make else 1 + Spare.make) room
  let number := (← get).machine.classCount
  (modify fun m => { m with classCount := m.classCount + 1 } : Run Unit)
  let head : ClassHead FrameId := ⟨number, name.lexeme, methodTable frame methods⟩
  note fun _ => .declared ⟨name, superclass, methods⟩ (.of head parent)
  Run.assignFrom here name (.classValue (.of head parent))

/-- The value of a property of an object, with entries. -/
def tellProperty (room : Nat) (id : ObjectId) (c : ClassValue FrameId) (name : Token) :
    Telling (Value FrameId) := do
  match ((← get).machine.fields[id]?.getD .empty).get? name.lexeme with
  | some v => do
    Run.need Spare.field room
    return v
  | none => do
    Run.need (1 + Spare.bind) room
    match c.method? name.lexeme with
    | some method => return .function (← bindMethod method (.object id c))
    | none => Run.fail name (.undefinedProperty name.lexeme)

/-- A method of the superclass, with entries. -/
def tellSuperMethod (room : Nat) (r : Reference) (method : Token) :
    Telling (Value FrameId) := do
  observe (.used .super r)
  Run.need Spare.bind room
  match r.hops with
  | none => throw (.breach .unresolvedSuper)
  | some hops =>
    let parent ← Run.readAt hops "super"
    let this ← Run.readAt (hops - 1) "this"
    match parent with
    | .classValue c =>
      match c.method? method.lexeme with
      | some f => return .function (← bindMethod f this)
      | none => Run.fail method (.undefinedSuperMethod method.lexeme)
    | _ => throw (.breach .superNotClass)

mutual

/-- **Evaluates an expression with entries.** -/
def tellEval (turns : Nat) : Nat → Expr → Telling (Value FrameId)
  | 0, _ => throw .stackOverflow
  | room + 1, e => do
    match e with
    | .literal v => return .ofLiteral v
    | .group e => tellEval turns room e
    | .name r => do
      observe (.used .read r)
      Run.need (Spare.read r) room
      Run.readReference r
    | .self r => do
      observe (.used .this r)
      Run.need (Spare.read r) room
      Run.readReference r
    | .assign r e => do
      observe (.used .assign r)
      let v ← tellEval turns room e
      Run.need (Spare.write r) room
      observe (.stored r)
      Run.writeReference r v
      return v
    | .unary op e => do
      let v ← tellEval turns room e
      Run.need (Spare.unary op) room
      (liftExcept (Operator.unary op v) : Run _)
    | .binary l op r => do
      let a ← tellEval turns room l
      let b ← tellEval turns room r
      Run.need (Spare.binary op a b) room
      (liftExcept (Operator.binary op a b) : Run _)
    | .logical l op r => do
      let a ← tellEval turns room l
      Run.need Spare.truth room
      if Operator.decides op a then return a else tellEval turns room r
    | .conditional t y n => do
      let v ← tellEval turns room t
      Run.need Spare.truth room
      if v.truthy then tellEval turns room y else tellEval turns room n
    | .call f paren args => do
      let callee ← tellEval turns room f
      let values ← tellEvalAll turns room args
      Run.need Spare.callable room
      match arity? callee with
      | none => Run.fail paren .notCallable
      | some n =>
        if values.length ≠ n then Run.fail paren (.wrongArity n values.length)
        else
          (modify ({ · with line := paren.line }) : Run Unit)
          tellCall turns room callee values
    | .get o p => do
      match ← tellEval turns room o with
      | .object id c => tellProperty room id c p
      | _ => Run.fail p .propertyOfNonObject
    | .set o p e => do
      match ← tellEval turns room o with
      | .object id _ => do
        let v ← tellEval turns room e
        Run.need Spare.field room
        Run.setField id p.lexeme v
        return v
      | _ => Run.fail p .fieldOfNonObject
    | .super r m => tellSuperMethod room r m

/-- Evaluates the arguments of a call with entries. -/
def tellEvalAll (turns : Nat) : Nat → List Expr → Telling (List (Value FrameId))
  | 0, _ => throw .stackOverflow
  | room + 1, args => args.mapM (tellEval turns room)

/-- Calls a value with entries. -/
def tellCall (turns : Nat) :
    Nat → Value FrameId → List (Value FrameId) → Telling (Value FrameId)
  | 0, _, _ => throw .stackOverflow
  | room + 1, callee, args => do
    match callee with
    | .function f => tellInvoke turns room f args
    | .native .clock => do
      Run.need Spare.clock room
      Run.readClock
    | .classValue c => tellConstruct turns room c args
    | _ => return .nil

/-- Makes an object with entries. -/
def tellConstruct (turns : Nat) :
    Nat → ClassValue FrameId → List (Value FrameId) → Telling (Value FrameId)
  | 0, _, _ => throw .stackOverflow
  | room + 1, c, args => between (.making c args) (.made c args) do
    Run.need Spare.make room
    let object ← Run.newObject c
    match c.initializer? with
    | none => return object
    | some f => do
      Run.need Spare.bind room
      let f ← bindMethod f object
      let _ ← tellInvoke turns room f args
      return object

/-- Calls a function with entries. -/
def tellInvoke (turns : Nat) :
    Nat → Closure FrameId → List (Value FrameId) → Telling (Value FrameId)
  | 0, _, _ => throw .stackOverflow
  | room + 1, f, args => between (fun _ => .begun f args) (.ended f args) do
    Run.need Spare.make room
    let params := f.decl.params.map (·.lexeme)
    let frame ← openFrame (.call f.decl) f.home (.ofList (params.zip args))
    let completion ← Noting.inFrame frame (tellExecAll turns room f.decl.body)
    callResult room f completion

/-- Executes the statements of a body with entries. -/
def tellExecAll (turns : Nat) : Nat → List Stmt → Telling (Completion FrameId)
  | 0, _ => throw .stackOverflow
  | room + 1, body => Run.untilLeft (tellExec turns room) body

/-- **Executes a statement with entries.** -/
def tellExec (turns : Nat) : Nat → Stmt → Telling (Completion FrameId)
  | 0, _ => throw .stackOverflow
  | room + 1, s => do
    match s with
    | .expression e => do
      let _ ← tellEval turns room e
      return .normal
    | .print e => do
      let v ← tellEval turns room e
      Run.need (Spare.words v) room
      (modify (·.write (v.render ++ "\n")) : Run Unit)
      return .normal
    | .var n none => do
      Run.need Spare.define room
      Run.define n.lexeme .nil
      return .normal
    | .var n (some e) => do
      let v ← tellEval turns room e
      Run.need Spare.define room
      Run.define n.lexeme v
      return .normal
    | .block body => do
      Run.need Spare.make room
      let frame ← openFrame (.block body) (← get).machine.current .empty
      Noting.inFrame frame (tellExecAll turns room body)
    | .branch t y n => do
      let v ← tellEval turns room t
      Run.need Spare.truth room
      if v.truthy then tellExec turns room y
      else
        match n with
        | some n => tellExec turns room n
        | none => return .normal
    | .loop t body =>
      let test := do
        let v ← tellEval turns room t
        Run.need Spare.truth room
        return v
      Run.repeatWhile test (tellExec turns room body) turns
    | .leave _ => return .leave
    | .giveBack _ none => do
      Run.need Spare.make room
      return .giveBack .nil
    | .giveBack _ (some e) => do
      let v ← tellEval turns room e
      Run.need Spare.make room
      return .giveBack v
    | .function d => do
      Run.need Spare.make room
      let here := (← get).machine.current
      Run.define d.name.lexeme (.function ⟨d, here, false⟩)
      return .normal
    | .classDecl n s ms => do
      Run.need 1 room
      tellClass (room - 1) n s ms
      return .normal

end

end Machine

/-! ## From the chronicle to the journal -/

/-- The journal that a chronicle tells. -/
def Noted.journal (n : Noted Entry) : Journal := n.notes.filterMap Entry.event?

/-- The machine with the journal instead of the chronicle. -/
def Noted.watched (n : Noted Entry) : Watched := ⟨n.machine, n.journal⟩

/-- What a step leads to, with the journal instead of the chronicle. -/
def Telling.watched {α : Type} :
    EStateM.Result Failure (Noted Entry) α → EStateM.Result Failure Watched α
  | .ok a n => .ok a n.watched
  | .error e n => .error e n.watched

/-- **A step with entries tells a step under watch**: it is that step but for the entries. -/
def Tells {α : Type} (x : Telling α) (y : Watching α) : Prop :=
  ∀ n, Telling.watched (x n) = y n.watched

namespace Tells

variable {α β : Type}

theorem lift (y : Run α) : Tells (Noting.lift y) (Watching.lift y) := by
  intro n
  unfold Noting.lift Watching.lift
  dsimp only [Noted.watched]
  cases y n.machine <;> rfl

theorem pure (a : α) : Tells (Pure.pure a) (Pure.pure a) := fun _ => rfl

theorem throw (e : Failure) : Tells (α := α) (MonadExcept.throw e) (MonadExcept.throw e) :=
  fun _ => rfl

theorem bind {x : Telling α} {y : Watching α} {f : α → Telling β} {g : α → Watching β}
    (hx : Tells x y) (hf : ∀ a, Tells (f a) (g a)) : Tells (x >>= f) (y >>= g) := by
  intro n
  have h := hx n
  simp only [Bind.bind, EStateM.bind, ← h]
  cases x n with
  | ok a n' => exact hf a n'
  | error e n' => rfl

/-- An entry that tells an event stands in the journal. -/
theorem event {entry : Machine → Entry} {event : Machine → Event}
    (h : ∀ m, (entry m).event? = some (event m)) :
    Tells (Telling.note entry) (Watching.note event) := by
  intro n
  have hjournal : Noted.watched { n with notes := n.notes ++ [entry n.machine] } =
      { n.watched with journal := n.journal ++ [event n.machine] } := by
    simp [Noted.watched, Noted.journal, h]
  show EStateM.Result.ok () (Noted.watched { n with notes := n.notes ++ [entry n.machine] }) = _
  rw [hjournal]
  rfl

theorem observe (event : Machine → Event) :
    Tells (Telling.observe event) (Watching.note event) := .event fun _ => rfl

/-- Other entries do not. -/
theorem note {entry : Machine → Entry} (h : ∀ m, (entry m).event? = none)
    {x : Unit → Telling α} {y : Watching α} (hx : Tells (x ()) y) :
    Tells (Telling.note entry >>= x) y := by
  intro n
  have hjournal : Noted.watched { n with notes := n.notes ++ [entry n.machine] } = n.watched := by
    simp [Noted.watched, Noted.journal, h]
  rw [← hjournal]
  exact hx { n with notes := n.notes ++ [entry n.machine] }

/-- Nor do entries around a step. -/
theorem between {before : Machine → Entry} {behind : α → Entry}
    (hbefore : ∀ m, (before m).event? = none) (hbehind : ∀ a, (behind a).event? = none)
    {x : Telling α} {y : Watching α} (hx : Tells x y) :
    Tells (Telling.between before behind x) y := by
  refine note hbefore fun n => ?_
  rw [← hx n]
  simp only [Bind.bind, EStateM.bind]
  cases x n with
  | ok a n' => exact note (fun _ => hbehind a) (x := fun _ => Pure.pure a) (pure a) n'
  | error e n' => rfl

/-- Looking at the machine. -/
theorem get {f : Noted Entry → Telling α} {g : Watched → Watching α}
    (h : ∀ n, Tells (f n) (g n.watched)) :
    Tells (MonadState.get >>= f) (MonadState.get >>= g) := fun n => h n n

theorem newFrame {entry : FrameId → Entry} {opening : Opening}
    (h : ∀ f, (entry f).event? = some (.opened f opening)) (enclosing : FrameId)
    (b : Bindings (Value FrameId)) :
    Tells (Telling.newFrame entry enclosing b) (Watching.newFrame opening enclosing b) :=
  .bind (.lift _) fun f => .bind (.event fun _ => h f) fun _ => .pure _

theorem openFrame (opening : Opening) (enclosing : FrameId) (b : Bindings (Value FrameId)) :
    Tells (Telling.openFrame opening enclosing b) (Watching.newFrame opening enclosing b) :=
  .newFrame (fun _ => rfl) enclosing b

theorem bindMethod (method : Closure FrameId) (this : Value FrameId) :
    Tells (Telling.bindMethod method this) (Watching.bind method this) :=
  .bind (.newFrame (fun _ => rfl) _ _) fun _ => .pure _

theorem inFrame {x : Telling α} {y : Watching α} (f : FrameId) (h : Tells x y) :
    Tells (Noting.inFrame f x) (Watching.inFrame f y) := by
  intro n
  have hx : y ⟨{ n.machine with current := f }, n.journal⟩ = _ :=
    (h { n with machine := { n.machine with current := f } }).symm
  unfold Noting.inFrame Watching.inFrame
  dsimp only [Noted.watched]
  rw [hx]
  cases x { n with machine := { n.machine with current := f } } <;> rfl

theorem ite {P : Prop} [Decidable P] {x x' : Telling α} {y y' : Watching α} (h : Tells x y)
    (h' : Tells x' y') : Tells (if P then x else x') (if P then y else y') := by
  split
  · exact h
  · exact h'

theorem mapM {γ : Type} {f : γ → Telling α} {g : γ → Watching α} (h : ∀ c, Tells (f c) (g c))
    (cs : List γ) : Tells (cs.mapM f) (cs.mapM g) := by
  induction cs with
  | nil =>
    rw [List.mapM_nil, List.mapM_nil]
    exact .pure []
  | cons c cs ih =>
    rw [List.mapM_cons, List.mapM_cons]
    exact .bind (h c) fun _ => .bind ih fun _ => .pure _

theorem untilLeft {f : Stmt → Telling (Completion FrameId)}
    {g : Stmt → Watching (Completion FrameId)} (h : ∀ s, Tells (f s) (g s)) (ss : List Stmt) :
    Tells (Run.untilLeft f ss) (Run.untilLeft g ss) := by
  induction ss with
  | nil => exact .pure _
  | cons s ss ih =>
    refine .bind (h s) fun c => ?_
    cases c with
    | normal => exact ih
    | leave | giveBack v => exact .pure _

theorem repeatWhile {t : Telling (Value FrameId)} {t' : Watching (Value FrameId)}
    {b : Telling (Completion FrameId)} {b' : Watching (Completion FrameId)} (ht : Tells t t')
    (hb : Tells b b') (turns : Nat) :
    Tells (Run.repeatWhile t b turns) (Run.repeatWhile t' b' turns) := by
  induction turns with
  | zero => exact .throw _
  | succ turns ih =>
    refine .bind ht fun v => .ite (.bind hb fun c => ?_) (.pure _)
    cases c with
    | normal => exact ih
    | leave | giveBack v => exact .pure _

end Tells

namespace Machine

theorem tells_superclass? (room : Nat) (r : Option Reference) :
    Tells (tellSuperclass? room r) (watchSuperclass? room r) := by
  cases r with
  | none => exact .pure _
  | some r =>
    refine .bind (.observe _) fun _ => .bind (.lift _) fun _ => .bind (.lift _) fun v => ?_
    cases v with
    | classValue c => exact .pure _
    | _ => exact .lift _

theorem tells_class (room : Nat) (n : Token) (s : Option Reference) (ms : List FunDecl) :
    Tells (tellClass room n s ms) (watchClass room n s ms) := by
  refine .bind (tells_superclass? room s) fun parent => .bind (.lift _) fun _ =>
    .bind (.lift _) fun _ => .get fun _ => ?_
  cases parent with
  | none =>
    exact .bind (.pure _) fun _ => .bind (.lift _) fun _ => .get fun _ =>
      .bind (.lift _) fun _ => .note (fun _ => rfl) (.lift _)
  | some c =>
    exact .bind (.lift _) fun _ => .bind (.openFrame _ _ _) fun _ => .bind (.lift _) fun _ =>
      .get fun _ => .bind (.lift _) fun _ => .note (fun _ => rfl) (.lift _)

theorem tells_property (room : Nat) (id : ObjectId) (c : ClassValue FrameId) (n : Token) :
    Tells (tellProperty room id c n) (watchProperty room id c n) := by
  refine .get fun m => ?_
  show Tells _ (match (m.machine.fields[id]?.getD .empty).get? n.lexeme with
    | some v => _
    | none => _)
  cases (m.machine.fields[id]?.getD .empty).get? n.lexeme with
  | some v => exact .bind (.lift _) fun _ => .pure _
  | none =>
    refine .bind (.lift _) fun _ => ?_
    cases c.method? n.lexeme with
    | some method => exact .bind (.bindMethod _ _) fun _ => .pure _
    | none => exact .lift _

theorem tells_superMethod (room : Nat) (r : Reference) (m : Token) :
    Tells (tellSuperMethod room r m) (watchSuperMethod room r m) := by
  refine .bind (.observe _) fun _ => .bind (.lift _) fun _ => ?_
  cases r.hops with
  | none => exact .throw _
  | some hops =>
    refine .bind (.lift _) fun parent => .bind (.lift _) fun this => ?_
    cases parent with
    | classValue c =>
      dsimp only
      cases c.method? m.lexeme with
      | some method => exact .bind (.bindMethod _ _) fun _ => .pure _
      | none => exact .lift _
    | _ => exact .throw _

/-- The functions with entries tell those under watch. -/
structure TellsAt (turns room : Nat) : Prop where
  eval : ∀ e, Tells (tellEval turns room e) (watchEval turns room e)
  evalAll : ∀ es, Tells (tellEvalAll turns room es) (watchEvalAll turns room es)
  call : ∀ v vs, Tells (tellCall turns room v vs) (watchCall turns room v vs)
  construct : ∀ c vs, Tells (tellConstruct turns room c vs) (watchConstruct turns room c vs)
  invoke : ∀ f vs, Tells (tellInvoke turns room f vs) (watchInvoke turns room f vs)
  execAll : ∀ ss, Tells (tellExecAll turns room ss) (watchExecAll turns room ss)
  exec : ∀ s, Tells (tellExec turns room s) (watchExec turns room s)

namespace TellsAt

variable {turns room : Nat}

theorem eval_succ (h : TellsAt turns room) (e : Expr) :
    Tells (tellEval turns (room + 1) e) (watchEval turns (room + 1) e) := by
  cases e with
  | literal v => exact .pure _
  | group e => exact h.eval e
  | name r | self r =>
    exact .bind (.observe _) fun _ => .bind (.lift _) fun _ => .lift _
  | assign r e =>
    exact .bind (.observe _) fun _ => .bind (h.eval e) fun _ => .bind (.lift _) fun _ =>
      .bind (.observe _) fun _ => .bind (.lift _) fun _ => .pure _
  | unary op e => exact .bind (h.eval e) fun _ => .bind (.lift _) fun _ => .lift _
  | binary l op r =>
    exact .bind (h.eval l) fun _ => .bind (h.eval r) fun _ => .bind (.lift _) fun _ => .lift _
  | logical l op r =>
    exact .bind (h.eval l) fun _ => .bind (.lift _) fun _ => .ite (.pure _) (h.eval r)
  | conditional t y n =>
    exact .bind (h.eval t) fun _ => .bind (.lift _) fun _ => .ite (h.eval y) (h.eval n)
  | call f paren args =>
    refine .bind (h.eval f) fun callee => .bind (h.evalAll args) fun values =>
      .bind (.lift _) fun _ => ?_
    cases arity? callee with
    | none => exact .lift _
    | some n => exact .ite (.lift _) (.bind (.lift _) fun _ => h.call callee values)
  | get o p =>
    refine .bind (h.eval o) fun v => ?_
    cases v with
    | object id c => exact tells_property room id c p
    | _ => exact .lift _
  | set o p e =>
    refine .bind (h.eval o) fun v => ?_
    cases v with
    | object id c =>
      exact .bind (h.eval e) fun _ => .bind (.lift _) fun _ => .bind (.lift _) fun _ => .pure _
    | _ => exact .lift _
  | super r m => exact tells_superMethod room r m

theorem call_succ (h : TellsAt turns room) (v : Value FrameId) (vs : List (Value FrameId)) :
    Tells (tellCall turns (room + 1) v vs) (watchCall turns (room + 1) v vs) := by
  cases v with
  | function f => exact h.invoke f vs
  | native f =>
    cases f
    exact .bind (.lift _) fun _ => .lift _
  | classValue c => exact h.construct c vs
  | _ => exact .pure _

theorem construct_succ (h : TellsAt turns room) (c : ClassValue FrameId)
    (vs : List (Value FrameId)) :
    Tells (tellConstruct turns (room + 1) c vs) (watchConstruct turns (room + 1) c vs) := by
  refine .between (fun _ => rfl) (fun _ => rfl) (.bind (.lift _) fun _ =>
    .bind (.lift _) fun object => ?_)
  cases c.initializer? with
  | none => exact .pure _
  | some f =>
    exact .bind (.lift _) fun _ => .bind (.bindMethod _ _) fun f => .bind (h.invoke f vs)
      fun _ => .pure _

theorem invoke_succ (h : TellsAt turns room) (f : Closure FrameId) (vs : List (Value FrameId)) :
    Tells (tellInvoke turns (room + 1) f vs) (watchInvoke turns (room + 1) f vs) :=
  .between (fun _ => rfl) (fun _ => rfl) (.bind (.lift _) fun _ =>
    .bind (.openFrame _ _ _) fun frame => .bind (.inFrame frame (h.execAll _)) fun _ => .lift _)

theorem exec_succ (h : TellsAt turns room) (s : Stmt) :
    Tells (tellExec turns (room + 1) s) (watchExec turns (room + 1) s) := by
  cases s with
  | expression e => exact .bind (h.eval e) fun _ => .pure _
  | print e =>
    exact .bind (h.eval e) fun _ => .bind (.lift _) fun _ => .bind (.lift _) fun _ => .pure _
  | var n e =>
    cases e with
    | none => exact .bind (.lift _) fun _ => .bind (.lift _) fun _ => .pure _
    | some e =>
      exact .bind (h.eval e) fun _ => .bind (.lift _) fun _ => .bind (.lift _) fun _ => .pure _
  | block body =>
    exact .bind (.lift _) fun _ => .get fun _ => .bind (.openFrame _ _ _) fun f =>
      .inFrame f (h.execAll body)
  | branch t y n =>
    refine .bind (h.eval t) fun _ => .bind (.lift _) fun _ => .ite (h.exec y) ?_
    cases n with
    | none => exact .pure _
    | some n => exact h.exec n
  | loop t body =>
    exact .repeatWhile (.bind (h.eval t) fun _ => .bind (.lift _) fun _ => .pure _)
      (h.exec body) turns
  | leave k => exact .pure _
  | giveBack k e =>
    cases e with
    | none => exact .bind (.lift _) fun _ => .pure _
    | some e => exact .bind (h.eval e) fun _ => .bind (.lift _) fun _ => .pure _
  | function d => exact .bind (.lift _) fun _ => .get fun _ => .bind (.lift _) fun _ => .pure _
  | classDecl n s ms =>
    exact .bind (.lift _) fun _ => .bind (tells_class _ n s ms) fun _ => .pure _

end TellsAt

theorem tellsAt (turns room : Nat) : TellsAt turns room := by
  induction room with
  | zero =>
    exact ⟨fun _ => .throw _, fun _ => .throw _, fun _ _ => .throw _, fun _ _ => .throw _,
      fun _ _ => .throw _, fun _ => .throw _, fun _ => .throw _⟩
  | succ room h =>
    exact ⟨h.eval_succ, fun es => .mapM h.eval es, h.call_succ, h.construct_succ, h.invoke_succ,
      fun ss => .untilLeft h.exec ss, h.exec_succ⟩

/-- **To tell a run is to watch it**, but for the entries that are no events. -/
theorem tellRunAll_tells (turns room : Nat) (p : List Stmt) :
    Tells (runAll (tellExec turns room) p) (runAll (watchExec turns room) p) := by
  induction p with
  | nil => exact .pure _
  | cons s rest ih =>
    refine .bind ((tellsAt turns room).exec s) fun c => ?_
    cases c with
    | giveBack v => exact .pure _
    | normal | leave => exact ih

end Machine
end LoxKit
