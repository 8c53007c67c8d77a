import LoxKit.Machine.Eval
import LoxKit.Proofs.Erasure

/-!
# Runs do not look at what was printed

A machine keeps all that was printed, and only adds to it.  A step of a machine that has printed
more before all else does what it does without that text, and leaves the text where it is
(`Machine.shiftsAt`).
-/
namespace LoxKit

/-- **A machine that has printed a text before all else.** -/
def Machine.behind (text : String) (m : Machine) : Machine :=
  { m with output := text ++ m.output }

/-- A text is put before the output of a run. -/
def printing (text : String) : Erasure Failure Machine := ⟨id, Machine.behind text⟩

/-- **A step that does not look at what was printed** before. -/
abbrev Shifts {α : Type} (text : String) (x : Run α) : Prop := Erases (printing text) id x x

/-! ## Single steps -/

namespace Shifts

variable {α β : Type} {text : String}

theorem ofExcept (r : Operator.Result FrameId) :
    Shifts text (liftExcept r : Run (Value FrameId)) := by
  intro m
  cases r <;> rfl

theorem fail (place : Token) (cause : RunError) : Shifts text (Run.fail place cause : Run α) :=
  .throw _

theorem need (spare room : Nat) : Shifts text (Run.need spare room) := by
  intro m
  unfold Run.need
  split <;> rfl

theorem access (name : Token) (r : Except AccessFault α) : Shifts text (Run.access name r) := by
  intro m
  cases r with
  | ok a => rfl
  | error fault => cases fault <;> rfl

theorem newFrame (e : FrameId) (b : Bindings (Value FrameId)) : Shifts text (Run.newFrame e b) :=
  .get fun m => .bind (.modify fun _ => rfl) fun _ => .pure m.frames.frames.size

theorem bindIn (g : FrameId) (x : String) (v : Value FrameId) : Shifts text (Run.bindIn g x v) :=
  .modify fun _ => rfl

theorem define (x : String) (v : Value FrameId) : Shifts text (Run.define x v) :=
  .get fun m => bindIn m.current x v

/-- What is done in another frame. -/
theorem inFrame {x : Run α} (g : FrameId) (h : Shifts text x) : Shifts text (Run.inFrame g x) := by
  intro m
  have hx : x { (printing text).state m with current := g } =
    (printing text).result id (x { m with current := g }) := h { m with current := g }
  unfold Run.inFrame
  dsimp only at hx ⊢
  rw [hx]
  cases x { m with current := g } <;> rfl

theorem readAt (hops : Int) (x : String) : Shifts text (Run.readAt hops x) := by
  refine .get fun m => ?_
  dsimp only [printing, Machine.behind]
  cases m.frames.getAt m.current hops x with
  | ok v => exact .pure v
  | error e => exact .throw _

theorem readReference (r : Reference) : Shifts text (Run.readReference r) := by
  unfold Run.readReference
  cases r.hops with
  | some hops => exact readAt hops _
  | none => exact .get fun m => access r.name (m.frames.get globalFrame r.name.lexeme)

theorem assignFrom (g : FrameId) (name : Token) (v : Value FrameId) :
    Shifts text (Run.assignFrom g name v) :=
  .get fun m => .bind (access name (m.frames.locate g name.lexeme)) fun h => bindIn h _ v

theorem assignAt (hops : Int) (name : Token) (v : Value FrameId) :
    Shifts text (Run.assignAt hops name v) :=
  .get fun m => .bind (access name (m.frames.locateAt m.current hops name.lexeme)) fun h =>
    bindIn h _ v

theorem writeReference (r : Reference) (v : Value FrameId) :
    Shifts text (Run.writeReference r v) := by
  unfold Run.writeReference
  cases r.hops with
  | some hops => exact assignAt hops r.name v
  | none => exact assignFrom globalFrame r.name v

theorem bindMethod (method : Closure FrameId) (this : Value FrameId) :
    Shifts text (Run.bind method this) :=
  .bind (newFrame method.home _) fun g => .pure { method with home := g }

theorem newObject (c : ClassValue FrameId) : Shifts text (Run.newObject c) :=
  .get fun m => .bind (.modify fun _ => rfl) fun _ => .pure (Value.object m.fields.size c)

theorem setField (i : ObjectId) (x : String) (v : Value FrameId) :
    Shifts text (Run.setField i x v) := .modify fun _ => rfl

theorem readClock : Shifts text Run.readClock :=
  .get fun m => .bind (.modify fun _ => rfl) fun _ => .pure (Value.number (m.clock m.readings))

/-- Printing itself. -/
theorem write (more : String) : Shifts text (modify (·.write more) : Run PUnit) := by
  refine .modify fun m => ?_
  simp only [printing, Machine.behind, Machine.write, String.append_assoc]

theorem mapM {x : α → Run β} (h : ∀ a, Shifts text (x a)) (as : List α) :
    Shifts text (as.mapM x) := by
  have hmap := Erases.mapM (E := printing text) (f := id) (e := id) (y := x) h as
  simpa only [List.map_id, List.map_id_fun] using hmap

theorem untilLeft {x : Stmt → Run (Completion FrameId)} (h : ∀ s, Shifts text (x s))
    (ss : List Stmt) : Shifts text (Run.untilLeft x ss) := by
  induction ss with
  | nil => exact .pure _
  | cons s ss ih =>
    refine .bind (h s) fun c => ?_
    cases c with
    | normal => exact ih
    | leave => exact .pure _
    | giveBack v => exact .pure _

theorem repeatWhile {t : Run (Value FrameId)} {b : Run (Completion FrameId)}
    (ht : Shifts text t) (hb : Shifts text b) (turns : Nat) :
    Shifts text (Run.repeatWhile t b turns) := by
  induction turns with
  | zero => exact .throw _
  | succ turns ih =>
    refine .bind ht fun v => .ite Iff.rfl (.bind hb fun c => ?_) (.pure _)
    cases c with
    | normal => exact ih
    | leave => exact .pure _
    | giveBack v => exact .pure _

end Shifts

/-! ## The evaluator -/

namespace Machine

variable {text : String}

theorem shifts_callResult (room : Nat) (f : Closure FrameId) (c : Completion FrameId) :
    Shifts text (callResult room f c) := by
  unfold callResult
  cases f.isInitializer with
  | true =>
    refine .bind (Shifts.need _ _) fun _ => .get fun m => ?_
    dsimp only [printing, Machine.behind]
    cases m.frames.getAt f.home 0 "this" with
    | ok v => exact .pure v
    | error e => exact .throw _
  | false => cases c <;> exact .pure _

theorem shifts_superclass? (room : Nat) (r : Option Reference) :
    Shifts text (superclass? room r) := by
  cases r with
  | none => exact .pure none
  | some r =>
    refine .bind (Shifts.need _ _) fun _ => .bind (Shifts.readReference r) fun v => ?_
    cases v with
    | classValue c => exact .pure (some c)
    | _ => exact Shifts.fail r.name _

theorem shifts_declareClass (room : Nat) (n : Token) (s : Option Reference) (ms : List FunDecl) :
    Shifts text (declareClass room n s ms) := by
  refine .bind (shifts_superclass? room s) fun parent => .bind (Shifts.need _ _) fun _ =>
    .bind (Shifts.define n.lexeme .nil) fun _ => .get fun m => ?_
  have hmake (frame : FrameId) : Shifts text
      (do
        Run.need (if ms.isEmpty then Spare.make else 1 + Spare.make) room
        let number := (← get).classCount
        modify fun m => { m with classCount := m.classCount + 1 }
        let head : ClassHead FrameId := ⟨number, n.lexeme, methodTable frame ms⟩
        Run.assignFrom m.current n (.classValue (.of head parent))) :=
    .bind (Shifts.need _ _) fun _ => .get fun m' => .bind (.modify fun _ => rfl) fun _ =>
      Shifts.assignFrom m.current n
        (.classValue (.of ⟨m'.classCount, n.lexeme, methodTable frame ms⟩ parent))
  cases parent with
  | none => exact .bind (.pure m.current) hmake
  | some c =>
    exact .bind (Shifts.need _ _) fun _ =>
      .bind (Shifts.newFrame m.current (.ofList [("super", .classValue c)])) hmake

theorem shifts_property (room : Nat) (i : ObjectId) (c : ClassValue FrameId) (n : Token) :
    Shifts text (property room i c n) := by
  refine .get fun m => ?_
  dsimp only [printing, Machine.behind]
  cases (m.fields[i]?.getD .empty).get? n.lexeme with
  | some v => exact .bind (Shifts.need _ _) fun _ => .pure v
  | none =>
    refine .bind (Shifts.need _ _) fun _ => ?_
    cases c.method? n.lexeme with
    | some f => exact .bind (Shifts.bindMethod f (.object i c)) fun g => .pure (Value.function g)
    | none => exact Shifts.fail n _

theorem shifts_superMethod (room : Nat) (r : Reference) (m : Token) :
    Shifts text (superMethod room r m) := by
  refine .bind (Shifts.need _ _) fun _ => ?_
  cases r.hops with
  | none => exact .throw _
  | some hops =>
    refine .bind (Shifts.readAt _ _) fun parent => .bind (Shifts.readAt _ _) fun this => ?_
    cases parent with
    | classValue c =>
      dsimp only [id]
      cases c.method? m.lexeme with
      | some f => exact .bind (Shifts.bindMethod f this) fun g => .pure (Value.function g)
      | none => exact Shifts.fail m _
    | _ => exact .throw _

/-- **The functions of the evaluator do not look at what was printed**, with so much room. -/
structure ShiftsAt (text : String) (turns room : Nat) : Prop where
  eval : ∀ e, Shifts text (Machine.eval turns room e)
  evalAll : ∀ es, Shifts text (Machine.evalAll turns room es)
  call : ∀ v vs, Shifts text (Machine.call turns room v vs)
  construct : ∀ c vs, Shifts text (Machine.construct turns room c vs)
  invoke : ∀ f vs, Shifts text (Machine.invoke turns room f vs)
  execAll : ∀ ss, Shifts text (Machine.execAll turns room ss)
  exec : ∀ s, Shifts text (Machine.exec turns room s)

variable {turns room : Nat}

theorem ShiftsAt.eval_succ (h : ShiftsAt text turns room) (e : Expr) :
    Shifts text (Machine.eval turns (room + 1) e) := by
  cases e with
  | literal v => exact .pure (Value.ofLiteral v)
  | group e => exact h.eval e
  | name r | self r => exact .bind (Shifts.need _ _) fun _ => Shifts.readReference r
  | assign r e =>
    exact .bind (h.eval e) fun v => .bind (Shifts.need _ _) fun _ =>
      .bind (Shifts.writeReference r v) fun _ => .pure v
  | unary op e =>
    exact .bind (h.eval e) fun v => .bind (Shifts.need _ _) fun _ => Shifts.ofExcept _
  | binary l op r =>
    exact .bind (h.eval l) fun a => .bind (h.eval r) fun b => .bind (Shifts.need _ _) fun _ =>
      Shifts.ofExcept _
  | logical l op r =>
    exact .bind (h.eval l) fun a => .bind (Shifts.need _ _) fun _ =>
      .ite Iff.rfl (.pure a) (h.eval r)
  | conditional t y n =>
    exact .bind (h.eval t) fun v => .bind (Shifts.need _ _) fun _ =>
      .ite Iff.rfl (h.eval y) (h.eval n)
  | call f paren args =>
    refine .bind (h.eval f) fun callee => .bind (h.evalAll args) fun values =>
      .bind (Shifts.need _ _) fun _ => ?_
    dsimp only [id]
    cases arity? callee with
    | none => exact Shifts.fail paren _
    | some n =>
      exact .ite Iff.rfl (Shifts.fail paren _)
        (.bind (.modify fun _ => rfl) fun _ => h.call callee values)
  | get o p =>
    refine .bind (h.eval o) fun v => ?_
    cases v with
    | object i c => exact shifts_property room i c p
    | _ => exact Shifts.fail p _
  | set o p e =>
    refine .bind (h.eval o) fun v => ?_
    cases v with
    | object i c =>
      exact .bind (h.eval e) fun v => .bind (Shifts.need _ _) fun _ =>
        .bind (Shifts.setField i p.lexeme v) fun _ => .pure v
    | _ => exact Shifts.fail p _
  | super r m => exact shifts_superMethod room r m

theorem ShiftsAt.call_succ (h : ShiftsAt text turns room) (v : Value FrameId)
    (vs : List (Value FrameId)) : Shifts text (Machine.call turns (room + 1) v vs) := by
  cases v with
  | function f => exact h.invoke f vs
  | native f =>
    cases f
    exact .bind (Shifts.need _ _) fun _ => Shifts.readClock
  | classValue c => exact h.construct c vs
  | _ => exact .pure Value.nil

theorem ShiftsAt.construct_succ (h : ShiftsAt text turns room) (c : ClassValue FrameId)
    (vs : List (Value FrameId)) : Shifts text (Machine.construct turns (room + 1) c vs) := by
  refine .bind (Shifts.need _ _) fun _ => .bind (Shifts.newObject c) fun object => ?_
  cases c.initializer? with
  | none => exact .pure object
  | some f =>
    exact .bind (Shifts.need _ _) fun _ => .bind (Shifts.bindMethod f object) fun g =>
      .bind (h.invoke g vs) fun _ => .pure object

theorem ShiftsAt.invoke_succ (h : ShiftsAt text turns room) (f : Closure FrameId)
    (vs : List (Value FrameId)) : Shifts text (Machine.invoke turns (room + 1) f vs) :=
  .bind (Shifts.need _ _) fun _ => .bind (Shifts.newFrame f.home _) fun frame =>
    .bind (Shifts.inFrame frame (h.execAll f.decl.body)) fun c => shifts_callResult room f c

theorem ShiftsAt.exec_succ (h : ShiftsAt text turns room) (s : Stmt) :
    Shifts text (Machine.exec turns (room + 1) s) := by
  cases s with
  | expression e => exact .bind (h.eval e) fun _ => .pure _
  | print e =>
    exact .bind (h.eval e) fun v => .bind (Shifts.need _ _) fun _ =>
      .bind (Shifts.write (v.render ++ "\n")) fun _ => .pure _
  | var n e =>
    cases e with
    | none =>
      exact .bind (Shifts.need _ _) fun _ => .bind (Shifts.define n.lexeme .nil) fun _ => .pure _
    | some e =>
      exact .bind (h.eval e) fun v => .bind (Shifts.need _ _) fun _ =>
        .bind (Shifts.define n.lexeme v) fun _ => .pure _
  | block body =>
    exact .bind (Shifts.need _ _) fun _ => .get fun m => .bind (Shifts.newFrame m.current .empty)
      fun frame => Shifts.inFrame frame (h.execAll body)
  | branch t y n =>
    refine .bind (h.eval t) fun v => .bind (Shifts.need _ _) fun _ => .ite Iff.rfl (h.exec y) ?_
    cases n with
    | none => exact .pure _
    | some n => exact h.exec n
  | loop t body =>
    exact Shifts.repeatWhile (.bind (h.eval t) fun v => .bind (Shifts.need _ _) fun _ => .pure v)
      (h.exec body) turns
  | leave k => exact .pure _
  | giveBack k e =>
    cases e with
    | none => exact .bind (Shifts.need _ _) fun _ => .pure (Completion.giveBack .nil)
    | some e =>
      exact .bind (h.eval e) fun v => .bind (Shifts.need _ _) fun _ =>
        .pure (Completion.giveBack v)
  | function d =>
    exact .bind (Shifts.need _ _) fun _ => .get fun m =>
      .bind (Shifts.define d.name.lexeme (.function ⟨d, m.current, false⟩)) fun _ => .pure _
  | classDecl n s ms =>
    exact .bind (Shifts.need _ _) fun _ => .bind (shifts_declareClass (room - 1) n s ms)
      fun _ => .pure _

/-- **No step of the evaluator looks at what was printed.** -/
theorem shiftsAt (text : String) (turns room : Nat) : ShiftsAt text turns room := by
  induction room with
  | zero =>
    exact ⟨fun _ => .throw _, fun _ => .throw _, fun _ _ => .throw _, fun _ _ => .throw _,
      fun _ _ => .throw _, fun _ => .throw _, fun _ => .throw _⟩
  | succ room h =>
    exact ⟨h.eval_succ, fun es => Shifts.mapM h.eval es, h.call_succ, h.construct_succ,
      h.invoke_succ, fun ss => Shifts.untilLeft h.exec ss, h.exec_succ⟩

theorem shifts_runAll (text : String) (turns room : Nat) (p : Program) :
    Shifts text (runAll (exec turns room) p) := by
  induction p with
  | nil => exact .pure ()
  | cons s rest ih =>
    refine .bind ((shiftsAt text turns room).exec s) fun c => ?_
    cases c with
    | giveBack v => exact .pure ()
    | _ => exact ih

/-- **A program runs behind a text as it runs without it.** -/
theorem runProgram_behind (limits : Limits) (text : String) (m : Machine) (p : Program) :
    (m.behind text).runProgram limits p =
      ((m.runProgram limits p).1, (m.runProgram limits p).2.behind text) := by
  have h := shifts_runAll text limits.turns limits.room p m
  unfold runProgram after
  rw [show m.behind text = (printing text).state m from rfl, h]
  cases runAll (exec limits.turns limits.room) p m <;> rfl

end Machine
end LoxKit
