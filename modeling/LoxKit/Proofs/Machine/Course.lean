import LoxKit.Machine.Eval
import LoxKit.Proofs.Tree.Shape

/-!
# What a run can do to a machine

Whatever program runs, and whether it was resolved or not, a machine changes in a few ways only
(`Machine.Change`): a frame is made, a name is defined in the current frame or given another
value where it is bound, an object is made or one of its fields set, something is counted or
printed.  The body of a block or of a function runs in a frame made for it, and the frame before
is current again behind it.  A **course** is any succession of these (`Machine.Course`).

Every step of the evaluator takes a machine along a course, whether it yields something or fails
(`Machine.coursesAt`).  So what every course leaves alone no run can change, and the frame that is
current is such a thing (`Machine.Course.current`).

More can be said of a step that defines no name in the current frame.  A relation that allows all
other changes is one by which expressions and calls abide (`Machine.abidesAt`), and so do statements
that declare nothing (`Machine.AbidesAt.exec_succ`).
-/
namespace LoxKit

/-! ## Courses -/

namespace Machine

/-- **A single change of a machine.** -/
inductive Change : Machine → Machine → Prop where
  | newFrame (m : Machine) (home : FrameId) (b : Bindings (Value FrameId)) :
    Change m { m with frames := (m.frames.new (some home) b).2 }
  /-- A name is defined in the current frame. -/
  | define (m : Machine) (x : String) (v : Value FrameId) :
    Change m { m with frames := m.frames.define m.current x v }
  /-- A name that some frame binds is given another value there. -/
  | assign (m : Machine) {f : FrameId} {x : String} (v : Value FrameId) :
    (m.frames.bindings f).contains x → Change m { m with frames := m.frames.define f x v }
  | newObject (m : Machine) : Change m { m with fields := m.fields.push .empty }
  | setField (m : Machine) (id : ObjectId) (x : String) (v : Value FrameId) :
    Change m { m with fields := m.fields.modify id (·.put x v) }
  | countClass (m : Machine) : Change m { m with classCount := m.classCount + 1 }
  | beginCall (m : Machine) (line : Int) : Change m { m with line }
  | print (m : Machine) (text : String) : Change m (m.write text)
  | readClock (m : Machine) : Change m { m with readings := m.readings + 1 }

/-- **What a run can make of a machine.**  A body runs in a frame that has just been made, and
then the frame before is current again. -/
inductive Course : Machine → Machine → Prop where
  | done (m : Machine) : Course m m
  | change {m m₁ m₂ : Machine} : Change m m₁ → Course m₁ m₂ → Course m m₂
  | body {m m₁ m₂ : Machine} (home : FrameId) (b : Bindings (Value FrameId)) :
    Course { m with
      frames := (m.frames.new (some home) b).2, current := m.frames.frames.size } m₁ →
    Course { m₁ with current := m.current } m₂ → Course m m₂

namespace Course

variable {m m₁ m₂ : Machine}

theorem single (h : Change m m₁) : m.Course m₁ := .change h (.done m₁)

theorem trans (h : m.Course m₁) (h' : m₁.Course m₂) : m.Course m₂ := by
  induction h with
  | done _ => exact h'
  | change hc _ ih => exact .change hc (ih h')
  | body home b hb _ _ ih => exact .body home b hb (ih h')

/-- **The current frame is the same behind a course.** -/
theorem current (h : m.Course m₁) : m₁.current = m.current := by
  induction h with
  | done m => rfl
  | change hc _ ih =>
    rw [ih]
    cases hc <;> rfl
  | body _ _ _ _ _ ih => exact ih

end Course
end Machine

/-! ## What any step may do -/

/-- **A relation by which every step abides**, but for the definition of names.  It holds of a
machine and what a change makes of it, unless the change defines a name in the current frame; and a
body may take any course in its frame. -/
class Machine.Conduct (R : Machine → Machine → Prop) : Prop where
  refl (m : Machine) : R m m
  trans {m m₁ m₂ : Machine} : R m m₁ → R m₁ m₂ → R m m₂
  newFrame (m : Machine) (home : FrameId) (b : Bindings (Value FrameId)) :
    R m { m with frames := (m.frames.new (some home) b).2 }
  assign (m : Machine) {f : FrameId} {x : String} (v : Value FrameId) :
    (m.frames.bindings f).contains x → R m { m with frames := m.frames.define f x v }
  /-- The frames are left alone. -/
  aside {m m₁ : Machine} : Change m m₁ → m₁.frames = m.frames → R m m₁
  body {m m₁ : Machine} (home : FrameId) (b : Bindings (Value FrameId)) :
    Course { m with
      frames := (m.frames.new (some home) b).2, current := m.frames.frames.size } m₁ →
    R m { m₁ with current := m.current }

instance : Machine.Conduct Machine.Course where
  refl := .done
  trans := .trans
  newFrame m home b := .single (.newFrame m home b)
  assign m _ _ v hx := .single (.assign m v hx)
  aside h _ := .single h
  body home b h := .body home b h (.done _)

/-- **A step abides by a relation**: it takes any machine to one in that relation to it, whether it
yields something or fails. -/
def Abides (R : Machine → Machine → Prop) {α : Type} (x : Run α) : Prop :=
  ∀ m : Machine, R m (m.after x).2

/-- **A step takes any machine along a course**, whether it yields something or fails. -/
def Courses {α : Type} (x : Run α) : Prop := ∀ m : Machine, m.Course (m.after x).2

namespace Abides

variable {α β : Type} {R : Machine → Machine → Prop}

theorem get {f : Machine → Run β} (hf : ∀ m, Abides R (f m)) : Abides R (MonadState.get >>= f) :=
  fun m => hf m m

theorem ite {P : Prop} [Decidable P] {x y : Run α} (hx : Abides R x) (hy : Abides R y) :
    Abides R (if P then x else y) := by
  split
  · exact hx
  · exact hy

variable [Machine.Conduct R]

theorem pure (a : α) : Abides R (Pure.pure a) := fun m => Machine.Conduct.refl m

theorem throw (e : Failure) : Abides R (MonadExcept.throw e : Run α) :=
  fun m => Machine.Conduct.refl m

theorem bind {x : Run α} {f : α → Run β} (hx : Abides R x) (hf : ∀ a, Abides R (f a)) :
    Abides R (x >>= f) := by
  intro m
  have h := hx m
  unfold Machine.after at h ⊢
  simp only [Bind.bind, EStateM.bind]
  cases hxm : x m with
  | error e m₁ =>
    rw [hxm] at h
    exact h
  | ok a m₁ =>
    rw [hxm] at h
    exact Machine.Conduct.trans h (hf a m₁)

/-- A step that is a single change, and not of the frames. -/
theorem modify {g : Machine → Machine} (h : ∀ m, Machine.Change m (g m))
    (hframes : ∀ m, (g m).frames = m.frames) : Abides R (modifyThe Machine g) :=
  fun m => Machine.Conduct.aside (h m) (hframes m)

theorem ofExcept (r : Except Failure α) : Abides R (liftExcept r) := by
  cases r with
  | ok a => exact .pure a
  | error e => exact .throw e

theorem need (spare room : Nat) : Abides R (Run.need spare room) := .ite (.throw _) (.pure ())

theorem fail (place : Token) (cause : RunError) : Abides R (Run.fail place cause : Run α) :=
  .throw _

theorem access (name : Token) (r : Except AccessFault α) : Abides R (Run.access name r) := by
  cases r with
  | ok a => exact .pure a
  | error fault => cases fault <;> exact .throw _

theorem newFrame (home : FrameId) (b : Bindings (Value FrameId)) :
    Abides R (Run.newFrame home b) := fun m => Machine.Conduct.newFrame m home b

theorem readAt (hops : Int) (x : String) : Abides R (Run.readAt hops x) := by
  refine .get fun m => ?_
  cases m.frames.getAt m.current hops x with
  | ok v => exact .pure v
  | error e => exact .throw _

theorem readReference (r : Reference) : Abides R (Run.readReference r) := by
  unfold Run.readReference
  cases r.hops with
  | some hops => exact readAt hops r.name.lexeme
  | none => exact .get fun m => access r.name (m.frames.get globalFrame r.name.lexeme)

/-- A name is given a value only where it is bound, and if it is nowhere nothing happens. -/
theorem assign {name : Token} (place : Machine → Except AccessFault FrameId)
    (hplace : ∀ m g, place m = .ok g → (m.frames.bindings g).contains name.lexeme)
    (v : Value FrameId) :
    Abides R (do
      let g ← Run.access name (place (← MonadState.get))
      Run.bindIn g name.lexeme v) := by
  intro m
  show R m (m.after (Run.access name (place m) >>= fun g => Run.bindIn g name.lexeme v)).2
  cases hg : place m with
  | ok g => exact Machine.Conduct.assign m v (hplace m g hg)
  | error fault => cases fault <;> exact Machine.Conduct.refl m

theorem assignFrom (f : FrameId) (name : Token) (v : Value FrameId) :
    Abides R (Run.assignFrom f name v) :=
  assign (fun m => m.frames.locate f name.lexeme)
    (fun _ _ hg => Store.contains_of_locate hg) v

theorem writeReference (r : Reference) (v : Value FrameId) :
    Abides R (Run.writeReference r v) := by
  unfold Run.writeReference
  cases r.hops with
  | some hops =>
    exact assign (fun m => m.frames.locateAt m.current hops r.name.lexeme)
      (fun _ _ hg => Store.contains_of_locateAt hg) v
  | none => exact assignFrom globalFrame r.name v

/-- **A body runs in a frame of its own**, and however it ends the frame before is current. -/
theorem body {x : Run α} (home : FrameId) (b : Bindings (Value FrameId)) (hx : Courses x) :
    Abides R (do
      let frame ← Run.newFrame home b
      Run.inFrame frame x) := by
  intro m
  let start : Machine := { m with
    frames := (m.frames.new (some home) b).2, current := m.frames.frames.size }
  have hbody : start.Course (start.after x).2 := hx start
  have hback : (m.after (do let frame ← Run.newFrame home b; Run.inFrame frame x)).2 =
      { (start.after x).2 with current := m.current } := by
    show (Machine.after { m with frames := (m.frames.new (some home) b).2 }
      (Run.inFrame m.frames.frames.size x)).2 = _
    unfold Machine.after Run.inFrame
    dsimp only [start]
    cases x { m with
      frames := (m.frames.new (some home) b).2, current := m.frames.frames.size } <;> rfl
  rw [hback]
  exact Machine.Conduct.body home b hbody

theorem bindMethod (method : Closure FrameId) (this : Value FrameId) :
    Abides R (Run.bind method this) := .bind (newFrame method.home _) fun _ => .pure _

theorem newObject (c : ClassValue FrameId) : Abides R (Run.newObject c) :=
  .get fun _ => .bind (.modify .newObject fun _ => rfl) fun _ => .pure _

theorem setField (id : ObjectId) (x : String) (v : Value FrameId) :
    Abides R (Run.setField id x v) := .modify (fun m => .setField m id x v) fun _ => rfl

theorem readClock : Abides R Run.readClock :=
  .get fun _ => .bind (.modify .readClock fun _ => rfl) fun _ => .pure _

theorem mapM {x : α → Run β} (h : ∀ a, Abides R (x a)) (as : List α) : Abides R (as.mapM x) := by
  induction as with
  | nil => exact .pure []
  | cons a as ih =>
    rw [List.mapM_cons]
    exact .bind (h a) fun _ => .bind ih fun _ => .pure _

theorem untilLeft {x : Stmt → Run (Completion FrameId)} (h : ∀ s, Abides R (x s))
    (ss : List Stmt) : Abides R (Run.untilLeft x ss) := by
  induction ss with
  | nil => exact .pure _
  | cons s ss ih =>
    refine .bind (h s) fun c => ?_
    cases c with
    | normal => exact ih
    | leave | giveBack v => exact .pure _

theorem repeatWhile {test : Run (Value FrameId)} {body : Run (Completion FrameId)}
    (ht : Abides R test) (hb : Abides R body) (turns : Nat) :
    Abides R (Run.repeatWhile test body turns) := by
  induction turns with
  | zero => exact .throw _
  | succ turns ih =>
    refine .bind ht fun v => .ite (.bind hb fun c => ?_) (.pure _)
    cases c with
    | normal => exact ih
    | leave | giveBack v => exact .pure _

end Abides

/-- A name is defined along a course, though not every relation allows it. -/
theorem Courses.define (x : String) (v : Value FrameId) : Courses (Run.define x v) :=
  fun m => .single (.define m x v)

/-! ## The evaluator -/

namespace Machine

section Conduct

variable {R : Machine → Machine → Prop} [Conduct R] {turns room : Nat}

theorem abides_callResult (room : Nat) (f : Closure FrameId) (c : Completion FrameId) :
    Abides R (callResult room f c) := by
  refine .ite (.bind (.need _ _) fun _ => .get fun m => ?_) ?_
  · cases m.frames.getAt f.home 0 "this" with
    | ok v => exact .pure v
    | error fault => exact .throw _
  · cases c with
    | giveBack v => exact .pure v
    | normal | leave => exact .pure _

theorem abides_superclass? (room : Nat) (r : Option Reference) :
    Abides R (superclass? room r) := by
  cases r with
  | none => exact .pure none
  | some r =>
    refine .bind (.need _ _) fun _ => .bind (.readReference r) fun v => ?_
    cases v with
    | classValue c => exact .pure (some c)
    | _ => exact .fail r.name _

theorem abides_property (room : Nat) (id : ObjectId) (c : ClassValue FrameId) (n : Token) :
    Abides R (property room id c n) := by
  refine .get fun m => ?_
  cases (m.fields[id]?.getD .empty).get? n.lexeme with
  | some v => exact .bind (.need _ _) fun _ => .pure v
  | none =>
    refine .bind (.need _ _) fun _ => ?_
    cases c.method? n.lexeme with
    | some f => exact .bind (.bindMethod f (.object id c)) fun _ => .pure _
    | none => exact .fail n _

theorem abides_superMethod (room : Nat) (r : Reference) (method : Token) :
    Abides R (superMethod room r method) := by
  refine .bind (.need _ _) fun _ => ?_
  cases r.hops with
  | none => exact .throw _
  | some hops =>
    refine .bind (.readAt _ _) fun parent => .bind (.readAt _ _) fun this => ?_
    cases parent with
    | classValue c =>
      dsimp only
      cases c.method? method.lexeme with
      | some f => exact .bind (.bindMethod f this) fun _ => .pure _
      | none => exact .fail method _
    | _ => exact .throw _

/-- **Expressions and calls abide by a relation**, in so much room. -/
structure AbidesAt (R : Machine → Machine → Prop) (turns room : Nat) : Prop where
  eval : ∀ e, Abides R (eval turns room e)
  evalAll : ∀ es, Abides R (evalAll turns room es)
  call : ∀ v vs, Abides R (call turns room v vs)
  construct : ∀ c vs, Abides R (construct turns room c vs)
  invoke : ∀ f vs, Abides R (invoke turns room f vs)

namespace AbidesAt

theorem zero : AbidesAt R turns 0 :=
  ⟨fun _ => .throw _, fun _ => .throw _, fun _ _ => .throw _, fun _ _ => .throw _,
    fun _ _ => .throw _⟩

theorem eval_succ (h : AbidesAt R turns room) (e : Expr) :
    Abides R (Machine.eval turns (room + 1) e) := by
  cases e with
  | literal v => exact .pure _
  | group e => exact h.eval e
  | name r | self r => exact .bind (.need _ _) fun _ => .readReference r
  | assign r e =>
    exact .bind (h.eval e) fun v => .bind (.need _ _) fun _ => .bind (.writeReference r v)
      fun _ => .pure v
  | unary op e => exact .bind (h.eval e) fun _ => .bind (.need _ _) fun _ => .ofExcept _
  | binary l op r =>
    exact .bind (h.eval l) fun _ => .bind (h.eval r) fun _ => .bind (.need _ _) fun _ =>
      .ofExcept _
  | logical l op r =>
    exact .bind (h.eval l) fun a => .bind (.need _ _) fun _ => .ite (.pure a) (h.eval r)
  | conditional t y n =>
    exact .bind (h.eval t) fun _ => .bind (.need _ _) fun _ => .ite (h.eval y) (h.eval n)
  | call f paren args =>
    refine .bind (h.eval f) fun callee => .bind (h.evalAll args) fun values =>
      .bind (.need _ _) fun _ => ?_
    cases arity? callee with
    | none => exact .fail paren _
    | some n =>
      exact .ite (.fail paren _) (.bind (.modify (fun m => .beginCall m paren.line) fun _ => rfl)
        fun _ => h.call callee values)
  | get o p =>
    refine .bind (h.eval o) fun v => ?_
    cases v with
    | object id c => exact abides_property room id c p
    | _ => exact .fail p _
  | set o p e =>
    refine .bind (h.eval o) fun v => ?_
    cases v with
    | object id c =>
      exact .bind (h.eval e) fun v => .bind (.need _ _) fun _ =>
        .bind (.setField id p.lexeme v) fun _ => .pure v
    | _ => exact .fail p _
  | super r m => exact abides_superMethod room r m

theorem call_succ (h : AbidesAt R turns room) (v : Value FrameId) (vs : List (Value FrameId)) :
    Abides R (Machine.call turns (room + 1) v vs) := by
  cases v with
  | function f => exact h.invoke f vs
  | native f =>
    cases f
    exact .bind (.need _ _) fun _ => .readClock
  | classValue c => exact h.construct c vs
  | _ => exact .pure _

theorem construct_succ (h : AbidesAt R turns room) (c : ClassValue FrameId)
    (vs : List (Value FrameId)) : Abides R (Machine.construct turns (room + 1) c vs) := by
  refine .bind (.need _ _) fun _ => .bind (.newObject c) fun object => ?_
  cases c.initializer? with
  | none => exact .pure object
  | some f =>
    exact .bind (.need _ _) fun _ => .bind (.bindMethod f object) fun g =>
      .bind (h.invoke g vs) fun _ => .pure object

/-- Nothing need be known of the body of a function but that it takes its course. -/
theorem invoke_succ (hbodies : ∀ ss, Courses (execAll turns room ss)) (f : Closure FrameId)
    (vs : List (Value FrameId)) : Abides R (Machine.invoke turns (room + 1) f vs) := by
  refine .bind (.need _ _) fun _ => ?_
  -- the result is told when the frame before is current again
  have hbody : Abides R _ := .body f.home (.ofList ((f.decl.params.map (·.lexeme)).zip vs))
    (hbodies f.decl.body)
  have hrun := hbody.bind fun c => abides_callResult room f c
  rwa [bind_assoc] at hrun

theorem succ (h : AbidesAt R turns room) (hbodies : ∀ ss, Courses (execAll turns room ss)) :
    AbidesAt R turns (room + 1) :=
  ⟨h.eval_succ, fun es => .mapM h.eval es, h.call_succ, h.construct_succ, invoke_succ hbodies⟩

/-- **A statement that declares nothing abides by a relation** if its parts do. -/
theorem exec_succ (h : AbidesAt R turns room) (hbodies : ∀ ss, Courses (execAll turns room ss))
    {s : Stmt} (hs : s.isDeclaration = false)
    (hparts : ∀ p ∈ s.parts, Abides R (exec turns room p)) :
    Abides R (Machine.exec turns (room + 1) s) := by
  cases s with
  | expression e => exact .bind (h.eval e) fun _ => .pure _
  | print e =>
    exact .bind (h.eval e) fun v => .bind (.need _ _) fun _ =>
      .bind (.modify (fun m => .print m _) fun _ => rfl) fun _ => .pure _
  | block body =>
    exact .bind (.need _ _) fun _ => .get fun m => .body m.current .empty (hbodies body)
  | branch t y n =>
    have hy := hparts y List.mem_cons_self
    refine .bind (h.eval t) fun v => .bind (.need _ _) fun _ => .ite hy ?_
    cases n with
    | none => exact .pure _
    | some n => exact hparts n (List.mem_cons_of_mem y List.mem_cons_self)
  | loop t body =>
    exact .repeatWhile (.bind (h.eval t) fun _ => .bind (.need _ _) fun _ => .pure _)
      (hparts body List.mem_cons_self) turns
  | leave k => exact .pure _
  | giveBack k e =>
    cases e with
    | none => exact .bind (.need _ _) fun _ => .pure _
    | some e => exact .bind (h.eval e) fun _ => .bind (.need _ _) fun _ => .pure _
  | var | function | classDecl => cases hs

end AbidesAt

end Conduct

theorem courses_declareClass (room : Nat) (n : Token) (s : Option Reference)
    (ms : List FunDecl) : Courses (declareClass room n s ms) := by
  refine Abides.bind (abides_superclass? room s) fun parent => .bind (.need _ _) fun _ =>
    .bind (Courses.define n.lexeme .nil) fun _ => .get fun m => ?_
  have hmake (frame : FrameId) : Abides Course (do
      Run.need (if ms.isEmpty then Spare.make else 1 + Spare.make) room
      let number := (← get).classCount
      modify fun m => { m with classCount := m.classCount + 1 }
      let head : ClassHead FrameId := ⟨number, n.lexeme, methodTable frame ms⟩
      Run.assignFrom m.current n (.classValue (.of head parent))) :=
    .bind (.need _ _) fun _ => .get fun _ => .bind (.modify .countClass fun _ => rfl) fun _ =>
      .assignFrom m.current n _
  cases parent with
  | none => exact .bind (.pure m.current) hmake
  | some c => exact .bind (.need _ _) fun _ => .bind (.newFrame m.current _) hmake

/-- **The functions of the evaluator take a machine along a course**, in so much room. -/
structure CoursesAt (turns room : Nat) : Prop where
  eval : ∀ e, Courses (eval turns room e)
  evalAll : ∀ es, Courses (evalAll turns room es)
  call : ∀ v vs, Courses (call turns room v vs)
  construct : ∀ c vs, Courses (construct turns room c vs)
  invoke : ∀ f vs, Courses (invoke turns room f vs)
  execAll : ∀ ss, Courses (execAll turns room ss)
  exec : ∀ s, Courses (exec turns room s)

namespace CoursesAt

variable {turns room : Nat}

theorem abides (h : CoursesAt turns room) : AbidesAt Course turns room :=
  ⟨h.eval, h.evalAll, h.call, h.construct, h.invoke⟩

theorem exec_succ (h : CoursesAt turns room) (s : Stmt) :
    Courses (Machine.exec turns (room + 1) s) := by
  cases s with
  | var n e =>
    cases e with
    | none => exact Abides.bind (.need _ _) fun _ => .bind (Courses.define _ _) fun _ => .pure _
    | some e =>
      exact Abides.bind (h.eval e) fun v => .bind (.need _ _) fun _ =>
        .bind (Courses.define n.lexeme v) fun _ => .pure _
  | function d =>
    exact Abides.bind (.need _ _) fun _ => .get fun m => .bind (Courses.define _ _) fun _ => .pure _
  | classDecl n s ms =>
    exact Abides.bind (.need _ _) fun _ => .bind (courses_declareClass (room - 1) n s ms)
      fun _ => .pure _
  | _ => exact h.abides.exec_succ h.execAll rfl fun p _ => h.exec p

end CoursesAt

/-- **Every step of the evaluator takes a machine along a course.** -/
theorem coursesAt (turns room : Nat) : CoursesAt turns room := by
  induction room with
  | zero =>
    have h : AbidesAt Course turns 0 := .zero
    exact ⟨h.eval, h.evalAll, h.call, h.construct, h.invoke, fun _ => Abides.throw _,
      fun _ => Abides.throw _⟩
  | succ room h =>
    have h' := h.abides.succ h.execAll
    exact ⟨h'.eval, h'.evalAll, h'.call, h'.construct, h'.invoke,
      fun ss => Abides.untilLeft h.exec ss, h.exec_succ⟩

/-- **Expressions and calls abide by every relation** that allows what any step may do. -/
theorem abidesAt (R : Machine → Machine → Prop) [Conduct R] (turns room : Nat) :
    AbidesAt R turns room := by
  induction room with
  | zero => exact .zero
  | succ room h => exact h.succ (coursesAt turns room).execAll

theorem courses_runAll (turns room : Nat) (p : Program) :
    Courses (runAll (exec turns room) p) := by
  induction p with
  | nil => exact Abides.pure ()
  | cons s rest ih =>
    refine Abides.bind ((coursesAt turns room).exec s) fun c => ?_
    cases c with
    | giveBack v => exact .pure ()
    | normal | leave => exact ih

end Machine
end LoxKit
