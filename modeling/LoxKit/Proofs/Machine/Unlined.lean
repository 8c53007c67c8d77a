import LoxKit.Machine.Eval
import LoxKit.Proofs.Erasure
import LoxKit.Proofs.Machine.Mapped
import LoxKit.Proofs.Tree.Unlined

/-!
# Runs do not look at line numbers

A machine keeps the lines of the functions it has made and of the call begun last.  They end up
in the messages of failures and guide nothing: a program without its lines, run by a machine
without them, does what the program does, without the lines (`Machine.erasesAt`).
-/
namespace LoxKit

variable {σ : Type}

/-! ## Values -/

/-- A function without the lines of its declaration. -/
def Closure.unlined (f : Closure σ) : Closure σ := { f with decl := f.decl.unlined }

/-- What a class declares itself, without lines. -/
def ClassHead.unlined (h : ClassHead σ) : ClassHead σ :=
  { h with methods := h.methods.map Closure.unlined }

/-- A class without lines. -/
def ClassValue.unlined : ClassValue σ → ClassValue σ
  | .root h => .root h.unlined
  | .derived h s => .derived h.unlined s.unlined

/-- **A value without lines.** -/
def Value.unlined : Value σ → Value σ
  | .function f => .function f.unlined
  | .classValue c => .classValue c.unlined
  | .object id c => .object id c.unlined
  | v => v

/-- What is left to the surroundings of a statement, without lines. -/
def Completion.unlined : Completion σ → Completion σ
  | .giveBack v => .giveBack v.unlined
  | c => c

@[simp] theorem Closure.unlined_decl (f : Closure σ) : f.unlined.decl = f.decl.unlined := rfl

@[simp] theorem Closure.unlined_home (f : Closure σ) : f.unlined.home = f.home := rfl

@[simp] theorem Closure.unlined_isInitializer (f : Closure σ) :
    f.unlined.isInitializer = f.isInitializer := rfl

namespace ClassValue

@[simp] theorem unlined_head (c : ClassValue σ) : c.unlined.head = c.head.unlined := by
  cases c <;> rfl

@[simp] theorem unlined_name (c : ClassValue σ) : c.unlined.name = c.name := by
  rw [name, unlined_head]
  rfl

@[simp] theorem unlined_of (h : ClassHead σ) (s : Option (ClassValue σ)) :
    (ClassValue.of h s).unlined = .of h.unlined (s.map unlined) := by
  cases s <;> rfl

@[simp] theorem unlined_method? (x : String) (c : ClassValue σ) :
    c.unlined.method? x = (c.method? x).map Closure.unlined := by
  induction c with
  | root h => exact Bindings.get?_map ..
  | derived h s ih =>
    rw [unlined, method?, method?, ih, ClassHead.unlined, Bindings.get?_map]
    cases h.methods.get? x <;> rfl

@[simp] theorem unlined_initializer? (c : ClassValue σ) :
    c.unlined.initializer? = c.initializer?.map Closure.unlined := c.unlined_method? "init"

@[simp] theorem unlined_arity (c : ClassValue σ) : c.unlined.arity = c.arity := by
  rw [arity, arity, unlined_initializer?]
  cases c.initializer? <;> simp

end ClassValue

namespace Value

@[simp] theorem unlined_ofLiteral (v : Literal) :
    (ofLiteral v : Value σ).unlined = ofLiteral v := by
  cases v <;> rfl

@[simp] theorem truthy_unlined (v : Value σ) : v.unlined.truthy = v.truthy := by cases v <;> rfl

@[simp] theorem number?_unlined (v : Value σ) : v.unlined.number? = v.number? := by
  cases v <;> rfl

@[simp] theorem isString_unlined (v : Value σ) : v.unlined.isString = v.isString := by
  cases v <;> rfl

@[simp] theorem render_unlined (v : Value σ) : v.unlined.render = v.render := by
  cases v with
  | function f => simp [unlined, render]
  | classValue c => simp [unlined, render]
  | object id c => simp [unlined, render]
  | _ => rfl

@[simp] theorem equals_unlined (a b : Value σ) : a.unlined.equals b.unlined = a.equals b := by
  cases a <;> cases b <;> simp [unlined, equals, ClassHead.unlined]

@[simp] theorem arity?_unlined (v : Value σ) : Machine.arity? v.unlined = Machine.arity? v := by
  cases v <;> simp [unlined, Machine.arity?]

end Value

/-! ## Machines -/

/-- A failure without the line of its place. -/
def Failure.unlined : Failure → Failure
  | .error place cause => .error place.unlined cause
  | e => e

/-- **A machine without lines.** -/
def Machine.unlined (m : Machine) : Machine :=
  { m with
    frames := m.frames.map Value.unlined
    fields := m.fields.map (·.map Value.unlined)
    line := 0 }

/-- Lines are erased from a run. -/
def unlining : Erasure Failure Machine := ⟨Failure.unlined, Machine.unlined⟩

/-- **A step without its lines.** -/
abbrev Unlines {α β : Type} (f : α → β) (x : Run α) (y : Run β) : Prop := Erases unlining f x y

/-- A result of an operator without the line of its failure. -/
def Operator.unlinedResult : Operator.Result FrameId → Operator.Result FrameId
  | .ok v => .ok v.unlined
  | .error e => .error e.unlined

namespace Operator

theorem unary_unlined (op : Token) (v : Value FrameId) :
    unary op.unlined v.unlined = unlinedResult (unary op v) := by
  simp only [unary, Token.unlined_kind, Token.unlined_lexeme, Value.number?_unlined,
    Value.truthy_unlined]
  cases op.kind <;> first | rfl | (cases v.number? <;> rfl)

theorem onNumbers_unlined (op : Token) {f : Float → Float → Value FrameId}
    (hf : ∀ x y, (f x y).unlined = f x y) (a b : Value FrameId) :
    onNumbers op.unlined f a.unlined b.unlined = unlinedResult (onNumbers op f a b) := by
  simp only [onNumbers, Value.number?_unlined]
  cases a.number? <;> cases b.number? <;> first | rfl | simp [unlinedResult, hf]

theorem add_unlined (op : Token) (a b : Value FrameId) :
    add op.unlined a.unlined b.unlined = unlinedResult (add op a b) := by
  simp only [add, Value.number?_unlined, Value.isString_unlined, Value.render_unlined]
  cases a.number? <;> cases b.number? <;> first | rfl | (dsimp only; split <;> rfl)

theorem divide_unlined (op : Token) (a b : Value FrameId) :
    divide op.unlined a.unlined b.unlined = unlinedResult (divide op a b) := by
  simp only [divide, Value.number?_unlined]
  cases a.number? <;> cases b.number? <;> first | rfl | (dsimp only; split <;> rfl)

theorem binary_unlined (op : Token) (a b : Value FrameId) :
    binary op.unlined a.unlined b.unlined = unlinedResult (binary op a b) := by
  simp only [binary, Token.unlined_kind, Token.unlined_lexeme, Value.equals_unlined]
  cases op.kind with
  | plus => exact add_unlined op a b
  | slash => exact divide_unlined op a b
  | minus | star | greater | greaterEqual | less | lessEqual =>
    exact onNumbers_unlined op (fun _ _ => rfl) a b
  | _ => rfl

@[simp] theorem decides_unlined (op : Token) (v : Value FrameId) :
    decides op.unlined v.unlined = decides op v := by
  simp [decides]

end Operator

namespace Spare

@[simp] theorem read_unlined (r : Reference) : read r.unlined = read r := rfl

@[simp] theorem write_unlined (r : Reference) : write r.unlined = write r := rfl

@[simp] theorem unary_unlined (op : Token) : unary op.unlined = unary op := rfl

@[simp] theorem words_unlined (v : Value FrameId) : words v.unlined = words v := by
  cases v <;> rfl

@[simp] theorem compare_unlined (v : Value FrameId) : compare v.unlined = compare v := by
  cases v <;> rfl

@[simp] theorem binary_unlined (op : Token) (a b : Value FrameId) :
    binary op.unlined a.unlined b.unlined = binary op a b := by
  simp [binary]

end Spare

/-! ## Single steps -/

namespace Unlines

variable {α β : Type} {f : α → β}

/-- What an operator yields. -/
theorem ofExcept {r r' : Operator.Result FrameId} (h : r' = Operator.unlinedResult r) :
    Unlines Value.unlined (liftExcept r) (liftExcept r') := by
  intro m
  rw [h]
  cases r <;> rfl

theorem fail (place : Token) (cause : RunError) (f : α → β) :
    Unlines f (Run.fail place cause) (Run.fail place.unlined cause) := .throw _

theorem need (spare room : Nat) : Unlines id (Run.need spare room) (Run.need spare room) := by
  intro m
  unfold Run.need
  split <;> rfl

/-- An access to the frames. -/
theorem access {r : Except AccessFault α} {r' : Except AccessFault β} (name : Token)
    (h : r' = r.map f) : Unlines f (Run.access name r) (Run.access name.unlined r') := by
  intro m
  rw [h]
  cases r with
  | ok a => rfl
  | error fault => cases fault <;> rfl

theorem newFrame (e : FrameId) (b : Bindings (Value FrameId)) :
    Unlines id (Run.newFrame e b) (Run.newFrame e (b.map Value.unlined)) := by
  refine .get fun m => ?_
  rw [show (unlining.state m).frames.frames.size = m.frames.frames.size from Store.size_map ..]
  refine .bind (.modify fun m => ?_) fun _ => .pure _
  simp only [unlining, Machine.unlined, Store.map_new]

theorem bindIn (g : FrameId) (x : String) (v : Value FrameId) :
    Unlines id (Run.bindIn g x v) (Run.bindIn g x v.unlined) :=
  .modify fun m => by simp only [unlining, Machine.unlined, Store.map_define]

theorem define (x : String) (v : Value FrameId) :
    Unlines id (Run.define x v) (Run.define x v.unlined) :=
  .get fun m => bindIn m.current x v

/-- What is done in another frame. -/
theorem inFrame {x : Run α} {y : Run β} (g : FrameId) (h : Unlines f x y) :
    Unlines f (Run.inFrame g x) (Run.inFrame g y) := by
  intro m
  have hx : y { unlining.state m with current := g } =
    unlining.result f (x { m with current := g }) := h { m with current := g }
  unfold Run.inFrame
  dsimp only at hx ⊢
  rw [hx]
  cases x { m with current := g } <;> rfl

theorem readAt (hops : Int) (x : String) :
    Unlines Value.unlined (Run.readAt hops x) (Run.readAt hops x) := by
  refine .get fun m => ?_
  have h : (unlining.state m).frames.getAt (unlining.state m).current hops x =
      (m.frames.getAt m.current hops x).map Value.unlined :=
    Store.getAt_map ..
  rw [h]
  cases m.frames.getAt m.current hops x with
  | ok v => exact .pure v
  | error e => exact .throw _

theorem readReference (r : Reference) :
    Unlines Value.unlined (Run.readReference r) (Run.readReference r.unlined) := by
  unfold Run.readReference
  rw [Reference.unlined_hops]
  cases r.hops with
  | some hops => exact readAt hops _
  | none => exact .get fun m => access r.name (Store.get_map ..)

/-- Where a name is bound does not depend on lines. -/
theorem assign (place : Machine → Except AccessFault FrameId)
    (hplace : ∀ m : Machine, place m.unlined = place m) (name : Token) (v : Value FrameId) :
    Unlines id
      (do
        let g ← Run.access name (place (← MonadState.get))
        Run.bindIn g name.lexeme v)
      (do
        let g ← Run.access name.unlined (place (← MonadState.get))
        Run.bindIn g name.unlined.lexeme v.unlined) := by
  refine .get fun m => .bind (f := id) (access name ?_) fun g => bindIn g _ v
  show place m.unlined = _
  rw [hplace]
  cases place m <;> rfl

theorem assignFrom (g : FrameId) (name : Token) (v : Value FrameId) :
    Unlines id (Run.assignFrom g name v) (Run.assignFrom g name.unlined v.unlined) :=
  assign (fun m => m.frames.locate g name.lexeme) (fun _ => Store.locate_map ..) name v

theorem assignAt (hops : Int) (name : Token) (v : Value FrameId) :
    Unlines id (Run.assignAt hops name v) (Run.assignAt hops name.unlined v.unlined) :=
  assign (fun m => m.frames.locateAt m.current hops name.lexeme)
    (fun _ => Store.locateAt_map ..) name v

theorem writeReference (r : Reference) (v : Value FrameId) :
    Unlines id (Run.writeReference r v) (Run.writeReference r.unlined v.unlined) := by
  unfold Run.writeReference
  rw [Reference.unlined_hops]
  cases r.hops with
  | some hops => exact assignAt hops r.name v
  | none => exact assignFrom globalFrame r.name v

theorem bindMethod (method : Closure FrameId) (this : Value FrameId) :
    Unlines Closure.unlined (Run.bind method this) (Run.bind method.unlined this.unlined) := by
  have hframe := newFrame method.home (.ofList [("this", this)])
  rw [Bindings.map_singleton] at hframe
  exact .bind hframe fun g => .pure _

theorem newObject (c : ClassValue FrameId) :
    Unlines Value.unlined (Run.newObject c) (Run.newObject c.unlined) := by
  refine .get fun m => ?_
  rw [show (unlining.state m).fields.size = m.fields.size by simp [unlining, Machine.unlined]]
  refine .bind (.modify fun m => ?_) fun _ => .pure _
  simp [unlining, Machine.unlined]

theorem setField (i : ObjectId) (x : String) (v : Value FrameId) :
    Unlines id (Run.setField i x v) (Run.setField i x v.unlined) := by
  refine .modify fun m => ?_
  simp only [unlining, Machine.unlined]
  congr 1
  apply Array.ext_getElem?
  intro j
  simp only [Array.getElem?_modify, Array.getElem?_map]
  split <;> cases m.fields[j]? <;> simp [Bindings.map_put]

theorem readClock : Unlines Value.unlined Run.readClock Run.readClock :=
  .get fun m => .bind (.modify fun _ => rfl) fun _ => .pure (Value.number (m.clock m.readings))

theorem untilLeft {x y : Stmt → Run (Completion FrameId)}
    (h : ∀ s, Unlines Completion.unlined (x s) (y s.unlined)) (ss : List Stmt) :
    Unlines Completion.unlined (Run.untilLeft x ss) (Run.untilLeft y (Stmt.unlinedAll ss)) := by
  induction ss with
  | nil => exact .pure _
  | cons s ss ih =>
    refine .bind (h s) fun c => ?_
    cases c with
    | normal => exact ih
    | leave => exact .pure _
    | giveBack v => exact .pure _

theorem repeatWhile {t t' : Run (Value FrameId)} {b b' : Run (Completion FrameId)}
    (ht : Unlines Value.unlined t t') (hb : Unlines Completion.unlined b b') (turns : Nat) :
    Unlines Completion.unlined (Run.repeatWhile t b turns) (Run.repeatWhile t' b' turns) := by
  induction turns with
  | zero => exact .throw _
  | succ turns ih =>
    refine .bind ht fun v => .ite (by rw [Value.truthy_unlined]) (.bind hb fun c => ?_) (.pure _)
    cases c with
    | normal => exact ih
    | leave => exact .pure _
    | giveBack v => exact .pure _

end Unlines

/-! ## The evaluator -/

namespace Machine

theorem unlines_callResult (room : Nat) (f : Closure FrameId) (c : Completion FrameId) :
    Unlines Value.unlined (callResult room f c) (callResult room f.unlined c.unlined) := by
  unfold callResult
  rw [Closure.unlined_isInitializer]
  cases f.isInitializer with
  | true =>
    refine .bind (Unlines.need _ _) fun _ => .get fun m => ?_
    rw [Closure.unlined_home, show (unlining.state m).frames.getAt f.home 0 "this" =
      (m.frames.getAt f.home 0 "this").map Value.unlined from Store.getAt_map ..]
    cases m.frames.getAt f.home 0 "this" with
    | ok v => exact .pure v
    | error e => exact .throw _
  | false => cases c <;> exact .pure _

theorem map_methodTable (home : FrameId) (ms : List FunDecl) :
    (methodTable home ms).map Closure.unlined = methodTable home (FunDecl.unlinedAll ms) := by
  unfold methodTable
  rw [Bindings.map_ofList, FunDecl.unlinedAll_eq_map, List.map_map, List.map_map]
  congr 1
  apply List.map_congr_left
  intro d _
  simp [Closure.unlined]

theorem unlines_superclass? (room : Nat) (r : Option Reference) :
    Unlines (Option.map ClassValue.unlined) (superclass? room r)
      (superclass? room (r.map Reference.unlined)) := by
  cases r with
  | none => exact .pure none
  | some r =>
    refine .bind (Unlines.need _ _) fun _ => .bind (Unlines.readReference r) fun v => ?_
    cases v with
    | classValue c => exact .pure (some c)
    | _ => exact Unlines.fail r.name _ _

theorem unlines_declareClass (room : Nat) (n : Token) (s : Option Reference)
    (ms : List FunDecl) :
    Unlines id (declareClass room n s ms)
      (declareClass room n.unlined (s.map Reference.unlined) (FunDecl.unlinedAll ms)) := by
  refine .bind (unlines_superclass? room s) fun parent => .bind (Unlines.need _ _) fun _ =>
    .bind (Unlines.define n.lexeme .nil) fun _ => .get fun m => ?_
  have hempty : (FunDecl.unlinedAll ms).isEmpty = ms.isEmpty := by cases ms <;> rfl
  have hmake (frame : FrameId) : Unlines id
      (do
        Run.need (if ms.isEmpty then Spare.make else 1 + Spare.make) room
        let number := (← get).classCount
        modify fun m => { m with classCount := m.classCount + 1 }
        let head : ClassHead FrameId := ⟨number, n.lexeme, methodTable frame ms⟩
        Run.assignFrom m.current n (.classValue (.of head parent)))
      (do
        Run.need (if (FunDecl.unlinedAll ms).isEmpty then Spare.make else 1 + Spare.make) room
        let number := (← get).classCount
        modify fun m => { m with classCount := m.classCount + 1 }
        let head : ClassHead FrameId :=
          ⟨number, n.lexeme, methodTable frame (FunDecl.unlinedAll ms)⟩
        Run.assignFrom m.current n.unlined
          (.classValue (.of head (parent.map ClassValue.unlined)))) := by
    rw [hempty]
    refine .bind (Unlines.need _ _) fun _ => .get fun m' => .bind (.modify fun _ => rfl) fun _ => ?_
    have hassign := Unlines.assignFrom m.current n
      (.classValue (.of ⟨m'.classCount, n.lexeme, methodTable frame ms⟩ parent))
    rw [Value.unlined, ClassValue.unlined_of, ClassHead.unlined, map_methodTable] at hassign
    exact hassign
  cases parent with
  | none => exact .bind (.pure m.current) hmake
  | some c =>
    have hframe := Unlines.newFrame m.current (.ofList [("super", .classValue c)])
    rw [Bindings.map_singleton] at hframe
    exact .bind (Unlines.need _ _) fun _ => .bind hframe hmake

theorem unlines_property (room : Nat) (i : ObjectId) (c : ClassValue FrameId) (n : Token) :
    Unlines Value.unlined (property room i c n) (property room i c.unlined n.unlined) := by
  refine .get fun m => ?_
  have hfield : ((unlining.state m).fields[i]?.getD .empty).get? n.lexeme =
      ((m.fields[i]?.getD .empty).get? n.lexeme).map Value.unlined := by
    simp only [unlining, Machine.unlined, Array.getElem?_map]
    cases m.fields[i]? <;> simp
  rw [Token.unlined_lexeme, hfield]
  cases (m.fields[i]?.getD .empty).get? n.lexeme with
  | some v => exact .bind (Unlines.need _ _) fun _ => .pure v
  | none =>
    refine .bind (Unlines.need _ _) fun _ => ?_
    rw [ClassValue.unlined_method?]
    cases c.method? n.lexeme with
    | some f => exact .bind (Unlines.bindMethod f (.object i c)) fun g => .pure (Value.function g)
    | none => exact Unlines.fail n _ _

theorem unlines_superMethod (room : Nat) (r : Reference) (m : Token) :
    Unlines Value.unlined (superMethod room r m) (superMethod room r.unlined m.unlined) := by
  refine .bind (Unlines.need _ _) fun _ => ?_
  rw [Reference.unlined_hops]
  cases r.hops with
  | none => exact .throw _
  | some hops =>
    refine .bind (Unlines.readAt _ _) fun parent => .bind (Unlines.readAt _ _) fun this => ?_
    cases parent with
    | classValue c =>
      simp only [Value.unlined, Token.unlined_lexeme, ClassValue.unlined_method?]
      cases c.method? m.lexeme with
      | some f => exact .bind (Unlines.bindMethod f this) fun g => .pure (Value.function g)
      | none => exact Unlines.fail m _ _
    | _ => exact .throw _

/-- **The functions of the evaluator do not look at lines**, with so much room. -/
structure UnlinesAt (turns room : Nat) : Prop where
  eval : ∀ e, Unlines Value.unlined (Machine.eval turns room e) (Machine.eval turns room e.unlined)
  evalAll : ∀ es, Unlines (List.map Value.unlined) (Machine.evalAll turns room es)
    (Machine.evalAll turns room (Expr.unlinedAll es))
  call : ∀ v vs, Unlines Value.unlined (Machine.call turns room v vs)
    (Machine.call turns room v.unlined (vs.map Value.unlined))
  construct : ∀ c vs, Unlines Value.unlined (Machine.construct turns room c vs)
    (Machine.construct turns room c.unlined (vs.map Value.unlined))
  invoke : ∀ f vs, Unlines Value.unlined (Machine.invoke turns room f vs)
    (Machine.invoke turns room f.unlined (vs.map Value.unlined))
  execAll : ∀ ss, Unlines Completion.unlined (Machine.execAll turns room ss)
    (Machine.execAll turns room (Stmt.unlinedAll ss))
  exec : ∀ s, Unlines Completion.unlined (Machine.exec turns room s)
    (Machine.exec turns room s.unlined)

variable {turns room : Nat}

theorem UnlinesAt.eval_succ (h : UnlinesAt turns room) (e : Expr) :
    Unlines Value.unlined (Machine.eval turns (room + 1) e)
      (Machine.eval turns (room + 1) e.unlined) := by
  cases e with
  | literal v =>
    intro m
    show EStateM.Result.ok (.ofLiteral v) _ = .ok (Value.unlined (.ofLiteral v)) _
    rw [Value.unlined_ofLiteral]
  | group e => exact h.eval e
  | name r | self r => exact .bind (Unlines.need _ _) fun _ => Unlines.readReference r
  | assign r e =>
    exact .bind (h.eval e) fun v => .bind (Unlines.need _ _) fun _ =>
      .bind (Unlines.writeReference r v) fun _ => .pure v
  | unary op e =>
    exact .bind (h.eval e) fun v => .bind (Unlines.need _ _) fun _ =>
      Unlines.ofExcept (Operator.unary_unlined op v)
  | binary l op r =>
    refine .bind (h.eval l) fun a => .bind (h.eval r) fun b => ?_
    rw [Spare.binary_unlined]
    exact .bind (Unlines.need _ _) fun _ => Unlines.ofExcept (Operator.binary_unlined op a b)
  | logical l op r =>
    refine .bind (h.eval l) fun a => .bind (Unlines.need _ _) fun _ => .ite ?_ (.pure a) (h.eval r)
    rw [Operator.decides_unlined]
  | conditional t y n =>
    refine .bind (h.eval t) fun v => .bind (Unlines.need _ _) fun _ => .ite ?_ (h.eval y) (h.eval n)
    rw [Value.truthy_unlined]
  | call f paren args =>
    refine .bind (h.eval f) fun callee => .bind (h.evalAll args) fun values =>
      .bind (Unlines.need _ _) fun _ => ?_
    rw [Value.arity?_unlined]
    cases arity? callee with
    | none => exact Unlines.fail paren _ _
    | some n =>
      dsimp only
      rw [List.length_map]
      exact .ite Iff.rfl (Unlines.fail paren _ _)
        (.bind (.modify fun _ => rfl) fun _ => h.call callee values)
  | get o p =>
    refine .bind (h.eval o) fun v => ?_
    cases v with
    | object i c => exact unlines_property room i c p
    | _ => exact Unlines.fail p _ _
  | set o p e =>
    refine .bind (h.eval o) fun v => ?_
    cases v with
    | object i c =>
      exact .bind (h.eval e) fun v => .bind (Unlines.need _ _) fun _ =>
        .bind (Unlines.setField i p.lexeme v) fun _ => .pure v
    | _ => exact Unlines.fail p _ _
  | super r m => exact unlines_superMethod room r m

theorem UnlinesAt.evalAll_succ (h : UnlinesAt turns room) (es : List Expr) :
    Unlines (List.map Value.unlined) (Machine.evalAll turns (room + 1) es)
      (Machine.evalAll turns (room + 1) (Expr.unlinedAll es)) := by
  rw [Expr.unlinedAll_eq_map]
  exact .mapM h.eval es

theorem UnlinesAt.call_succ (h : UnlinesAt turns room) (v : Value FrameId)
    (vs : List (Value FrameId)) :
    Unlines Value.unlined (Machine.call turns (room + 1) v vs)
      (Machine.call turns (room + 1) v.unlined (vs.map Value.unlined)) := by
  cases v with
  | function f => exact h.invoke f vs
  | native f =>
    cases f
    exact .bind (Unlines.need _ _) fun _ => Unlines.readClock
  | classValue c => exact h.construct c vs
  | _ => exact .pure Value.nil

theorem UnlinesAt.construct_succ (h : UnlinesAt turns room) (c : ClassValue FrameId)
    (vs : List (Value FrameId)) :
    Unlines Value.unlined (Machine.construct turns (room + 1) c vs)
      (Machine.construct turns (room + 1) c.unlined (vs.map Value.unlined)) := by
  refine .bind (Unlines.need _ _) fun _ => .bind (Unlines.newObject c) fun object => ?_
  rw [ClassValue.unlined_initializer?]
  cases c.initializer? with
  | none => exact .pure object
  | some f =>
    exact .bind (Unlines.need _ _) fun _ => .bind (Unlines.bindMethod f object) fun g =>
      .bind (h.invoke g vs) fun _ => .pure object

theorem UnlinesAt.invoke_succ (h : UnlinesAt turns room) (f : Closure FrameId)
    (vs : List (Value FrameId)) :
    Unlines Value.unlined (Machine.invoke turns (room + 1) f vs)
      (Machine.invoke turns (room + 1) f.unlined (vs.map Value.unlined)) := by
  have hframe := Unlines.newFrame f.home (.ofList ((f.decl.params.map (·.lexeme)).zip vs))
  have hparams : (f.unlined.decl.params.map (·.lexeme)).zip (vs.map Value.unlined) =
      ((f.decl.params.map (·.lexeme)).zip vs).map fun e => (e.1, e.2.unlined) := by
    rw [Closure.unlined_decl, FunDecl.unlined_params, List.map_map, List.zip_map_right]
    rfl
  rw [Bindings.map_ofList, ← hparams] at hframe
  refine .bind (Unlines.need _ _) fun _ => .bind hframe fun frame => .bind ?_ fun c =>
    unlines_callResult room f c
  rw [Closure.unlined_decl, FunDecl.unlined_body]
  exact Unlines.inFrame frame (h.execAll f.decl.body)

theorem UnlinesAt.exec_succ (h : UnlinesAt turns room) (s : Stmt) :
    Unlines Completion.unlined (Machine.exec turns (room + 1) s)
      (Machine.exec turns (room + 1) s.unlined) := by
  cases s with
  | expression e => exact .bind (h.eval e) fun _ => .pure _
  | print e =>
    refine .bind (h.eval e) fun v => ?_
    rw [Spare.words_unlined, Value.render_unlined]
    exact .bind (Unlines.need _ _) fun _ => .bind (.modify fun _ => rfl) fun _ => .pure _
  | var n e =>
    cases e with
    | none =>
      exact .bind (Unlines.need _ _) fun _ => .bind (Unlines.define n.lexeme .nil) fun _ => .pure _
    | some e =>
      exact .bind (h.eval e) fun v => .bind (Unlines.need _ _) fun _ =>
        .bind (Unlines.define n.lexeme v) fun _ => .pure _
  | block body =>
    exact .bind (Unlines.need _ _) fun _ => .get fun m => .bind (Unlines.newFrame m.current .empty)
      fun frame => Unlines.inFrame frame (h.execAll body)
  | branch t y n =>
    rw [Stmt.unlined_branch]
    refine .bind (h.eval t) fun v => .bind (Unlines.need _ _) fun _ => .ite ?_ (h.exec y) ?_
    · rw [Value.truthy_unlined]
    · cases n with
      | none => exact .pure _
      | some n => exact h.exec n
  | loop t body =>
    exact Unlines.repeatWhile (.bind (h.eval t) fun v => .bind (Unlines.need _ _) fun _ => .pure v)
      (h.exec body) turns
  | leave k => exact .pure _
  | giveBack k e =>
    cases e with
    | none => exact .bind (Unlines.need _ _) fun _ => .pure (Completion.giveBack .nil)
    | some e =>
      exact .bind (h.eval e) fun v => .bind (Unlines.need _ _) fun _ =>
        .pure (Completion.giveBack v)
  | function d =>
    refine .bind (Unlines.need _ _) fun _ => .get fun m => ?_
    rw [FunDecl.unlined_name]
    exact .bind (Unlines.define d.name.lexeme (.function ⟨d, m.current, false⟩)) fun _ => .pure _
  | classDecl n s ms =>
    exact .bind (Unlines.need _ _) fun _ => .bind (unlines_declareClass (room - 1) n s ms)
      fun _ => .pure _

/-- **No step of the evaluator looks at lines.** -/
theorem unlinesAt (turns room : Nat) : UnlinesAt turns room := by
  induction room with
  | zero =>
    exact ⟨fun _ => .throw _, fun _ => .throw _, fun _ _ => .throw _, fun _ _ => .throw _,
      fun _ _ => .throw _, fun _ => .throw _, fun _ => .throw _⟩
  | succ room h =>
    exact ⟨h.eval_succ, h.evalAll_succ, h.call_succ, h.construct_succ, h.invoke_succ,
      fun ss => Unlines.untilLeft h.exec ss, h.exec_succ⟩

/-- **A program without its lines runs as the program does.** -/
theorem unlines_runAll (turns room : Nat) (p : Program) :
    Unlines id (runAll (exec turns room) p) (runAll (exec turns room) (Stmt.unlinedAll p)) := by
  induction p with
  | nil => exact .pure ()
  | cons s rest ih =>
    refine .bind ((unlinesAt turns room).exec s) fun c => ?_
    cases c with
    | giveBack v => exact .pure ()
    | _ => exact ih

end Machine
end LoxKit
