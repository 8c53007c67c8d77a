import LoxKit.Proofs.Machine.Control
import LoxKit.Proofs.Machine.Exits
import LoxKit.Proofs.Machine.Holds

/-!
# Runs are under control

The control can follow the signals of every run (`Machine.controlledAt`), if the statements fit
in what is active (`Stmt.FitsIn`) and no `break` leaves a function of the machine.  On the way
out of a loop or a call nothing fails, so a run that fails does so while it goes on.
-/
namespace LoxKit

/-- **A step under control**, from a state of the control, on a machine whose functions are
enclosed.  The control follows its signals, to a state of which is said what the step yields
there, and to no way out if the step fails. -/
def Controlled {α : Type} (k : Control) (x : Tracing α) (Q : α → Control → Prop) : Prop :=
  ∀ n, n.machine.Holds FunDecl.Enclosed →
    match x n with
    | .ok a n' => n'.machine.Holds FunDecl.Enclosed ∧
      ∃ es k', n'.notes = n.notes ++ es ∧ k.Follows es k' ∧ Q a k'
    | .error _ n' => n'.machine.Holds FunDecl.Enclosed ∧
      ∃ es st, n'.notes = n.notes ++ es ∧ k.Follows es ⟨st, .going⟩

/-- **A step that goes on** where it began, and yields what is said. -/
def Goes {α : Type} (st : List Active) (x : Tracing α) (Q : α → Prop) : Prop :=
  Controlled ⟨st, .going⟩ x fun a k => k = ⟨st, .going⟩ ∧ Q a

namespace Controlled

open Noting

variable {α β : Type} {k k' : Control} {st : List Active} {Q : α → Control → Prop}

theorem pure {a : α} (h : Q a k) : Controlled k (Pure.pure a) Q :=
  fun _ hn => ⟨hn, [], k, (List.append_nil _).symm, .nil k, h⟩

theorem throw (e : Failure) : Controlled ⟨st, .going⟩ (MonadExcept.throw e) Q :=
  fun _ hn => ⟨hn, [], st, (List.append_nil _).symm, .nil _⟩

theorem bind {x : Tracing α} {f : α → Tracing β} {R : β → Control → Prop}
    (hx : Controlled k x Q) (hf : ∀ a k', Q a k' → Controlled k' (f a) R) :
    Controlled k (x >>= f) R := by
  intro n hn
  have h := hx n hn
  simp only [Bind.bind, EStateM.bind]
  cases hxn : x n with
  | error e n' =>
    rw [hxn] at h
    exact h
  | ok a n' =>
    rw [hxn] at h
    obtain ⟨hm, es, k', hnotes, hfollows, ha⟩ := h
    have h' := hf a k' ha n' hm
    dsimp only
    cases hfa : f a n' with
    | ok b n'' =>
      rw [hfa] at h'
      obtain ⟨hm', es', k'', hnotes', hfollows', hb⟩ := h'
      exact ⟨hm', es ++ es', k'', by rw [hnotes', hnotes, List.append_assoc],
        hfollows.append hfollows', hb⟩
    | error e n'' =>
      rw [hfa] at h'
      obtain ⟨hm', es', st, hnotes', hfollows'⟩ := h'
      exact ⟨hm', es ++ es', st, by rw [hnotes', hnotes, List.append_assoc],
        hfollows.append hfollows'⟩

/-- A signal that the control expects. -/
theorem note {e : Signal} {x : Unit → Tracing α} (hnext : k.Next e k')
    (hx : Controlled k' (x ()) Q) : Controlled k (Noting.note e >>= x) Q := by
  have hnote : Controlled k (Noting.note e) fun _ k => k = k' := fun n hn =>
    ⟨hn, [e], k', rfl, .cons hnext (.nil k'), rfl⟩
  exact hnote.bind fun _ _ hk => by rw [hk]; exact hx

/-- Looking at the machine. -/
theorem get {f : Noted Signal → Tracing α} (h : ∀ n, Controlled k (f n) Q) :
    Controlled k (MonadState.get >>= f) Q := fun n hn => h n n hn

theorem inFrame {x : Tracing α} (f : FrameId) (h : Controlled k x Q) :
    Controlled k (Noting.inFrame f x) Q := by
  intro n hn
  have hx := h { n with machine := { n.machine with current := f } } (hn.of_eq rfl rfl)
  unfold Noting.inFrame
  dsimp only
  cases hxn : x { n with machine := { n.machine with current := f } } with
  | ok a n' =>
    rw [hxn] at hx
    exact ⟨hx.1.of_eq rfl rfl, hx.2⟩
  | error e n' =>
    rw [hxn] at hx
    exact ⟨hx.1.of_eq rfl rfl, hx.2⟩

theorem ite {P : Prop} [Decidable P] {x x' : Tracing α} (h : P → Controlled k x Q)
    (h' : ¬P → Controlled k x' Q) : Controlled k (if P then x else x') Q := by
  split
  · exact h ‹_›
  · exact h' ‹_›

end Controlled

namespace Goes

variable {α β : Type} {st : List Active} {Q : α → Prop}

/-- A step without signals. -/
theorem lift {x : Run α} (h : Holding FunDecl.Enclosed x Q) : Goes st (Noting.lift x) Q := by
  intro n hn
  have hx := h n.machine hn
  unfold Noting.lift
  cases hxn : x n.machine with
  | ok a m =>
    rw [hxn] at hx
    exact ⟨hx.1, [], _, (List.append_nil _).symm, .nil _, rfl, hx.2⟩
  | error e m =>
    rw [hxn] at hx
    exact ⟨hx, [], st, (List.append_nil _).symm, .nil _⟩

theorem pure {a : α} (h : Q a) : Goes st (Pure.pure a) Q := Controlled.pure ⟨rfl, h⟩

theorem bind {x : Tracing α} {f : α → Tracing β} {R : β → Control → Prop} (hx : Goes st x Q)
    (hf : ∀ a, Q a → Controlled ⟨st, .going⟩ (f a) R) : Controlled ⟨st, .going⟩ (x >>= f) R :=
  Controlled.bind hx fun a _ ⟨hk, ha⟩ => by rw [hk]; exact hf a ha

/-- A step is taken only if there is so much spare room. -/
theorem need {spare room : Nat} {x : Unit → Tracing α} {R : α → Control → Prop}
    (hx : Controlled ⟨st, .going⟩ (x ()) R) :
    Controlled ⟨st, .going⟩ (Noting.lift (Run.need spare room) >>= x) R :=
  (lift (Holding.need spare room)).bind fun _ _ => hx

theorem mapM {γ : Type} {f : γ → Tracing α} (h : ∀ c, Goes st (f c) Q) (cs : List γ) :
    Goes st (cs.mapM f) fun as => ∀ a ∈ as, Q a := by
  induction cs with
  | nil =>
    rw [List.mapM_nil]
    exact pure nofun
  | cons c cs ih =>
    rw [List.mapM_cons]
    refine (h c).bind fun a ha => ih.bind fun as has => pure fun b hb => ?_
    rcases List.mem_cons.mp hb with rfl | hb
    · exact ha
    · exact has b hb

end Goes

/-! ## Statements in their places -/

/-- **A way out is caught** by what is active: a `break` by the innermost loop, if no call has
begun in it, a `return` by the innermost call. -/
def Exit.Caught (st : List Active) : Exit → Prop
  | .leave => st.head? = some .loop
  | .giveBack => ∃ f, .call f ∈ st

/-- Outside all loops and calls nothing is caught. -/
theorem Exit.not_caught_nil {x : Exit} : ¬x.Caught [] := by
  cases x with
  | leave => exact nofun
  | giveBack =>
    rintro ⟨f, hf⟩
    cases hf

/-- **A statement fits** in what is active. -/
structure Stmt.FitsIn (st : List Active) (s : Stmt) : Prop where
  enclosed : s.Enclosed
  caught : ∀ x, s.Exits x → x.Caught st

namespace Stmt.FitsIn

variable {st : List Active}

/-- The body of a loop fits in the loop. -/
theorem loop {t : Expr} {body : Stmt} (h : (Stmt.loop t body).FitsIn st) :
    body.FitsIn (.loop :: st) := by
  refine ⟨h.enclosed, fun x hx => ?_⟩
  cases x with
  | leave => rfl
  | giveBack =>
    obtain ⟨f, hf⟩ := h.caught .giveBack ⟨nofun, hx⟩
    exact ⟨f, List.mem_cons_of_mem _ hf⟩

/-- The statements of a block fit where the block does. -/
theorem block {body : List Stmt} (h : (Stmt.block body).FitsIn st) :
    ∀ s ∈ body, s.FitsIn st := fun s hs =>
  ⟨Stmt.allEnclosed_iff.mp h.enclosed s hs,
    fun x hx => h.caught x (Stmt.anyExits_iff.mpr ⟨s, hs, hx⟩)⟩

/-- The body of an enclosed function fits in a call of it. -/
theorem call {f : FunDecl} (h : f.Enclosed) : ∀ s ∈ f.body, s.FitsIn (.call f :: st) := by
  intro s hs
  obtain ⟨hleave, hall⟩ := f.enclosed_iff.mp h
  refine ⟨Stmt.allEnclosed_iff.mp hall s hs, fun x hx => ?_⟩
  cases x with
  | leave => exact absurd (Stmt.anyExits_iff.mpr ⟨s, hs, hx⟩) hleave
  | giveBack => exact ⟨f, List.mem_cons_self⟩

end Stmt.FitsIn

/-- **How a statement ends** that fits in what is active: the run is about to do what the
completion says, and that is caught. -/
structure Ends (st : List Active) (c : Completion FrameId) (k : Control) : Prop where
  control : k = ⟨st, c.phase⟩
  value : ∀ v, c = .giveBack v → v.All FunDecl.Enclosed
  caught : ∀ x, c.exit? = some x → x.Caught st

namespace Controlled

variable {st : List Active}

/-- A statement that ends normally. -/
theorem normal : Controlled ⟨st, .going⟩ (Pure.pure .normal) (Ends st) :=
  pure ⟨rfl, nofun, nofun⟩

/-- **Statements one after the other** end where one of them ends early. -/
theorem untilLeft {exec : Stmt → Tracing (Completion FrameId)} {ss : List Stmt}
    (h : ∀ s ∈ ss, Controlled ⟨st, .going⟩ (exec s) (Ends st)) :
    Controlled ⟨st, .going⟩ (Run.untilLeft exec ss) (Ends st) := by
  induction ss with
  | nil => exact normal
  | cons s ss ih =>
    refine (h s List.mem_cons_self).bind fun c k hc => ?_
    cases c with
    | normal =>
      rw [hc.control]
      exact ih fun s hs => h s (List.mem_cons_of_mem _ hs)
    | leave | giveBack v => exact pure hc

/-- **A loop** ends by its test, by a `break` of its body, or by a `return` that passes it. -/
theorem repeatWhile {test : Tracing (Value FrameId)} {body : Tracing (Completion FrameId)}
    (htest : Controlled ⟨.loop :: st, .going⟩ test fun v k =>
      k = ⟨.loop :: st, if v.truthy then .going else .over⟩)
    (hbody : Controlled ⟨.loop :: st, .going⟩ body (Ends (.loop :: st))) (turns : Nat) :
    Controlled ⟨.loop :: st, .going⟩ (Run.repeatWhile test body turns) fun c k =>
      k.Next (.loopEnded c) ⟨st, c.phase⟩ ∧ Ends st c ⟨st, c.phase⟩ := by
  -- each turn begins where the loop did, so the induction on the turns needs no invariant
  induction turns with
  | zero => exact throw _
  | succ turns ih =>
    refine htest.bind fun v k hk => ite (fun hv => ?_) fun hv => ?_
    · rw [hk, if_pos hv]
      refine hbody.bind fun c k hc => ?_
      cases c with
      | normal =>
        rw [hc.control]
        exact ih
      | leave =>
        rw [hc.control]
        exact pure ⟨.loopLeft, rfl, nofun, nofun⟩
      | giveBack v =>
        -- the call that catches the `return` is outside the loop
        rw [hc.control]
        refine pure ⟨.loopPassed v, rfl, hc.value, ?_⟩
        rintro _ ⟨⟩
        obtain ⟨f, hf⟩ := hc.caught .giveBack rfl
        exact ⟨f, by simpa using hf⟩
    · rw [hk, if_neg hv]
      exact pure ⟨.loopOver, rfl, nofun, nofun⟩

end Controlled

/-! ## The evaluator -/

namespace Machine

/-- **Runs are under control** in the given room. -/
structure ControlledAt (turns room : Nat) : Prop where
  eval : ∀ st e, Goes st (traceEval turns room e) (Value.All FunDecl.Enclosed)
  evalAll : ∀ st es, Goes st (traceEvalAll turns room es)
    fun vs => ∀ v ∈ vs, v.All FunDecl.Enclosed
  call : ∀ st v vs, v.All FunDecl.Enclosed → (∀ v ∈ vs, v.All FunDecl.Enclosed) →
    Goes st (traceCall turns room v vs) (Value.All FunDecl.Enclosed)
  construct : ∀ st c vs, c.All (fun f => f.decl.Enclosed) → (∀ v ∈ vs, v.All FunDecl.Enclosed) →
    Goes st (traceConstruct turns room c vs) (Value.All FunDecl.Enclosed)
  invoke : ∀ st f vs, f.decl.Enclosed → (∀ v ∈ vs, v.All FunDecl.Enclosed) →
    Goes st (traceInvoke turns room f vs) (Value.All FunDecl.Enclosed)
  execAll : ∀ st ss, (∀ s ∈ ss, s.FitsIn st) →
    Controlled ⟨st, .going⟩ (traceExecAll turns room ss) (Ends st)
  exec : ∀ st s, s.FitsIn st → Controlled ⟨st, .going⟩ (traceExec turns room s) (Ends st)

namespace ControlledAt

variable {turns room : Nat}

theorem eval_succ (h : ControlledAt turns room) (st : List Active) (e : Expr) :
    Goes st (traceEval turns (room + 1) e) (Value.All FunDecl.Enclosed) := by
  refine Controlled.note (.evaluated e) ?_
  cases e with
  | literal v => exact Goes.pure (Value.all_ofLiteral v)
  | group e => exact h.eval st e
  | name r | self r => exact Goes.need (Goes.lift (.readReference r))
  | assign r e =>
    exact (h.eval st e).bind fun v hv =>
      Goes.need ((Goes.lift (.writeReference r hv)).bind fun _ _ => Goes.pure hv)
  | unary op e =>
    exact (h.eval st e).bind fun v _ =>
      Goes.need (Goes.lift (.ofExcept fun a ha => (Operator.unary_plain ha).all))
  | binary l op r =>
    refine (h.eval st l).bind fun a _ => (h.eval st r).bind fun b hb =>
      Goes.need (Goes.lift (.ofExcept fun c hc => ?_))
    rcases Operator.binary_plain hc with rfl | hplain
    · exact hb
    · exact hplain.all
  | logical l op r =>
    exact (h.eval st l).bind fun a ha =>
      Goes.need (.ite (fun _ => Goes.pure ha) fun _ => h.eval st r)
  | conditional t y n =>
    exact (h.eval st t).bind fun v _ =>
      Goes.need (.ite (fun _ => h.eval st y) fun _ => h.eval st n)
  | call f paren args =>
    refine (h.eval st f).bind fun callee hcallee => (h.evalAll st args).bind fun values hvalues =>
      Goes.need ?_
    cases arity? callee with
    | none => exact Goes.lift (.fail _ _)
    | some n =>
      refine .ite (fun _ => Goes.lift (.fail _ _)) fun _ => ?_
      exact (Goes.lift (.modify (g := ({ · with line := paren.line })) fun _ hm =>
        hm.of_eq rfl rfl)).bind fun _ _ => h.call st callee values hcallee hvalues
  | get o p =>
    refine (h.eval st o).bind fun v hv => ?_
    cases v with
    | object id c => exact Goes.lift (.property room id p hv)
    | _ => exact Goes.lift (.fail _ _)
  | set o p e =>
    refine (h.eval st o).bind fun v _ => ?_
    cases v with
    | object id c =>
      exact (h.eval st e).bind fun v hv =>
        Goes.need ((Goes.lift (.setField id _ hv)).bind fun _ _ => Goes.pure hv)
    | _ => exact Goes.lift (.fail _ _)
  | super r m => exact Goes.lift (.superMethod room r m)

theorem call_succ (h : ControlledAt turns room) (st : List Active) (v : Value FrameId)
    (vs : List (Value FrameId)) (hv : v.All FunDecl.Enclosed)
    (hvs : ∀ v ∈ vs, v.All FunDecl.Enclosed) :
    Goes st (traceCall turns (room + 1) v vs) (Value.All FunDecl.Enclosed) := by
  cases v with
  | function f => exact h.invoke st f vs hv hvs
  | native f =>
    cases f
    exact Goes.need (Goes.lift .readClock)
  | classValue c => exact h.construct st c vs hv hvs
  | _ => exact Goes.pure trivial

theorem construct_succ (h : ControlledAt turns room) (st : List Active) (c : ClassValue FrameId)
    (vs : List (Value FrameId)) (hc : c.All fun f => f.decl.Enclosed)
    (hvs : ∀ v ∈ vs, v.All FunDecl.Enclosed) :
    Goes st (traceConstruct turns (room + 1) c vs) (Value.All FunDecl.Enclosed) := by
  refine Goes.need ((Goes.lift (.newObject hc)).bind fun object hobject => ?_)
  cases hinit : c.initializer? with
  | none => exact Goes.pure hobject
  | some f =>
    exact Goes.need ((Goes.lift (.bindMethod (hc.method? hinit) hobject)).bind fun f hf =>
      (h.invoke st f vs hf hvs).bind fun _ _ => Goes.pure hobject)

/-- **A call** of an enclosed function: the body ends by no `break`. -/
theorem invoke_succ (h : ControlledAt turns room) (st : List Active) (f : Closure FrameId)
    (vs : List (Value FrameId)) (hf : f.decl.Enclosed) (hvs : ∀ v ∈ vs, v.All FunDecl.Enclosed) :
    Goes st (traceInvoke turns (room + 1) f vs) (Value.All FunDecl.Enclosed) := by
  refine Goes.need ((Goes.lift (.newFrame f.home fun x v hv => ?_)).bind fun frame _ => ?_)
  · exact hvs v (List.of_mem_zip (Bindings.mem_of_get?_ofList hv)).2
  refine .note (.callBegun f.decl) ((Controlled.inFrame frame
    (h.execAll _ f.decl.body (Stmt.FitsIn.call hf))).bind fun c k hc => ?_)
  -- with the call on top of what is active, nothing catches a `break`
  have hnext : Control.Next ⟨.call f.decl :: st, c.phase⟩ (.callEnded f.decl c) ⟨st, .going⟩ := by
    cases c with
    | normal => exact .callOver f.decl
    | leave => exact absurd (hc.caught .leave rfl) nofun
    | giveBack v => exact .callLeft f.decl v
  rw [hc.control]
  exact .note hnext (Goes.lift (.callResult room f hc.value))

theorem exec_succ (h : ControlledAt turns room) (st : List Active) (s : Stmt)
    (hs : s.FitsIn st) :
    Controlled ⟨st, .going⟩ (traceExec turns (room + 1) s) (Ends st) := by
  refine .note (.executed s) ?_
  cases s with
  | expression e => exact (h.eval st e).bind fun _ _ => .normal
  | print e =>
    exact (h.eval st e).bind fun v _ => Goes.need
      ((Goes.lift (.modify (g := (·.write (v.render ++ "\n"))) fun _ hm =>
        hm.of_eq rfl rfl)).bind fun _ _ => .normal)
  | var n e =>
    cases e with
    | none =>
      exact Goes.need ((Goes.lift (.define n.lexeme (v := .nil) trivial)).bind fun _ _ => .normal)
    | some e =>
      exact (h.eval st e).bind fun v hv =>
        Goes.need ((Goes.lift (.define n.lexeme hv)).bind fun _ _ => .normal)
  | block body =>
    exact Goes.need (.get fun _ =>
      (Goes.lift (.newFrame _ fun x v hv => by cases hv)).bind fun frame _ =>
        .inFrame frame (h.execAll st body hs.block))
  | branch t y n =>
    refine (h.eval st t).bind fun v _ => Goes.need ?_
    cases n with
    | none => exact .ite (fun _ => h.exec st y ⟨hs.enclosed, hs.caught⟩) fun _ => .normal
    | some n =>
      exact .ite
        (fun _ => h.exec st y ⟨hs.enclosed.1, fun x hx => hs.caught x (.inl hx)⟩)
        fun _ => h.exec st n ⟨hs.enclosed.2, fun x hx => hs.caught x (.inr hx)⟩
  | loop t body =>
    refine .note .loopBegun ?_
    refine (Controlled.repeatWhile ?_ (h.exec _ body hs.loop) turns).bind fun c k hc =>
      .note hc.1 (.pure hc.2)
    exact (h.eval _ t).bind fun v _ => Goes.need (.note (.tested v) (.pure rfl))
  | leave k =>
    -- the `break` is caught, so a loop is on top
    obtain ⟨st', rfl⟩ : ∃ st', st = .loop :: st' := List.head?_eq_some_iff.mp (hs.caught .leave rfl)
    exact .note (.left k) (.pure ⟨rfl, nofun, fun x hx => by cases hx; rfl⟩)
  | giveBack k e =>
    have hcall := hs.caught .giveBack rfl
    have hends {v : Value FrameId} (hv : v.All FunDecl.Enclosed) :
        Ends st (.giveBack v) ⟨st, .givingBack v⟩ :=
      ⟨rfl, fun u hu => by cases hu; exact hv, fun x hx => by cases hx; exact hcall⟩
    cases e with
    | none => exact Goes.need (.note (.gaveBack k .nil hcall) (.pure (hends trivial)))
    | some e =>
      exact (h.eval st e).bind fun v hv =>
        Goes.need (.note (.gaveBack k v hcall) (.pure (hends hv)))
  | function d =>
    have hd (here : FrameId) : (Value.function ⟨d, here, false⟩).All FunDecl.Enclosed := hs.enclosed
    exact Goes.need (.get fun n => (Goes.lift (.define _ (hd _))).bind fun _ _ => .normal)
  | classDecl n s ms =>
    exact Goes.need ((Goes.lift (.declareClass _ n s (FunDecl.allEnclosed_iff.mp hs.enclosed))).bind
      fun _ _ => .normal)

end ControlledAt

theorem controlledAt (turns room : Nat) : ControlledAt turns room := by
  induction room with
  | zero =>
    exact ⟨fun _ _ => .throw _, fun _ _ => .throw _, fun _ _ _ _ _ => .throw _,
      fun _ _ _ _ _ => .throw _, fun _ _ _ _ _ => .throw _, fun _ _ _ => .throw _,
      fun _ _ _ => .throw _⟩
  | succ room h =>
    exact ⟨h.eval_succ, fun st es => .mapM (h.eval st) es, h.call_succ, h.construct_succ,
      h.invoke_succ, fun st ss hss => .untilLeft fun s hs => h.exec st s (hss s hs), h.exec_succ⟩

/-- **A run of statements that fit outside all loops and calls** is under control. -/
theorem controlled_traceRunAll (turns room : Nat) {p : List Stmt} (hp : ∀ s ∈ p, s.FitsIn []) :
    Goes [] (runAll (traceExec turns room) p) fun _ => True := by
  induction p with
  | nil => exact .pure trivial
  | cons s rest ih =>
    refine ((controlledAt turns room).exec [] s (hp s List.mem_cons_self)).bind fun c k hc => ?_
    cases c with
    | normal =>
      rw [hc.control]
      exact ih fun s hs => hp s (List.mem_cons_of_mem _ hs)
    | leave => exact absurd (hc.caught .leave rfl) Exit.not_caught_nil
    | giveBack v => exact absurd (hc.caught .giveBack rfl) Exit.not_caught_nil

end Machine
end LoxKit
