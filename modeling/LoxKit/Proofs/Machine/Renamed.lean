import LoxKit.Proofs.Machine.Abreast

/-!
# Runs do not look at local names

A program and the same program with local variables renamed are run by two machines.  They run
abreast (`AbreastAt.eval`, `AbreastAt.exec`), and so print the same and fail alike
(`abreast_runAll`).

The proof follows the two evaluators at once, by induction on their room: one lemma for each
function, from all of them with less room.  The scopes around a place are marked as the frames
outward from the current one; where a frame is opened for a block or a call, it is marked as the
scope is in the tree.
-/
namespace LoxKit

open Pair

variable {R : Renaming} {t : Pair} {marks : Marks} {turns room : Nat}

/-! ## What is called -/

theorem abreast_liftExcept {r r' : Operator.Result FrameId}
    (h : Operator.Alike (Value.Respelled R t.marking) r r') :
    Abreast R t (liftExcept r) (liftExcept r') fun v v' t' => v.Respelled R t'.marking v' := by
  cases h with
  | ok hv => exact .value hv
  | error e => exact .throw (.refl e)

/-- **A method bound to an object** runs in one scope more than there are around the method. -/
theorem abreast_bind {f f' : Closure FrameId} {this this' : Value FrameId}
    (hf : f.Respelled R t.marking (Marks.push false) f') (hthis : this.Respelled R t.marking this') :
    Abreast R t (Run.bind f this) (Run.bind f' this')
      fun g g' t' => g.Respelled R t'.marking id g' := by
  obtain ⟨hhome, hinit, outer, hat, hdecl⟩ := hf
  have hb : ∀ x, Option.Rel (Value.Respelled R t.marking)
      ((Bindings.ofList [("this", this)]).get? x)
      ((Bindings.ofList [("this", this')]).get? (R.spell false x)) :=
    Bindings.rel_ofList_spelled (R.spell_injective false) (.cons ⟨rfl, hthis⟩ .nil)
  unfold Run.bind
  rw [hhome]
  refine (Abreast.newFrame hat false hb).bind ?_
  rintro g _ t' - ⟨rfl, hg⟩
  exact .pure ⟨rfl, hinit, _, hg, hdecl⟩

/-- **A method that is looked up** and bound to an object. -/
theorem abreast_method {c c' : ClassValue FrameId} {this this' : Value FrameId}
    (hc : c.Respelled R t.marking c') (hthis : this.Respelled R t.marking this') (x : String)
    (place : Token) (e : RunError) :
    Abreast R t
      (match c.method? x with
        | some f => do return Value.function (← Run.bind f this)
        | none => Run.fail place e)
      (match c'.method? x with
        | some f => do return Value.function (← Run.bind f this')
        | none => Run.fail place e)
      fun v v' t' => v.Respelled R t'.marking v' := by
  have hmethod := hc.method? x
  generalize c.method? x = f at hmethod ⊢
  generalize c'.method? x = f' at hmethod ⊢
  cases hmethod with
  | none => exact .fail rfl _
  | some hf =>
    refine (abreast_bind hf hthis).bind ?_
    intro g g' t' _ hg
    exact .pure (.function hg)

/-- **The property of an object** is alike on both sides. -/
theorem abreast_property (id : ObjectId) {c c' : ClassValue FrameId}
    (hc : c.Respelled R t.marking c') (n : Token) :
    Abreast R t (Machine.property room id c n) (Machine.property room id c' n)
      fun v v' t' => v.Respelled R t'.marking v' := by
  refine Abreast.looking fun ht => ?_
  have hfield := ht.fields id n.lexeme
  generalize (t.left.fields[id]?.getD .empty).get? n.lexeme = v at hfield ⊢
  generalize (t.right.fields[id]?.getD .empty).get? n.lexeme = v' at hfield ⊢
  cases hfield with
  | some hv => exact .needing rfl (.pure hv)
  | none => exact .needing rfl (abreast_method hc (.object id hc) n.lexeme n _)

/-- **A method of the superclass** is alike on both sides. -/
theorem abreast_superMethod (r : Reference) (m : Token) :
    Abreast R t (Machine.superMethod room r m)
      (Machine.superMethod room (R.reference marks r) m)
      fun v v' t' => v.Respelled R t'.marking v' := by
  unfold Machine.superMethod
  rw [R.reference_hops]
  refine Abreast.needing rfl ?_
  cases r.hops with
  | none => exact .throw (.breach _ _)
  | some hops =>
    refine (Abreast.readAt fun _ g _ => (R.spell_super _).symm).bind ?_
    rintro parent parent' _ - ⟨rfl, hparent⟩
    refine (Abreast.readAt fun _ g _ => (R.spell_this _).symm).bind ?_
    rintro this this' _ - ⟨rfl, hthis⟩
    cases hparent with
    | classValue hc => exact abreast_method hc hthis m.lexeme m _
    | _ => exact .throw (.breach _ _)

/-! ## The pass -/

variable (R) in
/-- **Both evaluators run abreast**, with so much room. -/
structure AbreastAt (turns room : Nat) : Prop where
  eval : ∀ e marks t, t.marking.At t.left.current marks →
    Abreast R t (Machine.eval turns room e) (Machine.eval turns room (R.expr marks e))
      fun v v' t' => v.Respelled R t'.marking v'
  evalAll : ∀ es marks t, t.marking.At t.left.current marks →
    Abreast R t (Machine.evalAll turns room es) (Machine.evalAll turns room (R.exprs marks es))
      fun vs vs' t' => List.Forall₂ (Value.Respelled R t'.marking) vs vs'
  call : ∀ f f' vs vs' t, f.Respelled R t.marking f' →
    List.Forall₂ (Value.Respelled R t.marking) vs vs' →
    Abreast R t (Machine.call turns room f vs) (Machine.call turns room f' vs')
      fun v v' t' => v.Respelled R t'.marking v'
  construct : ∀ c c' vs vs' t, c.Respelled R t.marking c' →
    List.Forall₂ (Value.Respelled R t.marking) vs vs' →
    Abreast R t (Machine.construct turns room c vs) (Machine.construct turns room c' vs')
      fun v v' t' => v.Respelled R t'.marking v'
  invoke : ∀ f f' vs vs' t, f.Respelled R t.marking id f' →
    List.Forall₂ (Value.Respelled R t.marking) vs vs' →
    Abreast R t (Machine.invoke turns room f vs) (Machine.invoke turns room f' vs')
      fun v v' t' => v.Respelled R t'.marking v'
  execAll : ∀ ss ss' marks t, t.marking.At t.left.current marks →
    Stmt.AllRenamed R marks ss ss' →
    Abreast R t (Machine.execAll turns room ss) (Machine.execAll turns room ss')
      fun c c' t' => c.Respelled R t'.marking c'
  exec : ∀ s s' marks t, t.marking.At t.left.current marks → s.Renamed R marks s' →
    Abreast R t (Machine.exec turns room s) (Machine.exec turns room s')
      fun c c' t' => c.Respelled R t'.marking c'

namespace AbreastAt

theorem eval_succ (h : AbreastAt R turns room) (e : Expr) (marks : Marks) (t : Pair)
    (hat : t.marking.At t.left.current marks) :
    Abreast R t (Machine.eval turns (room + 1) e)
      (Machine.eval turns (room + 1) (R.expr marks e))
      fun v v' t' => v.Respelled R t'.marking v' := by
  cases e with
  | literal v =>
    exact .value (.ofLiteral v)
  | group e => exact h.eval e marks t hat
  | name r | self r =>
    refine Abreast.needing rfl ((Abreast.readReference hat r).imp ?_)
    rintro v v' t' - ⟨rfl, hv⟩
    exact hv
  | assign r e =>
    refine (h.eval e marks t hat).bind ?_
    intro v v' t₁ hgoes hv
    refine Abreast.needing rfl ?_
    refine (Abreast.writeReference (hgoes.at_current hat) r hv).bind ?_
    intro _ _ t₂ hgoes₂ _
    exact .pure (hv.later hgoes₂.later)
  | unary op e =>
    refine (h.eval e marks t hat).bind ?_
    intro v v' t₁ _ hv
    exact .needing rfl (abreast_liftExcept (Value.respects_respelled.unary hv op))
  | binary l op r =>
    refine (h.eval l marks t hat).bind ?_
    intro a a' t₁ hgoes ha
    refine (h.eval r marks t₁ (hgoes.at_current hat)).bind ?_
    intro b b' t₂ hgoes₂ hb
    have ha₂ := ha.later hgoes₂.later
    refine Abreast.needing (ha₂.spare_binary hb op) ?_
    exact abreast_liftExcept (Value.respects_respelled.binary ha₂ hb op)
  | logical l op r =>
    refine (h.eval l marks t hat).bind ?_
    intro a a' t₁ hgoes ha
    refine Abreast.needing rfl (.ite ?_ (fun _ => .pure ha) fun _ =>
      h.eval r marks t₁ (hgoes.at_current hat))
    rw [Value.respects_respelled.decides ha op]
  | conditional c y n =>
    refine (h.eval c marks t hat).bind ?_
    intro a a' t₁ hgoes ha
    have hat₁ := hgoes.at_current hat
    refine Abreast.needing rfl (.ite (by rw [ha.truthy]) (fun _ => ?_) fun _ => ?_)
    · exact h.eval y marks t₁ hat₁
    · exact h.eval n marks t₁ hat₁
  | call f paren args =>
    refine (h.eval f marks t hat).bind ?_
    intro callee callee' t₁ hgoes hcallee
    refine (h.evalAll args marks t₁ (hgoes.at_current hat)).bind ?_
    intro vs vs' t₂ hgoes₂ hvs
    refine Abreast.needing rfl ?_
    rw [hcallee.arity?, hvs.length_eq]
    cases Machine.arity? callee with
    | none => exact .fail rfl _
    | some n =>
      refine .ite Iff.rfl (fun _ => .fail rfl _) fun _ => ?_
      refine Abreast.bind (Abreast.step (Q := fun _ _ _ => True) (t₂.setLine paren.line) rfl rfl
        fun ht => ⟨ht.setLine paren.line, trivial⟩) ?_
      intro _ _ t₃ hgoes₃ _
      exact h.call callee callee' vs vs' t₃ (hcallee.later (hgoes₂.later.trans hgoes₃.later))
        (hvs.imp fun _ _ hv => hv.later hgoes₃.later)
  | get o p =>
    refine (h.eval o marks t hat).bind ?_
    intro v v' t₁ _ hv
    cases hv with
    | object id hc => exact abreast_property id hc p
    | _ => exact .fail rfl _
  | set o p e =>
    refine (h.eval o marks t hat).bind ?_
    intro v v' t₁ hgoes hv
    cases hv with
    | object id hc =>
      refine (h.eval e marks t₁ (hgoes.at_current hat)).bind ?_
      intro w w' t₂ _ hw
      refine Abreast.needing rfl ?_
      refine Abreast.bind (Abreast.step (Q := fun _ _ _ => True) (t₂.setField id p.lexeme w w')
        rfl rfl fun ht => ⟨ht.setField id p.lexeme hw, trivial⟩) ?_
      intro _ _ t₃ hgoes₃ _
      exact .pure (hw.later hgoes₃.later)
    | _ => exact .fail rfl _
  | super r m => exact abreast_superMethod r m

/-! ## Calls -/

theorem evalAll_succ (h : AbreastAt R turns room) (es : List Expr) (marks : Marks) :
    ∀ t : Pair, t.marking.At t.left.current marks →
      Abreast R t (Machine.evalAll turns (room + 1) es)
        (Machine.evalAll turns (room + 1) (R.exprs marks es))
        fun vs vs' t' => List.Forall₂ (Value.Respelled R t'.marking) vs vs' := by
  show ∀ t : Pair, t.marking.At t.left.current marks →
      Abreast R t (es.mapM (Machine.eval turns room))
        ((R.exprs marks es).mapM (Machine.eval turns room))
        fun vs vs' t' => List.Forall₂ (Value.Respelled R t'.marking) vs vs'
  -- the pair stays general: each argument starts from the machines that the last one left
  induction es with
  | nil =>
    intro t _
    rw [Renaming.exprs, List.mapM_nil]
    exact .pure (Q := fun vs vs' t' => List.Forall₂ (Value.Respelled R t'.marking) vs vs') .nil
  | cons e es ih =>
    intro t hat
    rw [Renaming.exprs, List.mapM_cons, List.mapM_cons]
    refine (h.eval e marks t hat).bind ?_
    intro v v' t₁ hgoes hv
    refine (ih t₁ (hgoes.at_current hat)).bind ?_
    intro vs vs' t₂ hgoes₂ hvs
    exact .pure (.cons (hv.later hgoes₂.later) hvs)

theorem call_succ (h : AbreastAt R turns room) (f f' : Value FrameId)
    (vs vs' : List (Value FrameId)) (t : Pair) (hf : f.Respelled R t.marking f')
    (hvs : List.Forall₂ (Value.Respelled R t.marking) vs vs') :
    Abreast R t (Machine.call turns (room + 1) f vs) (Machine.call turns (room + 1) f' vs')
      fun v v' t' => v.Respelled R t'.marking v' := by
  cases hf with
  | function hf => exact h.invoke _ _ vs vs' t hf hvs
  | native f =>
    cases f
    refine Abreast.needing rfl fun ht => ?_
    have hreading : t.right.clock t.right.readings = t.left.clock t.left.readings := by
      rw [ht.clock, ht.readings]
    refine .ok ht.countReading ?_
    rw [hreading]
    exact .number _
  | classValue hc => exact h.construct _ _ vs vs' t hc hvs
  | _ => exact .value .nil

theorem construct_succ (h : AbreastAt R turns room) (c c' : ClassValue FrameId)
    (vs vs' : List (Value FrameId)) (t : Pair) (hc : c.Respelled R t.marking c')
    (hvs : List.Forall₂ (Value.Respelled R t.marking) vs vs') :
    Abreast R t (Machine.construct turns (room + 1) c vs)
      (Machine.construct turns (room + 1) c' vs')
      fun v v' t' => v.Respelled R t'.marking v' := by
  refine Abreast.needing rfl ?_
  have hobject : Abreast R t (Run.newObject c) (Run.newObject c')
      fun v v' t' => v.Respelled R t'.marking v' := by
    intro ht
    refine .ok ht.newObject ?_
    rw [ht.fields_size]
    exact .object _ hc
  refine hobject.bind ?_
  intro object object' t₁ hgoes hobject
  have hmethod := (hc.later hgoes.later).method? "init"
  unfold ClassValue.initializer?
  generalize c.method? "init" = f at hmethod ⊢
  generalize c'.method? "init" = f' at hmethod ⊢
  cases hmethod with
  | none => exact .value hobject
  | some hf =>
    refine Abreast.needing rfl ((abreast_bind hf hobject).bind ?_)
    intro g g' t₂ hgoes₂ hg
    -- what the arguments and the object are does not change as the machines go on
    have hvs₂ := hvs.imp fun _ _ hv => hv.later (hgoes.later.trans hgoes₂.later)
    refine (h.invoke g g' vs vs' t₂ hg hvs₂).bind ?_
    intro _ _ t₃ hgoes₃ _
    exact .pure (hobject.later (hgoes₂.later.trans hgoes₃.later))

end AbreastAt

/-- **What a call yields** is alike on both sides. -/
theorem abreast_callResult {f f' : Closure FrameId} {c c' : Completion FrameId}
    (hf : f.Respelled R t.marking id f') (hc : c.Respelled R t.marking c') :
    Abreast R t (Machine.callResult room f c) (Machine.callResult room f' c')
      fun v v' t' => v.Respelled R t'.marking v' := by
  unfold Machine.callResult
  rw [hf.isInitializer, hf.home]
  refine .ite Iff.rfl (fun _ => ?_) fun _ => ?_
  · refine Abreast.needing rfl (Abreast.looking fun ht => ?_)
    have hthis : ∀ g, t.left.frames.outward? f.home (0 : Int).toNat = some g →
        "this" = R.spell (t.marks g) "this" := fun g _ => (R.spell_this _).symm
    rcases ht.getAt hthis with ⟨v, v', hleft, hright, hv⟩ | ⟨e, e', hleft, hright⟩
    · rw [hleft, hright]
      exact .value hv
    · rw [hleft, hright]
      exact .throw (.breach _ _)
  · cases hc with
    | giveBack hv => exact .value hv
    | _ => exact .value .nil

/-- The parameters of a call, spelled anew, are bound to like values. -/
theorem rel_params (R : Renaming) {s : Marking} (mark : Bool) (ps : List Token)
    {vs vs' : List (Value FrameId)} (h : List.Forall₂ (Value.Respelled R s) vs vs') (x : String) :
    Option.Rel (Value.Respelled R s) ((Bindings.ofList ((ps.map (·.lexeme)).zip vs)).get? x)
      ((Bindings.ofList (((ps.map (R.token mark)).map (·.lexeme)).zip vs')).get?
        (R.spell mark x)) := by
  refine Bindings.rel_ofList_spelled (R.spell_injective mark) ?_ x
  induction ps generalizing vs vs' with
  | nil => exact .nil
  | cons p ps ih =>
    cases h with
    | nil => exact .nil
    | cons hv hvs => exact .cons ⟨rfl, hv⟩ (ih hvs)

namespace AbreastAt

theorem invoke_succ (h : AbreastAt R turns room) (f f' : Closure FrameId)
    (vs vs' : List (Value FrameId)) (t : Pair) (hf : f.Respelled R t.marking id f')
    (hvs : List.Forall₂ (Value.Respelled R t.marking) vs vs') :
    Abreast R t (Machine.invoke turns (room + 1) f vs) (Machine.invoke turns (room + 1) f' vs')
      fun v v' t' => v.Respelled R t'.marking v' := by
  obtain ⟨d, home, init⟩ := f
  obtain ⟨d', home', init'⟩ := f'
  obtain ⟨rfl, -, outer, hat, hdecl⟩ := id hf
  refine Abreast.needing rfl ?_
  cases hdecl with
  | @mk _ body body' n ps mark hbody =>
    -- `mark` is how the parameters are spelled in the tree, and so how the new frame is marked
    refine (Abreast.newFrame hat mark (rel_params R mark ps hvs)).bind ?_
    rintro _ frame t₁ hgoes ⟨rfl, hframe⟩
    have hexec := h.execAll body body' (outer.push mark) (t₁.setCurrent frame) hframe hbody
    refine (Abreast.inFrame hexec fun _ _ _ _ hc => hc).bind ?_
    intro c c' t₂ hgoes₂ hc
    exact abreast_callResult (hf.later (hgoes.later.trans hgoes₂.later)) hc

/-! ## Statements -/

theorem execAll_succ (h : AbreastAt R turns room) (ss : List Stmt) :
    ∀ (ss' : List Stmt) (marks : Marks) (t : Pair), t.marking.At t.left.current marks →
      Stmt.AllRenamed R marks ss ss' →
      Abreast R t (Machine.execAll turns (room + 1) ss) (Machine.execAll turns (room + 1) ss')
        fun c c' t' => c.Respelled R t'.marking c' := by
  show ∀ (ss' : List Stmt) (marks : Marks) (t : Pair), t.marking.At t.left.current marks →
      Stmt.AllRenamed R marks ss ss' →
      Abreast R t (Run.untilLeft (Machine.exec turns room) ss)
        (Run.untilLeft (Machine.exec turns room) ss') fun c c' t' => c.Respelled R t'.marking c'
  induction ss with
  | nil =>
    intro ss' marks t _ hss
    cases hss
    exact .completion .normal
  | cons s ss ih =>
    intro ss' marks t hat hss
    cases hss with
    | cons hs hss =>
      refine (h.exec s _ marks t hat hs).bind ?_
      intro c c' t₁ hgoes hc
      cases hc with
      | normal => exact ih _ marks t₁ (hgoes.at_current hat) hss
      | leave => exact .completion .leave
      | giveBack hv => exact .completion (.giveBack hv)

end AbreastAt

/-- **A loop** is alike on both sides if its test and its body are. -/
theorem abreast_repeatWhile {test test' : Run (Value FrameId)}
    {body body' : Run (Completion FrameId)}
    (htest : ∀ t : Pair, t.marking.At t.left.current marks →
      Abreast R t test test' fun v v' t' => v.Respelled R t'.marking v')
    (hbody : ∀ t : Pair, t.marking.At t.left.current marks →
      Abreast R t body body' fun c c' t' => c.Respelled R t'.marking c') :
    ∀ (turns : Nat) (t : Pair), t.marking.At t.left.current marks →
      Abreast R t (Run.repeatWhile test body turns) (Run.repeatWhile test' body' turns)
        fun c c' t' => c.Respelled R t'.marking c' := by
  intro turns
  induction turns with
  | zero => exact fun t _ => .throw .outOfTurns
  | succ turns ih =>
    intro t hat
    refine (htest t hat).bind ?_
    intro v v' t₁ hgoes hv
    have hat₁ := hgoes.at_current hat
    refine .ite (by rw [hv.truthy]) (fun _ => ?_) fun _ => .completion .normal
    refine (hbody t₁ hat₁).bind ?_
    intro c c' t₂ hgoes₂ hc
    cases hc with
    | normal => exact ih t₂ (hgoes₂.at_current hat₁)
    | leave => exact .completion .normal
    | giveBack hv => exact .completion (.giveBack hv)

/-- The superclass of a class is alike on both sides. -/
theorem abreast_superclass (hat : t.marking.At t.left.current marks) (s : Option Reference) :
    Abreast R t (Machine.superclass? room s)
      (Machine.superclass? room (s.map (R.reference marks))) fun c c' t' =>
        t' = t ∧ c.isSome = s.isSome ∧ Option.Rel (ClassValue.Respelled R t.marking) c c' := by
  cases s with
  | none => exact .pure ⟨rfl, rfl, .none⟩
  | some r =>
    refine Abreast.needing rfl ((Abreast.readReference hat r).bind ?_)
    rintro v v' _ - ⟨rfl, hv⟩
    cases hv with
    | classValue hc => exact .pure ⟨rfl, rfl, .some hc⟩
    | _ => exact .fail (R.token_line _ r.name) _

/-- **A class is declared** in three steps: its name is defined, its methods get a frame of
their own if it has a superclass, and the name is given its value. -/
theorem abreast_declareClass (hat : t.marking.At t.left.current marks) {n : Token}
    {s : Option Reference} {ms ms' : List FunDecl} (hn : R.spell (marks 0) n.lexeme = n.lexeme)
    (hms : FunDecl.AllRenamed R (marks.members s.isSome) ms ms') :
    Abreast R t (Machine.declareClass room n s ms)
      (Machine.declareClass room n (s.map (R.reference marks)) ms') fun _ _ _ => True := by
  have hempty : ms'.isEmpty = ms.isEmpty := by cases hms <;> rfl
  refine (abreast_superclass hat s).bind ?_
  rintro parent parent' t - ⟨rfl, hsome, hparent⟩
  refine Abreast.needing rfl ((Abreast.define hat hn.symm .nil).bind ?_)
  intro _ _ t₁ hgoes₁ hbound
  have hat₁ := hgoes₁.at_current hat
  refine Abreast.looking fun ht₁ => ?_
  have hparent₁ : Option.Rel (ClassValue.Respelled R t₁.marking) parent parent' := by
    cases hparent with
    | none => exact .none
    | some hc => exact .some (hc.later hgoes₁.later)
  -- whichever frame the methods get, the class is the value of its name
  have hrest : ∀ (frame : FrameId) (outer : Marks) (t₂ : Pair), t₁.Goes R t₂ →
      t₂.marking.At frame outer → FunDecl.AllRenamed R (outer.push false) ms ms' →
      Abreast R t₂ (do
        Run.need (if ms.isEmpty then Spare.make else 1 + Spare.make) room
        let number := (← get).classCount
        modify fun m => { m with classCount := m.classCount + 1 }
        let head : ClassHead FrameId := ⟨number, n.lexeme, Machine.methodTable frame ms⟩
        Run.assignFrom t₁.left.current n (.classValue (.of head parent)))
      (do
        Run.need (if ms'.isEmpty then Spare.make else 1 + Spare.make) room
        let number := (← get).classCount
        modify fun m => { m with classCount := m.classCount + 1 }
        let head : ClassHead FrameId := ⟨number, n.lexeme, Machine.methodTable frame ms'⟩
        Run.assignFrom t₁.left.current n (.classValue (.of head parent')))
      fun _ _ _ => True := by
    intro frame outer t₂ hgoes₂ hframe hms₂
    refine Abreast.needing (by rw [hempty]) (Abreast.looking fun ht₂ => ?_)
    refine Abreast.bind (Abreast.step (Q := fun _ _ t' => t' = t₂.countClass) t₂.countClass rfl
      rfl fun ht => ⟨ht.countClass, rfl⟩) ?_
    rintro _ _ t₃ hgoes₃ rfl
    have hgoes := hgoes₂.trans hgoes₃
    have hhead : ClassHead.Respelled R t₂.countClass.marking
        ⟨t₂.left.classCount, n.lexeme, Machine.methodTable frame ms⟩
        ⟨t₂.right.classCount, n.lexeme, Machine.methodTable frame ms'⟩ :=
      ⟨ht₂.classCount, rfl, rel_methodTable_renamed (hframe.later hgoes₃.later) hms₂⟩
    have hclass : Option.Rel (ClassValue.Respelled R t₂.countClass.marking) parent parent' := by
      cases hparent₁ with
      | none => exact .none
      | some hc => exact .some (hc.later hgoes.later)
    refine Abreast.assignFrom ?_ ?_ (.classValue (.of hhead hclass))
    · rw [hgoes₁.current]
      exact hgoes.later.names _ _ hbound
    · have hmark := hgoes.agrees.mark (hat₁.later hgoes.later) (d := 0) rfl
      rwa [hmark]
  rw [ht₁.current]
  cases hparent₁ with
  | none =>
    have hnone : s.isSome = false := hsome.symm
    rw [hnone] at hms
    exact hrest _ marks _ (.refl ht₁) hat₁ hms
  | @some c c' hc =>
    have hsome' : s.isSome = true := hsome.symm
    rw [hsome'] at hms
    have hb := Bindings.rel_ofList_spelled (R.spell_injective false)
      (.cons ⟨rfl, Value.Respelled.classValue hc⟩ .nil :
        List.Forall₂ (fun e e' => e'.1 = R.spell false e.1 ∧
          Value.Respelled R t₁.marking e.2 e'.2) [("super", .classValue c)]
          [("super", .classValue c')])
    refine Abreast.needing rfl ((Abreast.newFrame hat₁ false hb).bind ?_)
    rintro _ frame t₂ hgoes₂ ⟨rfl, hframe⟩
    exact hrest frame _ t₂ hgoes₂ hframe hms

namespace AbreastAt

/-- **A block** runs in a frame of its own. -/
theorem block (h : AbreastAt R turns room) {body body' : List Stmt} (mark : Bool)
    (hbody : Stmt.AllRenamed R (marks.push mark) body body')
    (hat : t.marking.At t.left.current marks) :
    Abreast R t (do
        let frame ← Run.newFrame t.left.current .empty
        Run.inFrame frame (Machine.execAll turns room body))
      (do
        let frame ← Run.newFrame t.left.current .empty
        Run.inFrame frame (Machine.execAll turns room body'))
      fun c c' t' => c.Respelled R t'.marking c' := by
  have hempty : ∀ x, Option.Rel (Value.Respelled R t.marking) (Bindings.get? .empty x)
      (Bindings.get? .empty (R.spell mark x)) := fun _ => .none
  refine (Abreast.newFrame hat mark hempty).bind ?_
  rintro _ frame t₁ - ⟨rfl, hframe⟩
  exact .inFrame (h.execAll body body' (marks.push mark) (t₁.setCurrent frame) hframe hbody)
    fun _ _ _ _ hc => hc

theorem exec_succ (h : AbreastAt R turns room) (s s' : Stmt) (marks : Marks) (t : Pair)
    (hat : t.marking.At t.left.current marks) (hs : s.Renamed R marks s') :
    Abreast R t (Machine.exec turns (room + 1) s) (Machine.exec turns (room + 1) s')
      fun c c' t' => c.Respelled R t'.marking c' := by
  cases hs with
  | expression _ e =>
    refine (h.eval e marks t hat).bind ?_
    intro v v' t₁ _ _
    exact .completion .normal
  | print _ e =>
    refine (h.eval e marks t hat).bind ?_
    intro v v' t₁ _ hv
    refine Abreast.needing hv.words ?_
    rw [hv.render]
    refine Abreast.bind (Abreast.step (Q := fun _ _ _ => True) (t₁.write (v.render ++ "\n")) rfl
      rfl fun ht => ⟨ht.write _, trivial⟩) ?_
    intro _ _ t₂ _ _
    exact .completion .normal
  | var _ n e =>
    cases e with
    | none =>
      refine Abreast.needing rfl ((Abreast.define hat rfl .nil).bind ?_)
      intro _ _ t₁ _ _
      exact .completion .normal
    | some e =>
      refine (h.eval e marks t hat).bind ?_
      intro v v' t₁ hgoes hv
      refine Abreast.needing rfl ((Abreast.define (hgoes.at_current hat) rfl hv).bind ?_)
      intro _ _ t₂ _ _
      exact .completion .normal
  | block mark hbody =>
    refine Abreast.needing rfl (Abreast.looking fun ht => ?_)
    rw [ht.current]
    exact h.block mark hbody hat
  | branch test hyes =>
    refine (h.eval test marks t hat).bind ?_
    intro v v' t₁ hgoes hv
    refine Abreast.needing rfl (.ite (by rw [hv.truthy]) (fun _ => ?_) fun _ => ?_)
    · exact h.exec _ _ marks t₁ (hgoes.at_current hat) hyes
    · exact .completion .normal
  | branchElse test hyes hno =>
    refine (h.eval test marks t hat).bind ?_
    intro v v' t₁ hgoes hv
    refine Abreast.needing rfl (.ite (by rw [hv.truthy]) (fun _ => ?_) fun _ => ?_)
    · exact h.exec _ _ marks t₁ (hgoes.at_current hat) hyes
    · exact h.exec _ _ marks t₁ (hgoes.at_current hat) hno
  | loop test hbody =>
    refine abreast_repeatWhile (fun t hat => ?_) (fun t hat => h.exec _ _ marks t hat hbody) turns t
      hat
    refine (h.eval test marks t hat).bind ?_
    intro v v' t₁ _ hv
    exact .needing rfl (.pure hv)
  | leave => exact .completion .leave
  | giveBack _ k e =>
    cases e with
    | none =>
      exact .needing rfl (.completion (.giveBack .nil))
    | some e =>
      refine (h.eval e marks t hat).bind ?_
      intro v v' t₁ _ hv
      exact .needing rfl (.completion (.giveBack hv))
  | @function _ d d' hkept hd =>
    refine Abreast.needing rfl (Abreast.looking fun ht => ?_)
    -- a function keeps its name, which is then also the name as spelled in this scope
    have hname : d'.name.lexeme = R.spell (marks 0) d.name.lexeme := by rw [hd.name, hkept]
    have hclosure : Value.Respelled R t.marking (.function ⟨d, t.left.current, false⟩)
        (.function ⟨d', t.right.current, false⟩) :=
      .function ⟨ht.current, rfl, marks, hat, hd⟩
    refine (Abreast.define hat hname hclosure).bind ?_
    intro _ _ t₁ _ _
    exact .completion .normal
  | classDecl s hkept hms =>
    refine Abreast.needing rfl ((abreast_declareClass hat hkept hms).bind ?_)
    intro _ _ t₁ _ _
    exact .completion .normal

end AbreastAt

/-- **Both evaluators run abreast.** -/
theorem abreastAt (R : Renaming) (turns room : Nat) : AbreastAt R turns room := by
  induction room with
  | zero =>
    exact ⟨fun _ _ _ _ => .throw .stackOverflow, fun _ _ _ _ => .throw .stackOverflow,
      fun _ _ _ _ _ _ _ => .throw .stackOverflow, fun _ _ _ _ _ _ _ => .throw .stackOverflow,
      fun _ _ _ _ _ _ _ => .throw .stackOverflow, fun _ _ _ _ _ _ => .throw .stackOverflow,
      fun _ _ _ _ _ _ => .throw .stackOverflow⟩
  | succ room ih =>
    exact ⟨ih.eval_succ, ih.evalAll_succ, ih.call_succ, ih.construct_succ, ih.invoke_succ,
      ih.execAll_succ, ih.exec_succ⟩

/-- **Global code** is executed alike, statement by statement. -/
theorem abreast_runAll (R : Renaming) (turns room : Nat) :
    ∀ (p p' : Program) (t : Pair), t.left.current = globalFrame → Stmt.AllRenamed R .none p p' →
      Abreast R t (Machine.runAll (Machine.exec turns room) p)
        (Machine.runAll (Machine.exec turns room) p') fun _ _ _ => True := by
  intro p
  induction p with
  | nil =>
    intro p' t _ hp
    cases hp
    exact .pure trivial
  | cons s p ih =>
    intro p' t hcurrent hp
    cases hp with
    | cons hs hp =>
      have hat : t.marking.At t.left.current .none := by
        rw [hcurrent]
        exact .global
      refine ((abreastAt R turns room).exec s _ .none t hat hs).bind ?_
      intro c c' t₁ hgoes hc
      have hrest := ih _ t₁ (hgoes.current.trans hcurrent) hp
      cases hc with
      | giveBack hv => exact .pure trivial
      | _ => exact hrest

end LoxKit
