import LoxKit.Proofs.Machine.Access
import LoxKit.Proofs.Machine.Operators

/-!
# Runs keep the invariant

An expression is evaluated, and a statement executed, where a run stands in the scopes around
it; if all its visits are settled, the invariant is kept (`SoundAt.eval`, `SoundAt.exec`).
Behind a statement, a run stands in the scopes behind it.

The proof follows the evaluator, by induction on its room: one lemma for each function, from
all of them with less room.
-/
namespace LoxKit
namespace Machine

open Scope Watching

section

variable {V : Visit → Prop} {may : FrameId → Prop} {w : Watched} {Γ : Stack}

theorem valueOk_of_plain {v : Value FrameId} (h : v.Plain) : ValueOk V w v := by
  cases v with
  | nil | bool b | number x | string s => trivial
  | _ => exact h.elim

theorem Keeps.unary {op : Token} {a : Value FrameId} (h : Grammar.isUnaryOperator op.kind) :
    Keeps V may w (Watching.lift (liftExcept (Operator.unary op a)))
      fun v w' => w' = w ∧ ValueOk V w v := by
  refine .reading fun _ => ?_
  cases he : Operator.unary op a with
  | ok v => exact ⟨rfl, valueOk_of_plain (Operator.unary_plain he)⟩
  | error e => exact ⟨rfl, Operator.unary_error h he⟩

theorem Keeps.binary {op : Token} {a b : Value FrameId} (h : op.kind.isBinaryOperator)
    (hb : ValueOk V w b) :
    Keeps V may w (Watching.lift (liftExcept (Operator.binary op a b)))
      fun v w' => w' = w ∧ ValueOk V w v := by
  refine .reading fun _ => ?_
  cases he : Operator.binary op a b with
  | ok v =>
    rcases Operator.binary_plain he with rfl | hv
    · exact ⟨rfl, hb⟩
    · exact ⟨rfl, valueOk_of_plain hv⟩
  | error e => exact ⟨rfl, Operator.binary_error h he⟩

/-! ## The pass -/

/-- **The functions of the evaluator keep the invariant**, with so much room. -/
structure SoundAt (V : Visit → Prop) (turns room : Nat) : Prop where
  eval : ∀ e Γ w, e.Shaped → (∀ v ∈ e.visits Γ, V v) → w.Stands Γ →
    Keeps V nowhere w (watchEval turns room e) fun v w' => ValueOk V w' v
  evalAll : ∀ es Γ w, Expr.AllShaped es → (∀ v ∈ Expr.visitsAll es Γ, V v) → w.Stands Γ →
    Keeps V nowhere w (watchEvalAll turns room es) fun vs w' =>
      vs.length = es.length ∧ ∀ v ∈ vs, ValueOk V w' v
  call : ∀ f vs w, ValueOk V w f → (∀ v ∈ vs, ValueOk V w v) → arity? f = some vs.length →
    Keeps V nowhere w (watchCall turns room f vs) fun v w' => ValueOk V w' v
  construct : ∀ c vs w, c.All (MethodOk V w) → (∀ v ∈ vs, ValueOk V w v) → c.arity = vs.length →
    Keeps V nowhere w (watchConstruct turns room c vs) fun v w' => ValueOk V w' v
  invoke : ∀ f vs w, FunctionOk V w f → (∀ v ∈ vs, ValueOk V w v) → f.decl.arity = vs.length →
    Keeps V nowhere w (watchInvoke turns room f vs) fun v w' => ValueOk V w' v
  execAll : ∀ ss Γ w, Stmt.AllShaped ss → (∀ v ∈ Stmt.visitsAll ss Γ, V v) → w.Stands Γ →
    Keeps V (· = w.machine.current) w (watchExecAll turns room ss)
      fun c w' => CompletionOk V w' c
  exec : ∀ s Γ w, s.Shaped → (∀ v ∈ s.visits Γ, V v) → w.Stands Γ →
    Keeps V (fun f => s.isDeclaration ∧ f = w.machine.current) w (watchExec turns room s)
      fun c w' => CompletionOk V w' c ∧ w'.Stands (s.declare Γ)

variable {turns room : Nat}

/-- **A method bound to an object** is at home in the frame of the object. -/
theorem Keeps.bindMethod {f : Closure FrameId} {this : Value FrameId} (hf : MethodOk V w f)
    (hthis : ValueOk V w this) :
    Keeps V may w (Watching.bind f this) fun g w' => FunctionOk V w' g ∧ g.decl = f.decl := by
  obtain ⟨site, Δ, hΔ, hshaped, hmem, hvisits⟩ := hf
  have hb : ∀ x v, (Bindings.ofList [(thisName, this)]).get? x = some v → ValueOk V w v := by
    intro x v hv
    obtain ⟨-, rfl⟩ := Bindings.of_get?_singleton hv
    exact hthis
  refine (Keeps.newFrame (.receiver f.decl) f.home hb).bind ?_
  intro g w' _ hg
  refine .pure ⟨⟨.this site :: Δ, ?_, hshaped, hvisits, fun _ => ⟨site, Δ, rfl⟩⟩, rfl⟩
  refine hg.lies _ Δ hΔ ⟨f.decl, hmem, rfl⟩ ⟨fun x hx => ?_, trivial⟩
  rw [Level.names_this, Bindings.get?_singleton] at hx
  rw [Bindings.contains_singleton]
  split at hx <;> simp_all

theorem Keeps.property (room : Nat) (id : ObjectId) {c : ClassValue FrameId}
    (hc : c.All (MethodOk V w)) (n : Token) :
    Keeps V may w (watchProperty room id c n) fun v w' => ValueOk V w' v := by
  intro hw
  refine Keeps.bind (.get (Q := fun a w' => a = w ∧ w' = w) ⟨rfl, rfl⟩) ?_ hw
  rintro _ _ - ⟨rfl, rfl⟩
  rename_i w
  cases hfield : (w.machine.fields[id]?.getD .empty).get? n.lexeme with
  | some v =>
    refine Keeps.needing _ _ (.pure ?_)
    cases hb : w.machine.fields[id]? with
    | none => simp [hb] at hfield
    | some b => exact hw.fields id b hb n.lexeme v (by simpa [hb] using hfield)
  | none =>
    refine Keeps.needing _ _ ?_
    cases hmethod : c.method? n.lexeme with
    | none => exact Keeps.fail _ _ _
    | some f =>
      refine (Keeps.bindMethod (hc.method? hmethod)
        (show ValueOk V w (.object id c) from hc)).bind ?_
      intro g w' _ hg
      exact .pure hg.1

/-- **`super` finds a method** of the superclass and the object it works on. -/
theorem Keeps.superMethod (hV : ∀ v, V v → v.Settled) (room : Nat) {r : Reference} {Γ : Stack}
    (hv : V (.use .super r Γ)) (hs : w.Stands Γ) (m : Token) :
    Keeps V may w (watchSuperMethod room r m) fun v w' => ValueOk V w' v := by
  obtain ⟨-, -, d, site, hhops, -, hthis, hsuper⟩ := hV _ hv
  refine Keeps.noting ⟨Γ, hv, hs⟩ trivial fun w₁ hgoes => ?_
  refine Keeps.needing _ _ ?_
  have hΓ₁ := (hs.goes hgoes).chain
  obtain ⟨parent, hparent, hok, hclass⟩ := hΓ₁.getAt hgoes.valid hsuper (x := superName)
    (by simp) (Int.toNat_natCast (d + 1))
  obtain ⟨this, hself, hthisOk, -⟩ := hΓ₁.getAt hgoes.valid hthis (x := thisName)
    (by simp) (show (((d + 1 : Nat) : Int) - 1).toNat = d by simp)
  obtain ⟨c, rfl⟩ := hclass site rfl rfl
  rw [hhops]
  refine (Keeps.readAt hparent).bind ?_
  rintro _ _ - ⟨rfl, rfl⟩
  refine (Keeps.readAt hself).bind ?_
  rintro _ _ - ⟨rfl, rfl⟩
  dsimp only
  cases hmethod : c.method? m.lexeme with
  | none => exact Keeps.fail _ _ _
  | some f =>
    refine (Keeps.bindMethod (ClassValue.All.method? hok hmethod) hthisOk).bind ?_
    intro g w' _ hg
    exact .pure hg.1

/-- Setting a field. -/
theorem Keeps.setField (id : ObjectId) (x : String) {v : Value FrameId} (hv : ValueOk V w v) :
    Keeps V may w (Watching.lift (Run.setField id x v)) fun _ _ => True :=
  .lift fun hw => ⟨⟨hw.setField id x hv, ⟨.refl _, List.prefix_refl _⟩, .refl _, rfl⟩, trivial⟩

theorem SoundAt.eval_succ (hV : ∀ v, V v → v.Settled) (h : SoundAt V turns room) (e : Expr)
    (Γ : Stack) (w : Watched) (he : e.Shaped) (hvisits : ∀ v ∈ e.visits Γ, V v)
    (hs : w.Stands Γ) :
    Keeps V nowhere w (watchEval turns (room + 1) e) fun v w' => ValueOk V w' v := by
  cases e with
  | literal v => exact .pure (valueOk_ofLiteral v)
  | group e => exact h.eval e Γ w he hvisits hs
  | name r =>
    have hv := hvisits _ List.mem_cons_self
    obtain ⟨hdepth, -, hready⟩ := hV _ hv
    refine Keeps.noting ⟨Γ, hv, hs⟩ trivial fun w₁ hgoes => ?_
    refine Keeps.needing _ _ ?_
    refine (Keeps.readReference (hs.goes hgoes).chain hdepth hready).mono ?_
    rintro v _ ⟨rfl, hv⟩
    exact hv
  | self r =>
    have hv := hvisits _ List.mem_cons_self
    obtain ⟨hdepth, hname, d, site, hhops, hl⟩ := hV _ hv
    refine Keeps.noting ⟨Γ, hv, hs⟩ trivial fun w₁ hgoes => ?_
    refine Keeps.needing _ _ ?_
    have hready : ∀ d l, r.hops = some d → Γ[d]? = some l →
        l.names.get? r.name.lexeme = some true := by
      intro d' l hd' hl'
      cases hhops.symm.trans hd'
      cases hl.symm.trans hl'
      simp [hname]
    refine (Keeps.readReference (hs.goes hgoes).chain hdepth hready).mono ?_
    rintro v _ ⟨rfl, hv⟩
    exact hv
  | assign r e =>
    have hv := hvisits (.use .assign r Γ) (by simp [Expr.visits])
    refine Keeps.noting ⟨Γ, hv, hs⟩ trivial fun w₁ hgoes => ?_
    have hs₁ := hs.goes hgoes
    refine (h.eval e Γ w₁ he.2 (fun v hv => hvisits v (by simp [Expr.visits, hv])) hs₁).bind ?_
    intro v w₂ hgoes₂ hok
    refine Keeps.needing _ _ ?_
    exact Keeps.storing (hs₁.goes hgoes₂) hv (hV _ hv) hok
  | unary op e =>
    refine (h.eval e Γ w he.2 hvisits hs).bind ?_
    intro v w₁ _ _
    refine Keeps.needing _ _ ?_
    refine (Keeps.unary he.1).mono ?_
    rintro v _ ⟨rfl, hv⟩
    exact hv
  | binary l op r =>
    refine (h.eval l Γ w he.2.1 (fun v hv => hvisits v (List.mem_append_left _ hv)) hs).bind ?_
    intro a w₁ hgoes₁ _
    refine (h.eval r Γ w₁ he.2.2 (fun v hv => hvisits v (List.mem_append_right _ hv))
      (hs.goes hgoes₁)).bind ?_
    intro b w₂ _ hb
    refine Keeps.needing _ _ ?_
    refine (Keeps.binary he.1 hb).mono ?_
    rintro v _ ⟨rfl, hv⟩
    exact hv
  | logical l op r =>
    refine (h.eval l Γ w he.1 (fun v hv => hvisits v (List.mem_append_left _ hv)) hs).bind ?_
    intro a w₁ hgoes₁ ha
    refine Keeps.needing _ _ ?_
    refine .ite (fun _ => .pure ha) fun _ => ?_
    exact h.eval r Γ _ he.2 (fun v hv => hvisits v (List.mem_append_right _ hv))
      (hs.goes hgoes₁)
  | conditional t y n =>
    refine (h.eval t Γ w he.1 (fun v hv => hvisits v (List.mem_append_left _ hv)) hs).bind ?_
    intro a w₁ hgoes₁ ha
    refine Keeps.needing _ _ ?_
    have hs₁ := hs.goes hgoes₁
    refine .ite (fun _ => ?_) fun _ => ?_
    · exact h.eval y Γ _ he.2.1 (fun v hv => hvisits v (by simp [Expr.visits, hv])) hs₁
    · exact h.eval n Γ _ he.2.2 (fun v hv => hvisits v (by simp [Expr.visits, hv])) hs₁
  | call f paren args =>
    refine (h.eval f Γ w he.1 (fun v hv => hvisits v (List.mem_append_left _ hv)) hs).bind ?_
    intro callee w₁ hgoes₁ hcallee
    refine (h.evalAll args Γ w₁ he.2 (fun v hv => hvisits v (List.mem_append_right _ hv))
      (hs.goes hgoes₁)).bind ?_
    rintro values w₂ hgoes₂ ⟨-, hvalues⟩
    refine Keeps.needing _ _ ?_
    cases harity : arity? callee with
    | none => exact Keeps.fail _ _ _
    | some n =>
      refine .ite (fun _ => Keeps.fail _ _ _) fun hn => ?_
      refine (Keeps.modify (g := fun m => { m with line := paren.line }) (fun _ => rfl)
        (fun _ => rfl) fun _ => rfl).bind ?_
      intro _ w₃ hgoes₃ _
      refine h.call callee values w₃ ?_ (fun v hv => (hvalues v hv).later hgoes₃.later) ?_
      · exact (hcallee.later hgoes₂.later).later hgoes₃.later
      · rw [harity, Decidable.not_not.mp hn]
  | get o p =>
    refine (h.eval o Γ w he hvisits hs).bind ?_
    intro v w₁ _ hv
    cases v with
    | object id c => exact Keeps.property room id hv p
    | _ => exact Keeps.fail _ _ _
  | set o p e =>
    refine (h.eval o Γ w he.1 (fun v hv => hvisits v (List.mem_append_right _ hv)) hs).bind ?_
    intro v w₁ hgoes₁ _
    cases v with
    | object id c =>
      refine (h.eval e Γ w₁ he.2 (fun v hv => hvisits v (List.mem_append_left _ hv))
        (hs.goes hgoes₁)).bind ?_
      intro v w₂ _ hv
      refine Keeps.needing _ _ ((Keeps.setField id p.lexeme hv).bind ?_)
      intro _ w₃ hgoes₃ _
      exact .pure (hv.later hgoes₃.later)
    | _ => exact Keeps.fail _ _ _
  | super r m => exact Keeps.superMethod hV room (hvisits _ List.mem_cons_self) hs m

/-! ## Calls -/

theorem SoundAt.evalAll_succ (h : SoundAt V turns room) (es : List Expr) (Γ : Stack) :
    ∀ w : Watched, Expr.AllShaped es → (∀ v ∈ Expr.visitsAll es Γ, V v) → w.Stands Γ →
      Keeps V nowhere w (watchEvalAll turns (room + 1) es) fun vs w' =>
        vs.length = es.length ∧ ∀ v ∈ vs, ValueOk V w' v := by
  show ∀ w : Watched, Expr.AllShaped es → (∀ v ∈ Expr.visitsAll es Γ, V v) → w.Stands Γ →
      Keeps V nowhere w (es.mapM (watchEval turns room)) fun vs w' =>
        vs.length = es.length ∧ ∀ v ∈ vs, ValueOk V w' v
  induction es with
  | nil =>
    intro w _ _ _
    rw [List.mapM_nil]
    exact .pure ⟨rfl, List.forall_mem_nil _⟩
  | cons e es ih =>
    intro w hes hvisits hs
    rw [List.mapM_cons]
    refine (h.eval e Γ w hes.1 (fun v hv => hvisits v (List.mem_append_left _ hv)) hs).bind ?_
    intro v w₁ hgoes₁ hv
    refine (ih w₁ hes.2 (fun v hv => hvisits v (List.mem_append_right _ hv))
      (hs.goes hgoes₁)).bind ?_
    rintro vs w₂ hgoes₂ ⟨hlen, hvs⟩
    refine .pure ⟨by simp [hlen], fun u hu => ?_⟩
    rcases List.mem_cons.mp hu with rfl | hu
    · exact hv.later hgoes₂.later
    · exact hvs u hu

theorem SoundAt.call_succ (h : SoundAt V turns room) (f : Value FrameId)
    (vs : List (Value FrameId)) (w : Watched) (hf : ValueOk V w f)
    (hvs : ∀ v ∈ vs, ValueOk V w v) (harity : arity? f = some vs.length) :
    Keeps V nowhere w (watchCall turns (room + 1) f vs) fun v w' => ValueOk V w' v := by
  cases f with
  | function f => exact h.invoke f vs w hf hvs (Option.some.inj harity)
  | native f =>
    cases f
    refine Keeps.needing _ _ (.lift fun hw => ?_)
    exact ⟨⟨hw.of_eq rfl rfl, ⟨.refl _, List.prefix_refl _⟩, .refl _, rfl⟩, trivial⟩
  | classValue c => exact h.construct c vs w hf hvs (Option.some.inj harity)
  | _ => cases harity

/-- A new object. -/
theorem Keeps.newObject {c : ClassValue FrameId} (hc : c.All (MethodOk V w)) :
    Keeps V may w (Watching.lift (Run.newObject c)) fun v w' => ValueOk V w' v :=
  .lift fun hw =>
    have hlater : w.Later { w with machine := { w.machine with
        fields := w.machine.fields.push .empty } } := ⟨.refl _, List.prefix_refl _⟩
    ⟨⟨hw.newObject, hlater, .refl _, rfl⟩,
      ValueOk.later (v := .object w.machine.fields.size c) hc hlater⟩

theorem SoundAt.construct_succ (h : SoundAt V turns room) (c : ClassValue FrameId)
    (vs : List (Value FrameId)) (w : Watched) (hc : c.All (MethodOk V w))
    (hvs : ∀ v ∈ vs, ValueOk V w v) (harity : c.arity = vs.length) :
    Keeps V nowhere w (watchConstruct turns (room + 1) c vs) fun v w' => ValueOk V w' v := by
  refine Keeps.needing _ _ ((Keeps.newObject hc).bind ?_)
  intro object w₁ hgoes₁ hobject
  cases hinit : c.initializer? with
  | none => exact .pure hobject
  | some f =>
    have hf : MethodOk V w₁ f := (ClassValue.All.method? hc hinit).later hgoes₁.later
    refine Keeps.needing _ _ ((Keeps.bindMethod hf hobject).bind ?_)
    rintro g w₂ hgoes₂ ⟨hg, hdecl⟩
    refine (h.invoke g vs w₂ hg (fun v hv =>
      ((hvs v hv).later hgoes₁.later).later hgoes₂.later) ?_).bind ?_
    · rw [hdecl, ← harity, ClassValue.arity, hinit]
      rfl
    · intro _ w₃ hgoes₃ _
      exact .pure ((hobject.later hgoes₂.later).later hgoes₃.later)

/-- The value of a call. -/
theorem Keeps.callResult {f : Closure FrameId} {c : Completion FrameId} (room : Nat)
    (hf : FunctionOk V w f) (hc : CompletionOk V w c) :
    Keeps V may w (Watching.lift (callResult room f c)) fun v w' => ValueOk V w' v := by
  obtain ⟨Γ, hΓ, -, -, hinit⟩ := hf
  have hresult : Keeps V may w (Watching.lift (Machine.callResult room f c))
      fun v w' => w' = w ∧ ValueOk V w v := by
    refine .reading fun hw => ?_
    unfold Machine.callResult
    cases hi : f.isInitializer with
    | true =>
      obtain ⟨site, Δ, rfl⟩ := hinit hi
      obtain ⟨this, hthis, hok, -⟩ := hΓ.getAt hw (d := 0) (x := thisName)
        rfl (by simp) (show (0 : Int).toNat = 0 from rfl)
      rw [if_pos rfl]
      unfold Run.need
      by_cases hroom : room < Spare.initialized
      · rw [if_pos hroom]
        exact ⟨rfl, Failure.stackOverflow_ne_breach⟩
      · rw [if_neg hroom]
        rw [pure_bind, Run.get_bind,
          show w.machine.frames.getAt f.home 0 "this" = .ok this from hthis]
        exact ⟨rfl, hok⟩
    | false =>
      cases c with
      | giveBack v => exact ⟨rfl, hc⟩
      | _ => exact ⟨rfl, trivial⟩
  refine hresult.mono ?_
  rintro v _ ⟨rfl, hv⟩
  exact hv

/-- Parameters are entered into the scope of their function. -/
theorem enterAll_call (ps : List Token) (d : FunDecl) (names : Scope) (Γ : Stack) :
    Stack.enterAll ps (.call d names :: Γ) =
      .call d (ps.foldl (fun b p => b.put p.lexeme true) names) :: Γ := by
  induction ps generalizing names with
  | nil => rfl
  | cons p ps ih => exact ih _

/-- Parameters are ready. -/
theorem get?_params {ps : List Token} {x : String} :
    ∀ {names : Scope}, x ∈ ps.map (·.lexeme) ∨ names.get? x = some true →
      (ps.foldl (fun b p => b.put p.lexeme true) names).get? x = some true := by
  induction ps with
  | nil => exact fun h => h.resolve_left (List.not_mem_nil)
  | cons p ps ih =>
    intro names h
    refine ih ?_
    rw [Bindings.get?_put]
    by_cases hx : x = p.lexeme
    · exact .inr (if_pos hx)
    · rw [if_neg hx]
      rcases h with h | h
      · exact .inl ((List.mem_cons.mp h).resolve_left hx)
      · exact .inr h

/-- A name that is entered with some parameters is one of them. -/
theorem mem_of_get?_params {ps : List Token} {x : String} {b : Bool} :
    ∀ {names : Scope}, (ps.foldl (fun b p => b.put p.lexeme true) names).get? x = some b →
      x ∈ ps.map (·.lexeme) ∨ names.get? x = some b := by
  induction ps with
  | nil => exact fun h => .inr h
  | cons p ps ih =>
    intro names h
    rcases ih h with h | h
    · exact .inl (List.mem_cons_of_mem _ h)
    · rw [Bindings.get?_put] at h
      split at h
      · rename_i hx
        exact .inl (by rw [hx]; exact List.mem_cons_self)
      · exact .inr h

theorem SoundAt.invoke_succ (h : SoundAt V turns room) (f : Closure FrameId)
    (vs : List (Value FrameId)) (w : Watched) (hf : FunctionOk V w f)
    (hvs : ∀ v ∈ vs, ValueOk V w v) (harity : f.decl.arity = vs.length) :
    Keeps V nowhere w (watchInvoke turns (room + 1) f vs) fun v w' => ValueOk V w' v := by
  obtain ⟨Γ, hΓ, hshaped, hvisits, -⟩ := id hf
  have hb : ∀ x v, (Bindings.ofList ((f.decl.params.map (·.lexeme)).zip vs)).get? x = some v →
      ValueOk V w v :=
    fun x v hv => hvs v (List.of_mem_zip (Bindings.mem_of_get?_ofList hv)).2
  have hlen : (f.decl.params.map (·.lexeme)).length ≤ vs.length := by
    rw [List.length_map, ← harity]
    exact Nat.le_refl _
  have hcontains : ∀ x, (Bindings.ofList ((f.decl.params.map (·.lexeme)).zip vs)).contains x ↔
      x ∈ f.decl.params.map (·.lexeme) := by
    intro x
    rw [Bindings.contains_ofList, List.any_eq_true]
    conv_rhs => rw [← List.map_fst_zip hlen]
    rw [List.mem_map]
    simp only [beq_iff_eq]
  refine Keeps.needing _ _ ?_
  -- the frame of the call is new, so what the body defines there is no name of an old frame
  refine Keeps.bind_of (p := nowhere) (q := (· = w.machine.frames.frames.size))
    (Keeps.newFrame (.call f.decl) f.home hb) (fun _ _ h => h)
    (fun _ hlt heq => absurd heq (Nat.ne_of_lt hlt)) ?_
  intro g w₁ hgoes₁ hg
  have hstands : Watched.Stands { w₁ with machine := { w₁.machine with current := g } }
      (Stack.enterAll f.decl.params (.call f.decl {} :: Γ)) := by
    rw [enterAll_call]
    refine hg.stands hΓ rfl ⟨fun x hx => ?_, trivial⟩ (fun x hx => ?_) trivial
    · exact (hcontains x).mpr ((mem_of_get?_params hx).resolve_right nofun)
    · exact get?_params (.inl ((hcontains x).mp hx))
  rw [FunDecl.visits_eq] at hvisits
  have hbody := h.execAll f.decl.body _
    { w₁ with machine := { w₁.machine with current := g } } hshaped.body
    (fun v hv => hvisits v (List.mem_append_right _ hv)) hstands
  refine ((Keeps.inFrame hbody).widen fun _ _ heq => heq.trans hg.new).bind ?_
  rintro c w₂ hgoes₂ ⟨g', hc⟩
  refine Keeps.callResult room ((hf.later hgoes₁.later).later hgoes₂.later) ?_
  cases c with
  | giveBack v => exact (show ValueOk V w₂ v from ValueOk.later hc ⟨.refl _, List.prefix_refl _⟩)
  | _ => trivial

/-! ## Statements -/

theorem SoundAt.execAll_succ (h : SoundAt V turns room) (ss : List Stmt) :
    ∀ (Γ : Stack) (w : Watched), Stmt.AllShaped ss → (∀ v ∈ Stmt.visitsAll ss Γ, V v) →
      w.Stands Γ →
      Keeps V (· = w.machine.current) w (watchExecAll turns (room + 1) ss)
        fun c w' => CompletionOk V w' c := by
  show ∀ (Γ : Stack) (w : Watched), Stmt.AllShaped ss → (∀ v ∈ Stmt.visitsAll ss Γ, V v) →
      w.Stands Γ →
      Keeps V (· = w.machine.current) w (Run.untilLeft (watchExec turns room) ss)
        fun c w' => CompletionOk V w' c
  induction ss with
  | nil => exact fun _ _ _ _ _ => .pure trivial
  | cons s ss ih =>
    intro Γ w hss hvisits hs
    refine ((h.exec s Γ w hss.1 (fun v hv => hvisits v (List.mem_append_left _ hv))
      hs).widen fun _ _ hmay => hmay.2).bind ?_
    rintro c w₁ hgoes₁ ⟨hc, hs₁⟩
    cases c with
    | normal =>
      have hrest := ih _ w₁ hss.2 (fun v hv => hvisits v (List.mem_append_right _ hv)) hs₁
      exact hrest.widen fun _ _ heq => heq.trans hgoes₁.current
    | leave => exact .pure trivial
    | giveBack v => exact .pure hc

/-- A statement that declares nothing leaves a run where it stands. -/
theorem SoundAt.execBody (h : SoundAt V turns room) {s : Stmt} (hbody : s.isDeclaration = false)
    (hshaped : s.Shaped) (hvisits : ∀ v ∈ s.visits Γ, V v) (hs : w.Stands Γ) :
    Keeps V nowhere w (watchExec turns room s)
      fun c w' => CompletionOk V w' c ∧ w'.Stands Γ := by
  have hexec := h.exec s Γ w hshaped hvisits hs
  rw [Stmt.declare_of_isDeclaration_eq_false hbody] at hexec
  refine hexec.widen ?_
  rintro f - ⟨hdeclares, -⟩
  cases hbody.symm.trans hdeclares

/-- A loop keeps to the scopes around it. -/
theorem Keeps.repeatWhile {test : Watching (Value FrameId)}
    {body : Watching (Completion FrameId)} {Γ : Stack}
    (htest : ∀ w : Watched, w.Stands Γ → Keeps V nowhere w test fun _ _ => True)
    (hbody : ∀ w : Watched, w.Stands Γ →
      Keeps V nowhere w body fun c w' => CompletionOk V w' c) :
    ∀ (turns : Nat) (w : Watched), w.Stands Γ →
      Keeps V nowhere w (Run.repeatWhile test body turns) fun c w' => CompletionOk V w' c := by
  intro turns
  induction turns with
  | zero => exact fun _ _ => .throw _ Failure.outOfTurns_ne_breach
  | succ turns ih =>
    intro w hs
    refine (htest w hs).bind fun v w₁ hgoes₁ _ => .ite (fun _ => ?_) fun _ => .pure trivial
    have hs₁ := hs.goes hgoes₁
    refine (hbody w₁ hs₁).bind fun c w₂ hgoes₂ hc => ?_
    cases c with
    | normal => exact ih w₂ (hs₁.goes hgoes₂)
    | leave => exact .pure trivial
    | giveBack v => exact .pure hc

/-- The superclass of a class. -/
theorem Keeps.superclass (hV : ∀ v, V v → v.Settled) (room : Nat) {s : Option Reference}
    (hv : ∀ r ∈ s, V (.use .read r Γ)) (hs : w.Stands Γ) :
    Keeps V may w (watchSuperclass? room s) fun parent w' =>
      parent.isSome = s.isSome ∧ ∀ c ∈ parent, c.All (MethodOk V w') := by
  cases s with
  | none => exact .pure ⟨rfl, nofun⟩
  | some r =>
    have hvisit := hv r rfl
    obtain ⟨hdepth, -, hready⟩ := hV _ hvisit
    refine Keeps.noting ⟨Γ, hvisit, hs⟩ trivial fun w₁ hgoes => ?_
    refine Keeps.needing _ _ ?_
    refine (Keeps.readReference (hs.goes hgoes).chain hdepth hready).bind ?_
    rintro v _ - ⟨rfl, hok⟩
    cases v with
    | classValue c => exact .pure ⟨rfl, fun c' hc' => by cases hc'; exact hok⟩
    | _ => exact Keeps.fail _ _ _

/-- A method in the table of a class is one of its declarations, under its name and at home in
the frame given. -/
theorem methodTable_get? {frame : FrameId} {ms : List FunDecl} {x : String}
    {f : Closure FrameId} (h : (methodTable frame ms).get? x = some f) :
    ∃ d ∈ ms, d.name.lexeme = x ∧ f = ⟨d, frame, d.isInitializer⟩ := by
  obtain ⟨d, hd, he⟩ := List.mem_map.mp (Bindings.mem_of_get?_ofList h)
  cases he
  exact ⟨d, hd, rfl, rfl⟩

/-- The methods of a class are at home in the frame they are made for. -/
theorem classValueOk (site : ClassSite) (number : Nat) (name : String) {frame : FrameId}
    {Δ : Stack} {parent : Option (ClassValue FrameId)} (hΔ : w.Matches frame Δ)
    (hshaped : FunDecl.AllShaped site.methods)
    (hvisits : ∀ v ∈ FunDecl.visitsAll site.methods (.this site :: Δ), V v)
    (hparent : ∀ c ∈ parent, c.All (MethodOk V w)) :
    ValueOk V w
      (.classValue (.of ⟨number, name, methodTable frame site.methods⟩ parent)) := by
  refine ClassValue.All.of (fun x f hf => ?_) hparent
  obtain ⟨d, hd, -, rfl⟩ := methodTable_get? hf
  refine ⟨site, Δ, hΔ, FunDecl.allShaped_iff.mp hshaped d hd, hd, fun v hv => ?_⟩
  exact hvisits v (FunDecl.mem_visitsAll.mpr ⟨d, hd, hv⟩)

/-- **A class is declared** in three steps: its name is defined, the frame of its methods is
made if it has a superclass, and the name is given its value. -/
theorem Keeps.declareClass (hV : ∀ v, V v → v.Settled) (room : Nat) {n : Token}
    {s : Option Reference} {ms : List FunDecl} (hshaped : (Stmt.classDecl n s ms).Shaped)
    (hvisits : ∀ v ∈ (Stmt.classDecl n s ms).visits Γ, V v) (hs : w.Stands Γ) :
    Keeps V (· = w.machine.current) w (watchClass room n s ms) fun _ w' =>
      w'.Stands (Γ.enter n.lexeme true) := by
  obtain ⟨-, hfresh⟩ : (Visit.declare n Γ).Settled :=
    hV _ (hvisits _ (by cases s <;> exact List.mem_cons_self))
  have hmembers : ∀ v ∈ FunDecl.visitsAll ms
      (Stack.members ⟨n, s, ms⟩ (Γ.enter n.lexeme true)), V v := by
    intro v hv
    cases s <;> exact hvisits v (by simp [Stmt.visits, hv])
  have hsuper : ∀ r ∈ s, V (.use .read r (Γ.enter n.lexeme false)) := by
    rintro r hr
    cases hr
    exact hvisits _ (by simp [Stmt.visits])
  refine Keeps.before (Keeps.superclass hV room hsuper (hs.enter_pending hfresh)) ?_
  rintro parent w₁ hgoes₁ ⟨hsome, hparent⟩
  have hdefine := Keeps.define (V := V) (v := .nil) hshaped.1.2 (hs.goes hgoes₁)
    fun _ _ _ => trivial
  refine Keeps.needing _ _ (Keeps.bind_of hdefine (fun _ _ heq => heq.trans hgoes₁.current)
    (q := nowhere) (fun _ _ hn => hn.elim) ?_)
  intro _ w₂ hgoes₂ hs₂
  refine (Keeps.get (Q := fun a w' => a = w₂ ∧ w' = w₂) ⟨rfl, rfl⟩).bind ?_
  rintro _ _ - ⟨rfl, rfl⟩
  rename_i w₂
  -- whichever frame the methods are made for, the class is assigned in the frame of its name
  have hrest : ∀ (frame : FrameId) (Δ : Stack) (w₃ : Watched), w₂.Goes V nowhere w₃ →
      w₃.Matches frame Δ →
      Stack.members ⟨n, s, ms⟩ (Γ.enter n.lexeme true) = .this ⟨n, s, ms⟩ :: Δ →
      Keeps V nowhere w₃ (do
        Watching.lift (Run.need (if ms.isEmpty then Spare.make else 1 + Spare.make) room)
        let a ← get
        Watching.lift (modifyThe Machine fun m => { m with classCount := m.classCount + 1 })
        Watching.lift (Run.assignFrom w₂.machine.current n
          (.classValue (.of ⟨a.machine.classCount, n.lexeme, methodTable frame ms⟩ parent))))
        fun _ w' => w'.Stands (Γ.enter n.lexeme true) := by
    intro frame Δ w₃ hgoes₃ hΔ hsite
    refine Keeps.needing _ _ ((Keeps.get (Q := fun _ w' => w' = w₃) rfl).bind ?_)
    rintro a _ - rfl
    refine (Keeps.modify (g := fun m => { m with classCount := m.classCount + 1 }) (fun _ => rfl)
      (fun _ => rfl) fun _ => rfl).bind ?_
    intro _ w₄ hgoes₄ _
    have hlater : w₁.Later w₄ := hgoes₂.later.trans (hgoes₃.later.trans hgoes₄.later)
    rw [hsite] at hmembers
    have hclass := classValueOk ⟨n, s, ms⟩ a.machine.classCount n.lexeme
      (hgoes₄.later.matches_ hΔ) hshaped.2.2 hmembers
      fun c hc => (hparent c hc).imp fun f hf => hf.later hlater
    refine (Keeps.assignFrom hshaped.1 hclass).imp fun _ w₅ hgoes₅ _ => ?_
    exact ((hs₂.goes hgoes₃).goes hgoes₄).goes hgoes₅
  cases parent with
  | none =>
    have hnone : s.isSome = false := hsome.symm
    exact hrest _ _ w₂ (.refl hgoes₂.valid) hs₂.chain (by simp [Stack.members, hnone])
  | some c =>
    have hsome' : s.isSome = true := hsome.symm
    have hc : ValueOk V w₂ (.classValue c) :=
      ValueOk.later (v := .classValue c) (hparent c rfl) hgoes₂.later
    have hb : ∀ x v, (Bindings.ofList [(superName, Value.classValue c)]).get? x = some v →
        ValueOk V w₂ v := by
      intro x v hv
      obtain ⟨-, rfl⟩ := Bindings.of_get?_singleton hv
      exact hc
    refine Keeps.needing _ _ ((Keeps.newFrame (.parent ⟨n, s, ms⟩) _ hb).bind ?_)
    intro g w₃ hgoes₃ hg
    refine hrest g _ w₃ hgoes₃ (hg.lies (.super ⟨n, s, ms⟩) _ hs₂.chain rfl
      ⟨fun x hx => ?_, c, ?_⟩) (by simp [Stack.members, hsome'])
    · rw [Level.names_super, Bindings.get?_singleton] at hx
      rw [Bindings.contains_singleton]
      split at hx <;> simp_all
    · exact (Bindings.get?_singleton ..).trans (if_pos rfl)

/-- **A block** runs in a frame of its own. -/
theorem SoundAt.block (h : SoundAt V turns room) {body : List Stmt}
    (hshaped : Stmt.AllShaped body)
    (hvisits : ∀ v ∈ Stmt.visitsAll body (.block body {} :: Γ), V v) (hs : w.Stands Γ) :
    Keeps V nowhere w (do
        let frame ← Watching.newFrame (.block body) w.machine.current .empty
        Watching.inFrame frame (watchExecAll turns room body))
      fun c w' => CompletionOk V w' c := by
  refine Keeps.bind_of (p := nowhere) (q := (· = w.machine.frames.frames.size))
    (Keeps.newFrame (.block body) w.machine.current (b := .empty) fun _ _ hv => by cases hv)
    (fun _ _ h => h) (fun _ hlt heq => absurd heq (Nat.ne_of_lt hlt)) ?_
  intro g w₁ hgoes₁ hg
  have hstands : Watched.Stands { w₁ with machine := { w₁.machine with current := g } }
      (.block body {} :: Γ) := by
    refine hg.stands hs.chain rfl ⟨fun _ hx => ?_, trivial⟩ (fun _ hx => ?_) trivial
    · cases hx
    · cases hx
  have hbody := h.execAll body _ { w₁ with machine := { w₁.machine with current := g } } hshaped
    hvisits hstands
  refine ((Keeps.inFrame hbody).widen fun _ _ heq => heq.trans hg.new).mono ?_
  rintro c w₂ ⟨g', hc⟩
  cases c with
  | giveBack v => exact (show ValueOk V w₂ v from ValueOk.later hc ⟨.refl _, List.prefix_refl _⟩)
  | _ => trivial

theorem SoundAt.exec_succ (hV : ∀ v, V v → v.Settled) (h : SoundAt V turns room) (s : Stmt)
    (Γ : Stack) (w : Watched) (hshaped : s.Shaped) (hvisits : ∀ v ∈ s.visits Γ, V v)
    (hs : w.Stands Γ) :
    Keeps V (fun f => s.isDeclaration ∧ f = w.machine.current) w (watchExec turns (room + 1) s)
      fun c w' => CompletionOk V w' c ∧ w'.Stands (s.declare Γ) := by
  cases s with
  | expression e =>
    refine Keeps.before (h.eval e Γ w hshaped hvisits hs) fun v w₁ hgoes _ => ?_
    exact .pure ⟨trivial, hs.goes hgoes⟩
  | print e =>
    refine Keeps.before (h.eval e Γ w hshaped hvisits hs) fun v w₁ hgoes _ => Keeps.needing _ _ ?_
    refine Keeps.before (Keeps.modify (g := (·.write (v.render ++ "\n"))) (fun _ => rfl)
      (fun _ => rfl) fun _ => rfl) fun _ w₂ hgoes₂ _ => ?_
    exact .pure ⟨trivial, (hs.goes hgoes).goes hgoes₂⟩
  | var n e =>
    obtain ⟨-, hfresh⟩ : (Visit.declare n Γ).Settled :=
      hV _ (hvisits _ (by cases e <;> exact List.mem_cons_self))
    cases e with
    | none =>
      have hdefine := Keeps.define (V := V) (v := .nil) hshaped.1.2 hs fun _ _ _ => trivial
      refine Keeps.needing _ _ ((hdefine.widen fun _ _ heq => ⟨rfl, heq⟩).bind ?_)
      exact fun _ w₁ _ hs₁ => .pure ⟨trivial, hs₁⟩
    | some e =>
      refine Keeps.before (h.eval e _ w (hshaped.2 e rfl)
        (fun v hv => hvisits v (List.mem_cons_of_mem _ hv)) (hs.enter_pending hfresh)) ?_
      intro v w₁ hgoes hv
      have hdefine := Keeps.define hshaped.1.2 (hs.goes hgoes) fun w' hlater _ => hv.later hlater
      refine Keeps.needing _ _ ((hdefine.widen fun _ _ heq => ?_).bind ?_)
      · exact ⟨rfl, heq.trans hgoes.current⟩
      · exact fun _ w₂ _ hs₂ => .pure ⟨trivial, hs₂⟩
  | block body =>
    refine Keeps.needing _ _ (Keeps.before (Keeps.get (Q := fun a w' => a = w ∧ w' = w)
      ⟨rfl, rfl⟩) ?_)
    rintro _ _ - ⟨rfl, rfl⟩
    exact ((h.block hshaped hvisits hs).imp fun c w₁ hgoes hc => ⟨hc, hs.goes hgoes⟩).anywhere
  | branch t y n =>
    cases n with
    | none =>
      refine Keeps.before (h.eval t Γ w hshaped.1
        (fun v hv => hvisits v (List.mem_append_left _ hv)) hs) ?_
      intro v w₁ hgoes _
      have hs₁ := hs.goes hgoes
      refine Keeps.needing _ _ (.ite (fun _ => ?_) fun _ => .pure ⟨trivial, hs₁⟩)
      exact (h.execBody hshaped.2.1 hshaped.2.2
        (fun v hv => hvisits v (List.mem_append_right _ hv)) hs₁).anywhere
    | some n =>
      refine Keeps.before (h.eval t Γ w hshaped.1
        (fun v hv => hvisits v (List.mem_append_left _ hv)) hs) ?_
      intro v w₁ hgoes _
      have hs₁ := hs.goes hgoes
      refine Keeps.needing _ _ (.ite (fun _ => ?_) fun _ => ?_)
      · exact (h.execBody hshaped.2.1.1 hshaped.2.1.2
          (fun v hv => hvisits v (by simp [Stmt.visits, hv])) hs₁).anywhere
      · exact (h.execBody hshaped.2.2.1 hshaped.2.2.2
          (fun v hv => hvisits v (by simp [Stmt.visits, hv])) hs₁).anywhere
  | loop t body =>
    have htest : ∀ w : Watched, w.Stands Γ → Keeps V nowhere w (do
          let v ← watchEval turns room t
          Watching.lift (Run.need Spare.truth room)
          return v) fun _ _ => True := by
      intro w hs
      refine (h.eval t Γ w hshaped.1 (fun v hv => hvisits v (List.mem_append_left _ hv)) hs).bind ?_
      exact fun v w₁ _ _ => Keeps.needing _ _ (.pure trivial)
    have hbody : ∀ w : Watched, w.Stands Γ →
        Keeps V nowhere w (watchExec turns room body) fun c w' => CompletionOk V w' c :=
      fun w hs => (h.execBody hshaped.2.1 hshaped.2.2
        (fun v hv => hvisits v (List.mem_append_right _ hv)) hs).mono fun c w₁ hc => hc.1
    exact ((Keeps.repeatWhile htest hbody turns w hs).imp
      fun c w₁ hgoes hc => ⟨hc, hs.goes hgoes⟩).anywhere
  | leave k => exact .pure ⟨trivial, hs⟩
  | giveBack k e =>
    cases e with
    | none => exact Keeps.needing _ _ (.pure ⟨trivial, hs⟩)
    | some e =>
      refine Keeps.before (h.eval e Γ w (hshaped e rfl) hvisits hs) fun v w₁ hgoes hv => ?_
      exact Keeps.needing _ _ (.pure ⟨hv, hs.goes hgoes⟩)
  | function d =>
    refine Keeps.needing _ _ (Keeps.before (Keeps.get (Q := fun a w' => a = w ∧ w' = w)
      ⟨rfl, rfl⟩) ?_)
    rintro _ _ - ⟨rfl, rfl⟩
    rename_i w
    refine ((Keeps.define (FunDecl.Shaped.name hshaped).2 hs fun w' _ hΓ' => ?_).widen
      fun _ _ heq => ⟨rfl, heq⟩).bind ?_
    · exact ⟨_, hΓ', hshaped, fun v hv => hvisits v (List.mem_cons_of_mem _ hv),
        fun h => by cases h⟩
    · exact fun _ w₁ _ hs₁ => .pure ⟨trivial, hs₁⟩
  | classDecl n s ms =>
    refine Keeps.needing _ _ (((Keeps.declareClass hV _ hshaped hvisits hs).widen
      fun _ _ heq => ⟨rfl, heq⟩).bind ?_)
    exact fun _ w₁ _ hs₁ => .pure ⟨trivial, hs₁⟩

/-- **The evaluator keeps the invariant.** -/
theorem soundAt (hV : ∀ v, V v → v.Settled) (turns room : Nat) : SoundAt V turns room := by
  induction room with
  | zero =>
    have hstop {α : Type} {may : FrameId → Prop} (w : Watched) (Q : α → Watched → Prop) :
        Keeps V may w (MonadExcept.throw Failure.stackOverflow) Q :=
      .throw Q Failure.stackOverflow_ne_breach
    exact ⟨fun _ _ _ _ _ _ => hstop _ _, fun _ _ _ _ _ _ => hstop _ _,
      fun _ _ _ _ _ _ => hstop _ _, fun _ _ _ _ _ _ => hstop _ _,
      fun _ _ _ _ _ _ => hstop _ _, fun _ _ _ _ _ _ => hstop _ _,
      fun _ _ _ _ _ _ => hstop _ _⟩
  | succ room h =>
    exact ⟨h.eval_succ hV, fun es Γ => h.evalAll_succ es Γ, h.call_succ, h.construct_succ,
      h.invoke_succ, h.execAll_succ, h.exec_succ hV⟩

/-- **A program whose visits are settled keeps the invariant.** -/
theorem keeps_watchRunAll (hV : ∀ v, V v → v.Settled) (turns room : Nat) :
    ∀ (p : List Stmt) (w : Watched), Stmt.AllShaped p → (∀ v ∈ Stmt.visitsAll p [], V v) →
      w.machine.current = globalFrame →
      Keeps V (· = globalFrame) w (runAll (watchExec turns room) p) fun _ _ => True := by
  intro p
  induction p with
  | nil => exact fun _ _ _ _ => .pure trivial
  | cons s p ih =>
    intro w hp hvisits hcurrent hw
    have hs : w.Stands [] := ⟨hcurrent, by simp, trivial, hcurrent ▸ hw.size_pos⟩
    refine (((soundAt hV turns room).exec s [] w hp.1
      (fun v hv => hvisits v (List.mem_append_left _ hv)) hs).widen
      fun _ _ hmay => hmay.2.trans hcurrent).bind ?_ hw
    intro c w₁ hgoes _
    have hglobal : s.declare [] = [] := by cases s <;> rfl
    have hrest := ih w₁ hp.2 (fun v hv => hvisits v (List.mem_append_right _ (by rwa [hglobal])))
      (hgoes.current.trans hcurrent)
    cases c with
    | giveBack v => exact .pure trivial
    | _ => exact hrest

end

end Machine
end LoxKit
