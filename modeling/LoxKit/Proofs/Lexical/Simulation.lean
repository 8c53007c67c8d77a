import LoxKit.Proofs.Lexical.Declare

/-!
# Distances implement lexical scoping

A program is evaluated by a machine, which follows the distances, and by a world, which has
none.  If its visits are settled, the two mirror each other (`MirrorsAt.eval`,
`MirrorsAt.exec`).

The proof follows the two evaluators at once, by induction on the room of both: one lemma for
each function, from all of them with less room.  The machine needs spare room in places where
the world does not, so it may run out of room first if it does not have `Spare.most` more.
-/
namespace LoxKit

open Scope Twin

/-! ## Spare room -/

namespace Spare

/-- What no step needs more of. -/
def most : Nat := 8

theorem read_le (r : Reference) : read r ≤ 4 := by
  unfold read
  split <;> omega

theorem write_lt (r : Reference) : write r < most := by
  unfold write most
  split <;> omega

theorem words_le (v : Value FrameId) : words v ≤ 4 := by
  unfold words
  split <;> omega

theorem compare_lt (v : Value FrameId) : compare v < most := by
  unfold compare most
  split <;> omega

theorem binary_lt (op : Token) (a b : Value FrameId) : binary op a b < most := by
  have ha := words_le a
  have hb := words_le b
  have hc := compare_lt a
  unfold most at hc ⊢
  unfold binary
  cases op.kind with
  | plus =>
    dsimp only
    split <;> omega
  | equalEqual | bangEqual => exact hc
  | _ =>
    dsimp only
    omega

theorem unary_lt (op : Token) : unary op < most := by
  unfold unary most
  split <;> omega

end Spare

/-! ## What is called -/

section

variable {L : Leeway} {t : Twin} {Γ : Stack} {ρ : Lexical.Env} {turns room fuel : Nat}

theorem mirrors_liftExcept {may : FrameId → Prop} {r : Operator.Result FrameId}
    {r' : Operator.Result Lexical.Env} (h : Operator.Alike (ValueLike t.ties) r r') :
    Mirrors L may t (liftExcept r) (liftExcept r') fun v v' t' => ValueLike t'.ties v v' := by
  cases h with
  | ok hv => exact Mirrors.pure (Q := fun v v' t' => ValueLike t'.ties v v') hv
  | error e => exact .throw e _

/-- **A method bound to an object** is alike on both sides. -/
theorem mirrors_bind {f : Closure FrameId} {f' : Closure Lexical.Env}
    {this : Value FrameId} {this' : Value Lexical.Env} (hf : MethodLike t.ties f f')
    (hthis : ValueLike t.ties this this') :
    Mirrors L nowhere t (Run.bind f this) (Lexical.Step.bind f' this')
      fun g g' t' => FunctionLike t'.ties g g' ∧ g.decl = f.decl := by
  obtain ⟨hdecl, hinit, hshaped, site, Δ, hΔ, hvisits⟩ := hf
  refine (Mirrors.extendFrame (l := .this site) hΔ rfl hthis).bind ?_
  intro g ρ' t' _ hg
  exact .pure ⟨⟨hdecl, hinit, hshaped, .this site :: Δ, hg, hvisits, fun _ => ⟨site, Δ, rfl⟩⟩, rfl⟩

/-- **A method that is looked up** and bound to an object. -/
theorem mirrors_method {c : ClassValue FrameId} {c' : ClassValue Lexical.Env}
    {this : Value FrameId} {this' : Value Lexical.Env} (hc : ClassLike t.ties c c')
    (hthis : ValueLike t.ties this this') (x : String) (place : Token) (e : RunError) :
    Mirrors L nowhere t
      (match c.method? x with
        | some f => do return .function (← Run.bind f this)
        | none => Run.fail place e)
      (match c'.method? x with
        | some f => do return .function (← Lexical.Step.bind f this')
        | none => Lexical.Step.fail place e)
      fun v v' t' => ValueLike t'.ties v v' := by
  have hmethod := hc.method? x
  generalize c.method? x = f at hmethod ⊢
  generalize c'.method? x = f' at hmethod ⊢
  cases hmethod with
  | none => exact .fail _ _ _
  | some hf =>
    refine (mirrors_bind hf hthis).bind ?_
    intro g g' t' _ hg
    exact .pure (.function hg.1)

/-- **The property of an object** is alike on both sides. -/
theorem mirrors_property (hL : room < Spare.most → L.machine) (id : ObjectId)
    {c : ClassValue FrameId} {c' : ClassValue Lexical.Env} (hc : ClassLike t.ties c c')
    (n : Token) :
    Mirrors L nowhere t (Machine.property room id c n) (Lexical.property id c' n)
      fun v v' t' => ValueLike t'.ties v v' := by
  intro ht
  have hfield := ht.fields id n.lexeme
  refine Mirrors.lookingBoth (Q := fun v v' t' => ValueLike t'.ties v v') ?_ ht
  generalize (t.machine.fields[id]?.getD .empty).get? n.lexeme = v at hfield ⊢
  generalize (t.world.fields[id]?.getD .empty).get? n.lexeme = v' at hfield ⊢
  cases hfield with
  | some hv => exact .needing (fun h => hL (Nat.lt_trans h (by decide))) (.pure hv)
  | none =>
    refine Mirrors.needing (fun h => hL (Nat.lt_trans h (by decide))) ?_
    exact mirrors_method hc (.object id hc) n.lexeme n _

/-- **A method of the superclass** is alike on both sides. -/
theorem mirrors_superMethod (hL : room < Spare.most → L.machine) (hs : t.Stands Γ ρ)
    {r : Reference} (hsettled : (Visit.use .super r Γ).Settled) (m : Token) :
    Mirrors L nowhere t (Machine.superMethod room r m) (Lexical.superMethod ρ m)
      fun v v' t' => ValueLike t'.ties v v' := by
  obtain ⟨hdepth, hname, d, site, hhops, hthisDepth, hthis, hsuper⟩ := hsettled
  have hdepth' : Γ.depth? superName = some (d + 1) := by
    rw [← hname, ← hdepth, hhops]
  obtain ⟨g, ℓ, hg, hℓ, hlookup⟩ := hs.represents.lookup_some hdepth' hsuper (by simp)
  obtain ⟨g', ℓ', hg', hℓ', hlookup'⟩ := hs.represents.lookup_some hthisDepth hthis (by simp)
  have hparentCell : ρ.cell? "super" = some ℓ := hlookup
  have hthisCell : ρ.cell? "this" = some ℓ' := hlookup'
  unfold Machine.superMethod Lexical.superMethod
  rw [hhops, hparentCell, hthisCell]
  refine Mirrors.needing (fun h => hL (Nat.lt_trans h (by decide))) ?_
  refine (Mirrors.readAt (g := g) rfl (by simpa using hg) hℓ).bind ?_
  rintro parent parent' _ - ⟨rfl, hparent, -⟩
  refine (Mirrors.readAt (g := g') rfl (by simpa using hg') hℓ').bind ?_
  rintro this this' _ - ⟨rfl, hthis, -⟩
  cases hparent with
  | classValue hc => exact mirrors_method hc hthis m.lexeme m _
  | _ => exact .throw _ _

/-! ## The pass -/

/-- **The functions of both evaluators mirror each other**, with so much room. -/
structure MirrorsAt (L : Leeway) (turns room fuel : Nat) : Prop where
  eval : ∀ e Γ ρ t, e.Shaped → (∀ v ∈ e.visits Γ, v.Settled) → t.Stands Γ ρ →
    Mirrors L nowhere t (Machine.eval turns room e) (Lexical.eval turns fuel ρ e.bare)
      fun v v' t' => ValueLike t'.ties v v'
  evalAll : ∀ es Γ ρ t, Expr.AllShaped es → (∀ v ∈ Expr.visitsAll es Γ, v.Settled) →
    t.Stands Γ ρ →
    Mirrors L nowhere t (Machine.evalAll turns room es)
      (Lexical.evalAll turns fuel ρ (Expr.bareAll es))
      fun vs vs' t' => List.Forall₂ (ValueLike t'.ties) vs vs'
  call : ∀ f f' vs vs' t, ValueLike t.ties f f' → List.Forall₂ (ValueLike t.ties) vs vs' →
    Machine.arity? f = some vs.length →
    Mirrors L nowhere t (Machine.call turns room f vs) (Lexical.call turns fuel f' vs')
      fun v v' t' => ValueLike t'.ties v v'
  construct : ∀ c c' vs vs' t, ClassLike t.ties c c' → List.Forall₂ (ValueLike t.ties) vs vs' →
    c.arity = vs.length →
    Mirrors L nowhere t (Machine.construct turns room c vs) (Lexical.construct turns fuel c' vs')
      fun v v' t' => ValueLike t'.ties v v'
  invoke : ∀ f f' vs vs' t, FunctionLike t.ties f f' → List.Forall₂ (ValueLike t.ties) vs vs' →
    f.decl.arity = vs.length →
    Mirrors L nowhere t (Machine.invoke turns room f vs) (Lexical.invoke turns fuel f' vs')
      fun v v' t' => ValueLike t'.ties v v'
  execAll : ∀ ss Γ ρ t, Stmt.AllShaped ss → (∀ v ∈ Stmt.visitsAll ss Γ, v.Settled) →
    t.Stands Γ ρ →
    Mirrors L (· = t.machine.current) t (Machine.execAll turns room ss)
      (Lexical.execAll turns fuel ρ (Stmt.bareAll ss))
      fun c c' t' => CompletionLike t'.ties c c'
  exec : ∀ s Γ ρ t, s.Shaped → (∀ v ∈ s.visits Γ, v.Settled) → t.Stands Γ ρ →
    Mirrors L (fun f => s.isDeclaration ∧ f = t.machine.current) t (Machine.exec turns room s)
      (Lexical.exec turns fuel ρ s.bare)
      fun c c' t' => CompletionLike t'.ties c c'.1 ∧ t'.Stands (s.declare Γ) c'.2

theorem MirrorsAt.eval_succ (hL : room < Spare.most → L.machine)
    (h : MirrorsAt L turns room fuel) (e : Expr) (Γ : Stack) (ρ : Lexical.Env) (t : Twin)
    (he : e.Shaped) (hvisits : ∀ v ∈ e.visits Γ, v.Settled) (hs : t.Stands Γ ρ) :
    Mirrors L nowhere t (Machine.eval turns (room + 1) e) (Lexical.eval turns (fuel + 1) ρ e.bare)
      fun v v' t' => ValueLike t'.ties v v' := by
  cases e with
  | literal v => exact .pure (Q := fun v v' t' => ValueLike t'.ties v v') (valueLike_ofLiteral v)
  | group e => exact h.eval e Γ ρ t he hvisits hs
  | name r =>
    obtain ⟨hdepth, -, hready⟩ := hvisits _ List.mem_cons_self
    refine Mirrors.needing (fun hlt => hL ?_) ?_
    · have hread := Spare.read_le r
      unfold Spare.most
      omega
    · refine (Mirrors.read hs hdepth hready).imp ?_
      rintro v v' t' - ⟨rfl, hv⟩
      exact hv
  | self r =>
    obtain ⟨hdepth, hname, d, site, hhops, hl⟩ := hvisits _ List.mem_cons_self
    have hready : ∀ d l, r.hops = some d → Γ[d]? = some l →
        l.names.get? r.name.lexeme = some true := by
      intro d' l hd' hl'
      cases hhops.symm.trans hd'
      cases hl.symm.trans hl'
      simp [hname]
    refine Mirrors.needing (fun hlt => hL ?_) ?_
    · have hread := Spare.read_le r
      unfold Spare.most
      omega
    · refine (Mirrors.read hs hdepth hready).imp ?_
      rintro v v' t' - ⟨rfl, hv⟩
      exact hv
  | assign r e =>
    have hv := hvisits (.use .assign r Γ) (by simp [Expr.visits])
    intro ht
    refine (h.eval e Γ ρ t he.2 (fun v hv => hvisits v (by simp [Expr.visits, hv])) hs).bind
      ?_ ht
    intro v v' t₁ hgoes hlike
    refine Mirrors.needing (fun hlt => hL (Nat.lt_trans hlt (Spare.write_lt r))) ?_
    refine (Mirrors.write (hs.goes ht hgoes) hv hlike).bind ?_
    intro _ _ t₂ hgoes₂ _
    exact .pure (hlike.later hgoes₂.later)
  | unary op e =>
    refine (h.eval e Γ ρ t he.2 hvisits hs).bind ?_
    intro v v' t₁ _ hlike
    refine Mirrors.needing (fun hlt => hL (Nat.lt_trans hlt (Spare.unary_lt op))) ?_
    exact mirrors_liftExcept (valueLike_respects.unary hlike op)
  | binary l op r =>
    intro ht
    refine (h.eval l Γ ρ t he.2.1 (fun v hv => hvisits v (List.mem_append_left _ hv)) hs).bind
      ?_ ht
    intro a a' t₁ hgoes ha
    refine (h.eval r Γ ρ t₁ he.2.2 (fun v hv => hvisits v (List.mem_append_right _ hv))
      (hs.goes ht hgoes)).bind ?_
    intro b b' t₂ hgoes₂ hb
    refine Mirrors.needing (fun hlt => hL (Nat.lt_trans hlt (Spare.binary_lt op a b))) ?_
    exact mirrors_liftExcept (valueLike_respects.binary (ha.later hgoes₂.later) hb op)
  | logical l op r =>
    intro ht
    refine (h.eval l Γ ρ t he.1 (fun v hv => hvisits v (List.mem_append_left _ hv)) hs).bind
      ?_ ht
    intro a a' t₁ hgoes ha
    refine Mirrors.needing (fun hlt => hL (Nat.lt_trans hlt (by decide))) ?_
    refine .ite (by rw [valueLike_respects.decides ha op]) (fun _ => .pure ha) fun _ => ?_
    exact h.eval r Γ ρ t₁ he.2 (fun v hv => hvisits v (List.mem_append_right _ hv))
      (hs.goes ht hgoes)
  | conditional c y n =>
    intro ht
    refine (h.eval c Γ ρ t he.1 (fun v hv => hvisits v (List.mem_append_left _ hv)) hs).bind
      ?_ ht
    intro a a' t₁ hgoes ha
    have hs₁ := hs.goes ht hgoes
    refine Mirrors.needing (fun hlt => hL (Nat.lt_trans hlt (by decide))) ?_
    refine .ite (by rw [ha.truthy]) (fun _ => ?_) fun _ => ?_
    · exact h.eval y Γ ρ t₁ he.2.1 (fun v hv => hvisits v (by simp [Expr.visits, hv])) hs₁
    · exact h.eval n Γ ρ t₁ he.2.2 (fun v hv => hvisits v (by simp [Expr.visits, hv])) hs₁
  | call f paren args =>
    intro ht
    refine (h.eval f Γ ρ t he.1 (fun v hv => hvisits v (List.mem_append_left _ hv)) hs).bind
      ?_ ht
    intro callee callee' t₁ hgoes hcallee
    refine (h.evalAll args Γ ρ t₁ he.2 (fun v hv => hvisits v (List.mem_append_right _ hv))
      (hs.goes ht hgoes)).bind ?_
    intro vs vs' t₂ hgoes₂ hvs
    refine Mirrors.needing (fun hlt => hL (Nat.lt_trans hlt (by decide))) ?_
    have hlen : vs'.length = vs.length := hvs.length_eq.symm
    rw [hcallee.arity?, hlen]
    cases harity : Machine.arity? callee with
    | none => exact .fail _ _ _
    | some n =>
      refine .ite Iff.rfl (fun _ => .fail _ _ _) fun hn => ?_
      refine Mirrors.bind (Mirrors.step (Q := fun _ _ _ => True) (t₂.setLine paren.line) rfl rfl
        fun ht => ⟨ht.setLine paren.line, trivial⟩) ?_
      intro _ _ t₃ hgoes₃ _
      refine h.call callee callee' vs vs' t₃ ((hcallee.later hgoes₂.later).later hgoes₃.later)
        (hvs.imp fun _ _ hv => hv.later hgoes₃.later) ?_
      rw [harity, Decidable.not_not.mp hn]
  | get o p =>
    refine (h.eval o Γ ρ t he hvisits hs).bind ?_
    intro v v' t₁ _ hv
    cases hv with
    | object id hc => exact mirrors_property hL id hc p
    | _ => exact .fail _ _ _
  | set o p e =>
    intro ht
    refine (h.eval o Γ ρ t he.1 (fun v hv => hvisits v (List.mem_append_right _ hv)) hs).bind
      ?_ ht
    intro v v' t₁ hgoes hv
    cases hv with
    | object id hc =>
      refine (h.eval e Γ ρ t₁ he.2 (fun v hv => hvisits v (List.mem_append_left _ hv))
        (hs.goes ht hgoes)).bind ?_
      intro w w' t₂ _ hw
      refine Mirrors.needing (fun hlt => hL (Nat.lt_trans hlt (by decide))) ?_
      refine Mirrors.bind (Mirrors.step (Q := fun _ _ _ => True) (t₂.setField id p.lexeme w w')
        rfl rfl fun ht => ⟨ht.setField id p.lexeme hw, trivial⟩) ?_
      intro _ _ t₃ hgoes₃ _
      exact .pure (hw.later hgoes₃.later)
    | _ => exact .fail _ _ _
  | super r m => exact mirrors_superMethod hL hs (hvisits _ List.mem_cons_self) m

/-! ## Calls -/

theorem MirrorsAt.evalAll_succ (h : MirrorsAt L turns room fuel) (es : List Expr) (Γ : Stack)
    (ρ : Lexical.Env) : ∀ t : Twin, Expr.AllShaped es →
      (∀ v ∈ Expr.visitsAll es Γ, v.Settled) → t.Stands Γ ρ →
      Mirrors L nowhere t (Machine.evalAll turns (room + 1) es)
        (Lexical.evalAll turns (fuel + 1) ρ (Expr.bareAll es))
        fun vs vs' t' => List.Forall₂ (ValueLike t'.ties) vs vs' := by
  show ∀ t : Twin, Expr.AllShaped es → (∀ v ∈ Expr.visitsAll es Γ, v.Settled) → t.Stands Γ ρ →
      Mirrors L nowhere t (es.mapM (Machine.eval turns room))
        ((Expr.bareAll es).mapM (Lexical.eval turns fuel ρ))
        fun vs vs' t' => List.Forall₂ (ValueLike t'.ties) vs vs'
  induction es with
  | nil =>
    intro t _ _ _
    rw [Expr.bareAll, List.mapM_nil, List.mapM_nil]
    exact .pure (Q := fun vs vs' t' => List.Forall₂ (ValueLike t'.ties) vs vs') .nil
  | cons e es ih =>
    intro t hes hvisits hs ht
    rw [Expr.bareAll, List.mapM_cons, List.mapM_cons]
    refine (h.eval e Γ ρ t hes.1 (fun v hv => hvisits v (List.mem_append_left _ hv)) hs).bind
      ?_ ht
    intro v v' t₁ hgoes hv
    refine (ih t₁ hes.2 (fun v hv => hvisits v (List.mem_append_right _ hv))
      (hs.goes ht hgoes)).bind ?_
    intro vs vs' t₂ hgoes₂ hvs
    exact .pure (.cons (hv.later hgoes₂.later) hvs)

theorem MirrorsAt.call_succ (hL : room < Spare.most → L.machine)
    (h : MirrorsAt L turns room fuel) (f : Value FrameId) (f' : Value Lexical.Env)
    (vs : List (Value FrameId)) (vs' : List (Value Lexical.Env)) (t : Twin)
    (hf : ValueLike t.ties f f') (hvs : List.Forall₂ (ValueLike t.ties) vs vs')
    (harity : Machine.arity? f = some vs.length) :
    Mirrors L nowhere t (Machine.call turns (room + 1) f vs)
      (Lexical.call turns (fuel + 1) f' vs') fun v v' t' => ValueLike t'.ties v v' := by
  cases hf with
  | function hf => exact h.invoke _ _ vs vs' t hf hvs (Option.some.inj harity)
  | native f =>
    cases f
    refine Mirrors.needing (fun hlt => hL (Nat.lt_trans hlt (by decide))) ?_
    intro ht
    have hreading : t.world.clock t.world.readings = t.machine.clock t.machine.readings := by
      rw [ht.clock, ht.readings]
    refine .ok ht.countReading ?_
    rw [hreading]
    exact .number _
  | classValue hc => exact h.construct _ _ vs vs' t hc hvs (Option.some.inj harity)
  | _ => cases harity

theorem MirrorsAt.construct_succ (hL : room < Spare.most → L.machine)
    (h : MirrorsAt L turns room fuel) (c : ClassValue FrameId) (c' : ClassValue Lexical.Env)
    (vs : List (Value FrameId)) (vs' : List (Value Lexical.Env)) (t : Twin)
    (hc : ClassLike t.ties c c') (hvs : List.Forall₂ (ValueLike t.ties) vs vs')
    (harity : c.arity = vs.length) :
    Mirrors L nowhere t (Machine.construct turns (room + 1) c vs)
      (Lexical.construct turns (fuel + 1) c' vs') fun v v' t' => ValueLike t'.ties v v' := by
  refine Mirrors.needing (fun hlt => hL (Nat.lt_trans hlt (by decide))) ?_
  have hobject : Mirrors L nowhere t (Run.newObject c) (Lexical.Step.newObject c')
      fun v v' t' => ValueLike t'.ties v v' := by
    intro ht
    refine .ok ht.newObject ?_
    rw [ht.fields_size]
    exact .object _ hc
  refine hobject.bind ?_
  intro object object' t₁ hgoes hobject
  have hmethod := (hc.later hgoes.later).method? "init"
  have hinit : c.arity = ((c.method? "init").map (·.decl.arity)).getD 0 := rfl
  unfold ClassValue.initializer?
  generalize c.method? "init" = f at hmethod hinit ⊢
  generalize c'.method? "init" = f' at hmethod ⊢
  cases hmethod with
  | none => exact .pure (Q := fun v v' t' => ValueLike t'.ties v v') hobject
  | @some f f' hf =>
    refine Mirrors.needing (fun hlt => hL (Nat.lt_trans hlt (by decide))) ?_
    refine (mirrors_bind hf hobject).bind ?_
    rintro g g' t₂ hgoes₂ ⟨hg, hdecl⟩
    have hlater := hgoes.later.trans hgoes₂.later
    refine (h.invoke g g' vs vs' t₂ hg (hvs.imp fun _ _ hv => hv.later hlater) ?_).bind ?_
    · rw [hdecl, ← harity, hinit]
      rfl
    · intro _ _ t₃ hgoes₃ _
      exact .pure ((hobject.later hgoes₂.later).later hgoes₃.later)

/-- **What a call yields** is alike on both sides. -/
theorem mirrors_callResult (hL : room < Spare.most → L.machine) {f : Closure FrameId}
    {f' : Closure Lexical.Env} {c : Completion FrameId} {c' : Completion Lexical.Env}
    (hf : FunctionLike t.ties f f') (hc : CompletionLike t.ties c c') :
    Mirrors L nowhere t (Machine.callResult room f c) (Lexical.callResult f' c')
      fun v v' t' => ValueLike t'.ties v v' := by
  obtain ⟨-, hinitializer, -, Γ, hΓ, -, hthis⟩ := hf
  unfold Machine.callResult Lexical.callResult
  rw [hinitializer]
  cases hinit : f.isInitializer with
  | true =>
    obtain ⟨site, Δ, rfl⟩ := hthis hinit
    obtain ⟨-, -, -, -, hready, -⟩ := hΓ
    obtain ⟨ℓ, hℓ, hlookup⟩ := hready thisName (by simp)
    have hcell : f'.home.cell? "this" = some ℓ := hlookup
    rw [hcell, if_pos rfl, if_pos rfl]
    refine Mirrors.needing (fun hlt => hL (Nat.lt_trans hlt (by decide))) (.looking ?_)
    intro ht
    obtain ⟨v, v', hv, hv', hlike⟩ := ht.held f.home thisName ℓ hℓ
    have hget : t.machine.frames.getAt f.home 0 "this" = .ok v := Store.getAt_of_bound rfl hv
    rw [hget]
    dsimp only
    rw [Lexical.Step.content_eq hv']
    exact .ok (Goes.refl ht) hlike
  | false =>
    cases hc with
    | giveBack hv => exact .pure (Q := fun v v' t' => ValueLike t'.ties v v') hv
    | _ => exact .pure (Q := fun v v' t' => ValueLike t'.ties v v') .nil

theorem MirrorsAt.invoke_succ (hL : room < Spare.most → L.machine)
    (h : MirrorsAt L turns room fuel) (f : Closure FrameId) (f' : Closure Lexical.Env)
    (vs : List (Value FrameId)) (vs' : List (Value Lexical.Env)) (t : Twin)
    (hf : FunctionLike t.ties f f') (hvs : List.Forall₂ (ValueLike t.ties) vs vs')
    (harity : f.decl.arity = vs.length) :
    Mirrors L nowhere t (Machine.invoke turns (room + 1) f vs)
      (Lexical.invoke turns (fuel + 1) f' vs') fun v v' t' => ValueLike t'.ties v v' := by
  obtain ⟨hdecl, -, hshaped, Γ, hΓ, hvisits, -⟩ := id hf
  simp only [Lexical.invoke, hdecl, FunDecl.bare_params, FunDecl.bare_body]
  refine Mirrors.needing (fun hlt => hL (Nat.lt_trans hlt (by decide))) ?_
  -- the body binds names in the frame of the call alone, which is new
  have hopen := Mirrors.openCall (L := L) (ρ := f'.home.inside) hΓ rfl hvisits hvs harity
  refine hopen.bind_of (q := (· = t.size)) (fun _ _ h => h)
    (fun _ hlt heq => absurd heq (Nat.ne_of_lt hlt)) ?_
  rintro _ ρ t₁ hgoes ⟨rfl, hs⟩
  rw [FunDecl.visits_eq] at hvisits
  have hbody := Mirrors.inFrame (h.execAll f.decl.body _ ρ _ hshaped.body
    (fun v hv => hvisits v (List.mem_append_right _ hv)) hs) fun _ _ _ _ hc => hc
  refine Mirrors.bind_of (q := nowhere) hbody (fun _ _ h => h) (fun _ _ h => h.elim) ?_
  intro c c' t₂ hgoes₂ hc
  exact mirrors_callResult hL (hf.later (hgoes.later.trans hgoes₂.later)) hc

/-! ## Statements -/

theorem MirrorsAt.execAll_succ (h : MirrorsAt L turns room fuel) (ss : List Stmt) :
    ∀ (Γ : Stack) (ρ : Lexical.Env) (t : Twin), Stmt.AllShaped ss →
      (∀ v ∈ Stmt.visitsAll ss Γ, v.Settled) → t.Stands Γ ρ →
      Mirrors L (· = t.machine.current) t (Machine.execAll turns (room + 1) ss)
        (Lexical.execAll turns (fuel + 1) ρ (Stmt.bareAll ss))
        fun c c' t' => CompletionLike t'.ties c c' := by
  show ∀ (Γ : Stack) (ρ : Lexical.Env) (t : Twin), Stmt.AllShaped ss →
      (∀ v ∈ Stmt.visitsAll ss Γ, v.Settled) → t.Stands Γ ρ →
      Mirrors L (· = t.machine.current) t (Run.untilLeft (Machine.exec turns room) ss)
        (Lexical.inOrder (Lexical.exec turns fuel) ρ (Stmt.bareAll ss))
        fun c c' t' => CompletionLike t'.ties c c'
  induction ss with
  | nil =>
    intro Γ ρ t _ _ _
    exact .pure (Q := fun c c' t' => CompletionLike t'.ties c c') .normal
  | cons s ss ih =>
    intro Γ ρ t hss hvisits hs
    refine Mirrors.bind_of (h.exec s Γ ρ t hss.1
      (fun v hv => hvisits v (List.mem_append_left _ hv)) hs) (fun _ _ h => h.2)
      (fun _ _ h => h) ?_
    rintro c ⟨c', ρ'⟩ t₁ hgoes ⟨hc, hs₁⟩
    cases hc with
    | normal =>
      have hrest := ih _ ρ' t₁ hss.2 (fun v hv => hvisits v (List.mem_append_right _ hv)) hs₁
      rw [hgoes.current] at hrest
      exact hrest
    | leave => exact .pure (Q := fun c c' t' => CompletionLike t'.ties c c') .leave
    | giveBack hv => exact .pure (Q := fun c c' t' => CompletionLike t'.ties c c') (.giveBack hv)

/-- **A loop** is alike on both sides if its test and its body are. -/
theorem mirrors_repeatWhile {test : Run (Value FrameId)}
    {test' : Lexical.Step (Value Lexical.Env)} {body : Run (Completion FrameId)}
    {body' : Lexical.Step (Completion Lexical.Env)}
    (htest : ∀ t : Twin, t.Stands Γ ρ →
      Mirrors L nowhere t test test' fun v v' t' => ValueLike t'.ties v v')
    (hbody : ∀ t : Twin, t.Stands Γ ρ →
      Mirrors L nowhere t body body' fun c c' t' => CompletionLike t'.ties c c') :
    ∀ (turns : Nat) (t : Twin), t.Stands Γ ρ →
      Mirrors L nowhere t (Run.repeatWhile test body turns) (Run.repeatWhile test' body' turns)
        fun c c' t' => CompletionLike t'.ties c c' := by
  intro turns
  induction turns with
  | zero => exact fun t _ => .throw _ _
  | succ turns ih =>
    intro t hs ht
    refine (htest t hs).bind ?_ ht
    intro v v' t₁ hgoes hv
    have hs₁ := hs.goes ht hgoes
    refine .ite (by rw [hv.truthy]) (fun _ => ?_) fun _ =>
      .pure (Q := fun c c' t' => CompletionLike t'.ties c c') .normal
    refine (hbody t₁ hs₁).bind ?_
    intro c c' t₂ hgoes₂ hc
    cases hc with
    | normal => exact ih t₂ (hs₁.goes hgoes.agrees hgoes₂)
    | leave => exact .pure (Q := fun c c' t' => CompletionLike t'.ties c c') .normal
    | giveBack hv => exact .pure (Q := fun c c' t' => CompletionLike t'.ties c c') (.giveBack hv)

/-- The superclass of a class is alike on both sides. -/
theorem mirrors_superclass (hL : room + 1 < Spare.most → L.machine) (hs : t.Stands Γ ρ)
    {s : Option Reference} (hv : ∀ r ∈ s, (Visit.use .read r Γ).Settled) :
    Mirrors L nowhere t (Machine.superclass? room s)
      (Lexical.superclass? ρ (s.map Reference.bare)) fun c c' t' =>
        t' = t ∧ c.isSome = s.isSome ∧ Option.Rel (ClassLike t.ties) c c' := by
  cases s with
  | none => exact .pure ⟨rfl, rfl, .none⟩
  | some r =>
    obtain ⟨hdepth, -, hready⟩ := hv r rfl
    refine Mirrors.needing (fun hlt => hL ?_) ?_
    · have hread := Spare.read_le r
      unfold Spare.most
      omega
    · refine (Mirrors.read hs hdepth hready).bind ?_
      rintro v v' _ - ⟨rfl, hlike⟩
      cases hlike with
      | classValue hc => exact .pure ⟨rfl, rfl, .some hc⟩
      | _ => exact .fail _ _ _

/-- **The methods of a class** are alike on both sides if their declarations are. -/
theorem rel_methodTable {s : Ties} {frame : FrameId} {home : Lexical.Env} {ms : List FunDecl}
    (hms : ∀ d ∈ ms, MethodLike s ⟨d, frame, d.isInitializer⟩
      ⟨d.bare, home, d.bare.isInitializer⟩) (x : String) :
    Option.Rel (MethodLike s) ((Machine.methodTable frame ms).get? x)
      ((Machine.methodTable home (FunDecl.bareAll ms)).get? x) := by
  have hmap : (FunDecl.bareAll ms).map (fun d => (d.name.lexeme,
      (⟨d, home, d.isInitializer⟩ : Closure Lexical.Env))) =
      ms.map fun d => (d.name.lexeme, ⟨d.bare, home, d.bare.isInitializer⟩) := by
    rw [FunDecl.bareAll_eq_map, List.map_map]
    simp
  unfold Machine.methodTable
  rw [hmap]
  exact Bindings.rel_ofList (fun d : FunDecl => d.name.lexeme)
    (fun d : FunDecl => Closure.mk d frame d.isInitializer)
    (fun d : FunDecl => Closure.mk d.bare home d.bare.isInitializer) hms x

/-- A class that is made of like parts. -/
theorem classLike_of {s : Ties} {h : ClassHead FrameId} {h' : ClassHead Lexical.Env}
    {c : Option (ClassValue FrameId)} {c' : Option (ClassValue Lexical.Env)}
    (hh : HeadLike s h h') (hc : Option.Rel (ClassLike s) c c') :
    ClassLike s (.of h c) (.of h' c') := by
  cases hc with
  | none => exact .root hh
  | some hc => exact .derived hh hc

/-- **A class is declared** in three steps: its name is defined, its methods get a frame of
their own if it has a superclass, and the name is given its value. -/
theorem mirrors_declareClass (hL : room + 1 < Spare.most → L.machine) {n : Token}
    {s : Option Reference} {ms : List FunDecl} (hshaped : (Stmt.classDecl n s ms).Shaped)
    (hvisits : ∀ v ∈ (Stmt.classDecl n s ms).visits Γ, v.Settled) (hs : t.Stands Γ ρ) :
    Mirrors L (· = t.machine.current) t (Machine.declareClass room n s ms)
      (Lexical.declareClass ρ n (s.map Reference.bare) (FunDecl.bareAll ms))
      fun _ ρ' t' => t'.Stands (Γ.enter n.lexeme true) ρ' := by
  have hneed : ∀ spare, spare + 1 < Spare.most → room < spare → L.machine := by
    intro spare hspare hlt
    exact hL (by omega)
  have hmembers : ∀ v ∈ FunDecl.visitsAll ms
      (Stack.members ⟨n, s, ms⟩ (Γ.enter n.lexeme true)), v.Settled := by
    intro v hv
    cases s <;> exact hvisits v (by simp [Stmt.visits, hv])
  have hsuper : ∀ r ∈ s, (Visit.use .read r (Γ.enter n.lexeme false)).Settled := by
    intro r hr
    cases hr
    exact hvisits _ (by simp [Stmt.visits])
  obtain ⟨-, hfresh⟩ : (Visit.declare n Γ).Settled := by
    cases s <;> exact hvisits _ (by simp [Stmt.visits])
  intro ht
  refine Mirrors.before ((mirrors_superclass hL (hs.enter_pending hfresh) hsuper).widen
    fun _ _ h => h) ?_ ht
  rintro parent parent' _ - ⟨rfl, hsome, hparent⟩
  rename_i t
  refine Mirrors.needing (hneed _ (by decide)) ?_
  refine Mirrors.bind (Mirrors.declare hs hfresh fun _ _ _ _ => .nil) ?_
  intro _ ρ' t₁ hgoes₁ hs₁
  refine Mirrors.looking ?_
  have hparent₁ : Option.Rel (ClassLike t₁.ties) parent parent' := by
    cases hparent with
    | none => exact .none
    | some hc => exact .some (hc.later hgoes₁.later)
  -- whichever surroundings the methods get, the class is the value of its name
  have hrest : ∀ (frame : FrameId) (home : Lexical.Env) (Δ : Stack) (t₂ : Twin),
      t₁.Goes nowhere t₂ → t₂.ties.Represents frame Δ home.cells →
      Stack.members ⟨n, s, ms⟩ (Γ.enter n.lexeme true) = .this ⟨n, s, ms⟩ :: Δ →
      Mirrors L (· = t.machine.current) t₂ (do
        Run.need (if ms.isEmpty then Spare.make else 1 + Spare.make) room
        let number := (← get).classCount
        modify fun m => { m with classCount := m.classCount + 1 }
        let head : ClassHead FrameId := ⟨number, n.lexeme, Machine.methodTable frame ms⟩
        Run.assignFrom t₁.machine.current n (.classValue (.of head parent)))
      (do
        let number := (← get).classCount
        modify fun W => { W with classCount := W.classCount + 1 }
        let head : ClassHead Lexical.Env :=
          ⟨number, n.lexeme, Machine.methodTable home (FunDecl.bareAll ms)⟩
        Lexical.Step.write ρ' n (.classValue (.of head parent'))
        return ρ')
      fun _ ρ'' t' => t'.Stands (Γ.enter n.lexeme true) ρ'' := by
    intro frame home Δ t₂ hgoes₂ hΔ hsite
    rw [hsite] at hmembers
    refine Mirrors.needing (hneed _ (by split <;> decide)) ?_
    intro ht₂
    refine Mirrors.lookingBoth ?_ ht₂
    refine Mirrors.before (Mirrors.step (Q := fun _ _ t' => t' = t₂.countClass) t₂.countClass rfl
      rfl fun ht => ⟨ht.countClass, rfl⟩) ?_
    rintro _ _ t₃ hgoes₃ rfl
    have hlater := hgoes₂.later.trans hgoes₃.later
    have hs₃ := (hs₁.goes hgoes₁.agrees hgoes₂).goes ht₂ hgoes₃
    have hhead : HeadLike t₂.countClass.ties
        ⟨t₂.machine.classCount, n.lexeme, Machine.methodTable frame ms⟩
        ⟨t₂.world.classCount, n.lexeme, Machine.methodTable home (FunDecl.bareAll ms)⟩ := by
      refine ⟨ht₂.classCount, rfl, rel_methodTable fun d hd => ⟨rfl, ?_, ?_, ?_⟩⟩
      · exact d.bare_isInitializer
      · exact FunDecl.allShaped_iff.mp hshaped.2.2 d hd
      · exact ⟨⟨n, s, ms⟩, Δ, hΔ.later hgoes₃.later, fun v hv =>
          hmembers v (FunDecl.mem_visitsAll.mpr ⟨d, hd, hv⟩)⟩
    have hclass : Option.Rel (ClassLike t₂.countClass.ties) parent parent' := by
      cases hparent₁ with
      | none => exact .none
      | some hc => exact .some (hc.later hlater)
    have hassign := Mirrors.assignHere (L := L) hs₃ (.classValue (classLike_of hhead hclass))
    rw [hgoes₃.current, hgoes₂.current] at hassign
    refine (hassign.imp (R := fun _ _ t' => t'.Stands (Γ.enter n.lexeme true) ρ')
      fun _ _ t₄ hgoes₄ _ => hs₃.goes hgoes₃.agrees hgoes₄).yielding.widen fun _ _ h => h.elim
  cases hparent₁ with
  | none =>
    have hnone : s.isSome = false := hsome.symm
    exact hrest _ ρ' _ t₁ (.refl hgoes₁.agrees) hs₁.represents (by simp [Stack.members, hnone])
  | @some c c' hc =>
    have hsome' : s.isSome = true := hsome.symm
    refine Mirrors.needing (hneed _ (by decide)) ?_
    refine Mirrors.before (Mirrors.extendFrame (l := .super ⟨n, s, ms⟩) hs₁.represents rfl
      (.classValue hc)) ?_
    intro frame home t₂ hgoes₂ hΔ
    exact hrest frame home _ t₂ hgoes₂ hΔ (by simp [Stack.members, hsome'])

/-- A statement that declares nothing leaves a run where it stands. -/
theorem MirrorsAt.execBody (h : MirrorsAt L turns room fuel) {s : Stmt}
    (hbody : s.isDeclaration = false ∧ s.Shaped) (hvisits : ∀ v ∈ s.visits Γ, v.Settled)
    (hs : t.Stands Γ ρ) :
    Mirrors L nowhere t (Machine.exec turns room s) (Lexical.exec turns fuel ρ s.bare)
      fun c c' t' => CompletionLike t'.ties c c'.1 ∧ t'.Stands Γ ρ := by
  intro ht
  have hexec := h.exec s Γ ρ t hbody.2 hvisits hs
  have hnowhere : ∀ i < t.size, (s.isDeclaration ∧ i = t.machine.current) → nowhere i := by
    rintro i - ⟨hdeclares, -⟩
    rw [hbody.1] at hdeclares
    cases hdeclares
  exact (hexec.widen hnowhere).imp (fun _ _ _ hgoes hc => ⟨hc.1, hs.goes ht hgoes⟩) ht

/-- What the machine does in a new frame, the world does inside. -/
theorem Mirrors.inBlock {α β : Type} (body : List Stmt) {x : Run α} {y : Lexical.Step β}
    {Q : α → β → Twin → Prop} (hs : t.Stands Γ ρ)
    (hx : ∀ t₁ : Twin, t₁.Stands (.block body {} :: Γ) ρ.inside →
      Mirrors L (· = t₁.machine.current) t₁ x y Q)
    (hQ : ∀ a b t' g, Q a b t' →
      Q a b { t' with machine := { t'.machine with current := g } }) :
    Mirrors L nowhere t (do
        let frame ← Run.newFrame t.machine.current .empty
        Run.inFrame frame x) y
      fun a b t' => Q a b t' ∧ t'.Stands Γ ρ := by
  intro ht
  have hgoes := ht.newFrame t.machine.current
  have hcurrent : t.machine.current < t.size := ht.lt_size_of_represents hs.represents
  have hinside : Twin.Stands { t.newFrame t.machine.current with
      machine := { (t.newFrame t.machine.current).machine with current := t.size } }
      (.block body {} :: Γ) ρ.inside := by
    refine ⟨ht.represents_newFrame hs.represents fun _ => rfl, ?_, trivial, rfl⟩
    rintro _ - x hx
    rw [show (t.newFrame t.machine.current).bond t.size x = none from ht.bond_size x] at hx
    cases hx
  refine Mirrors.bind_left (q := (· = t.size)) (t.newFrame t.machine.current) rfl rfl
    (fun _ => hgoes) (fun _ hlt heq => absurd heq (Nat.ne_of_lt hlt)) ?_ ht
  refine (Mirrors.inFrame (hx _ hinside) hQ).imp fun a b t' hgoes' hab => ⟨hab, ?_⟩
  exact (hs.goes ht hgoes).goes_of hgoes.agrees hgoes' (Nat.ne_of_lt hcurrent)

/-- **A block** runs in a frame of its own. -/
theorem MirrorsAt.block (h : MirrorsAt L turns room fuel) {body : List Stmt}
    (hshaped : Stmt.AllShaped body)
    (hvisits : ∀ v ∈ Stmt.visitsAll body (.block body {} :: Γ), v.Settled)
    (hs : t.Stands Γ ρ) :
    Mirrors L nowhere t (do
        let frame ← Run.newFrame t.machine.current .empty
        Run.inFrame frame (Machine.execAll turns room body))
      (Lexical.execAll turns fuel ρ.inside (Stmt.bareAll body))
      fun c c' t' => CompletionLike t'.ties c c' ∧ t'.Stands Γ ρ :=
  Mirrors.inBlock body hs (fun t₁ hs₁ => h.execAll body _ ρ.inside t₁ hshaped hvisits hs₁)
    fun _ _ _ _ hc => hc

/-- **The test of a loop** is evaluated, and found to hold or not. -/
theorem MirrorsAt.test (hL : room < Spare.most → L.machine) (h : MirrorsAt L turns room fuel)
    {c : Expr} (hc : c.Shaped) (hvisits : ∀ v ∈ c.visits Γ, v.Settled) (hs : t.Stands Γ ρ) :
    Mirrors L nowhere t (do
        let v ← Machine.eval turns room c
        Run.need Spare.truth room
        return v)
      (Lexical.eval turns fuel ρ c.bare) fun v v' t' => ValueLike t'.ties v v' := by
  rw [← bind_pure (Lexical.eval turns fuel ρ c.bare)]
  refine (h.eval c Γ ρ t hc hvisits hs).bind ?_
  intro v v' t₁ _ hv
  exact .needing (fun hlt => hL (Nat.lt_trans hlt (by decide))) (.pure hv)

theorem MirrorsAt.exec_succ (hL : room < Spare.most → L.machine)
    (h : MirrorsAt L turns room fuel) (s : Stmt) (Γ : Stack) (ρ : Lexical.Env) (t : Twin)
    (hshaped : s.Shaped) (hvisits : ∀ v ∈ s.visits Γ, v.Settled) (hs : t.Stands Γ ρ) :
    Mirrors L (fun f => s.isDeclaration ∧ f = t.machine.current) t
      (Machine.exec turns (room + 1) s) (Lexical.exec turns (fuel + 1) ρ s.bare)
      fun c c' t' => CompletionLike t'.ties c c'.1 ∧ t'.Stands (s.declare Γ) c'.2 := by
  intro ht
  cases s with
  | expression e =>
    refine Mirrors.before (h.eval e Γ ρ t hshaped hvisits hs) ?_ ht
    intro v v' t₁ hgoes _
    exact .pure ⟨.normal, hs.goes ht hgoes⟩
  | print e =>
    refine Mirrors.before (h.eval e Γ ρ t hshaped hvisits hs) ?_ ht
    intro v v' t₁ hgoes hv
    refine Mirrors.needing (fun hlt => hL ?_) ?_
    · have hwords := Spare.words_le v
      unfold Spare.most
      omega
    · rw [hv.render]
      refine Mirrors.before (Mirrors.step (Q := fun _ _ _ => True)
        (t₁.write (v.render ++ "\n")) rfl rfl fun ht => ⟨ht.write _, trivial⟩) ?_
      intro _ _ t₂ hgoes₂ _
      exact .pure ⟨.normal, (hs.goes ht hgoes).goes hgoes.agrees hgoes₂⟩
  | var n e =>
    obtain ⟨-, hfresh⟩ : (Visit.declare n Γ).Settled := by
      cases e <;> exact hvisits _ List.mem_cons_self
    cases e with
    | none =>
      refine Mirrors.needing (fun hlt => hL (Nat.lt_trans hlt (by decide))) ?_ ht
      refine Mirrors.bind ((Mirrors.declare hs hfresh fun _ _ _ _ => .nil).widen
        fun _ _ heq => ⟨rfl, heq⟩) ?_
      intro _ ρ' t₁ _ hs₁
      exact .pure ⟨.normal, hs₁⟩
    | some e =>
      refine Mirrors.before (h.eval e _ ρ t (hshaped.2 e rfl)
        (fun v hv => hvisits v (List.mem_cons_of_mem _ hv)) (hs.enter_pending hfresh)) ?_ ht
      intro v v' t₁ hgoes hv
      have hs₁ := hs.goes ht hgoes
      refine Mirrors.needing (fun hlt => hL (Nat.lt_trans hlt (by decide))) ?_
      refine Mirrors.bind ((Mirrors.declare hs₁ hfresh fun _ _ hlater _ => hv.later hlater).widen
        fun _ _ heq => ⟨rfl, heq.trans hgoes.current⟩) ?_
      intro _ ρ' t₂ _ hs₂
      exact .pure ⟨.normal, hs₂⟩
  | block body =>
    refine Mirrors.needing (fun hlt => hL (Nat.lt_trans hlt (by decide))) (.looking ?_) ht
    exact (h.block hshaped hvisits hs).yielding.widen fun _ _ h => h.elim
  | branch c y n =>
    cases n with
    | none =>
      refine Mirrors.before (h.eval c Γ ρ t hshaped.1
        (fun v hv => hvisits v (List.mem_append_left _ hv)) hs) ?_ ht
      intro v v' t₁ hgoes hv
      have hs₁ := hs.goes ht hgoes
      refine Mirrors.needing (fun hlt => hL (Nat.lt_trans hlt (by decide))) ?_
      refine .ite (by rw [hv.truthy]) (fun _ => ?_) fun _ => .pure ⟨.normal, hs₁⟩
      exact (h.execBody hshaped.2 (fun v hv => hvisits v (List.mem_append_right _ hv))
        hs₁).yielding.widen fun _ _ h => h.elim
    | some n =>
      refine Mirrors.before (h.eval c Γ ρ t hshaped.1
        (fun v hv => hvisits v (List.mem_append_left _ hv)) hs) ?_ ht
      intro v v' t₁ hgoes hv
      have hs₁ := hs.goes ht hgoes
      refine Mirrors.needing (fun hlt => hL (Nat.lt_trans hlt (by decide))) ?_
      refine .ite (by rw [hv.truthy]) (fun _ => ?_) fun _ => ?_
      · exact (h.execBody hshaped.2.1 (fun v hv => hvisits v (by simp [Stmt.visits, hv]))
          hs₁).yielding.widen fun _ _ h => h.elim
      · exact (h.execBody hshaped.2.2 (fun v hv => hvisits v (by simp [Stmt.visits, hv]))
          hs₁).yielding.widen fun _ _ h => h.elim
  | loop c body =>
    have hbody : ∀ t : Twin, t.Stands Γ ρ → Mirrors L nowhere t (Machine.exec turns room body)
        (do return (← Lexical.exec turns fuel ρ body.bare).1)
        fun c c' t' => CompletionLike t'.ties c c' := by
      intro t hs
      exact ((h.execBody hshaped.2 (fun v hv => hvisits v (List.mem_append_right _ hv))
        hs).imp fun _ _ _ _ hc => hc.1).yielding
    have hloop := mirrors_repeatWhile (fun t hs => h.test hL hshaped.1
      (fun v hv => hvisits v (List.mem_append_left _ hv)) hs) hbody turns t hs
    refine ((hloop.imp (R := fun c c' t' => CompletionLike t'.ties c c' ∧ t'.Stands Γ ρ)
      fun _ _ t' hgoes hc => ⟨hc, hs.goes ht hgoes⟩).yielding.widen fun _ _ h => h.elim) ht
  | leave k => exact .ok (.refl ht) ⟨.leave, hs⟩
  | giveBack k e =>
    cases e with
    | none =>
      refine Mirrors.needing (fun hlt => hL (Nat.lt_trans hlt (by decide))) ?_ ht
      exact .pure ⟨.giveBack .nil, hs⟩
    | some e =>
      refine Mirrors.before (h.eval e Γ ρ t (hshaped e rfl) hvisits hs) ?_ ht
      intro v v' t₁ hgoes hv
      refine Mirrors.needing (fun hlt => hL (Nat.lt_trans hlt (by decide))) ?_
      exact .pure ⟨.giveBack hv, hs.goes ht hgoes⟩
  | function d =>
    obtain ⟨-, hfresh⟩ : (Visit.declare d.name Γ).Settled := hvisits _ List.mem_cons_self
    simp only [Stmt.bare, Lexical.exec, FunDecl.bare_name]
    refine Mirrors.needing (fun hlt => hL (Nat.lt_trans hlt (by decide))) (.looking ?_) ht
    refine Mirrors.bind ((Mirrors.declare hs hfresh fun s ρ' _ hρ' => .function ?_).widen
      fun _ _ heq => ⟨rfl, heq⟩) ?_
    · exact ⟨rfl, rfl, hshaped, _, hρ', fun v hv => hvisits v (List.mem_cons_of_mem _ hv),
        fun h => by cases h⟩
    · intro _ ρ' t₁ _ hs₁
      exact .pure ⟨.normal, hs₁⟩
  | classDecl n s ms =>
    refine Mirrors.needing (fun hlt => hL (Nat.lt_trans hlt (by decide))) ?_ ht
    refine Mirrors.bind ((mirrors_declareClass (fun hlt => hL (by omega)) hshaped hvisits
      hs).widen fun _ _ heq => ⟨rfl, heq⟩) ?_
    intro _ ρ' t₁ _ hs₁
    exact .pure ⟨.normal, hs₁⟩

/-- A machine without room runs out of it at once, ... -/
theorem MirrorsAt.of_machine (hL : L.machine) : MirrorsAt L turns 0 fuel :=
  ⟨fun _ _ _ _ _ _ _ _ => .machineOverflow hL, fun _ _ _ _ _ _ _ _ => .machineOverflow hL,
    fun _ _ _ _ _ _ _ _ _ => .machineOverflow hL, fun _ _ _ _ _ _ _ _ _ => .machineOverflow hL,
    fun _ _ _ _ _ _ _ _ _ => .machineOverflow hL, fun _ _ _ _ _ _ _ _ => .machineOverflow hL,
    fun _ _ _ _ _ _ _ _ => .machineOverflow hL⟩

/-- ... and so does a world. -/
theorem MirrorsAt.of_world (hL : L.world) : MirrorsAt L turns room 0 :=
  ⟨fun _ _ _ _ _ _ _ _ => .worldOverflow hL, fun _ _ _ _ _ _ _ _ => .worldOverflow hL,
    fun _ _ _ _ _ _ _ _ _ => .worldOverflow hL, fun _ _ _ _ _ _ _ _ _ => .worldOverflow hL,
    fun _ _ _ _ _ _ _ _ _ => .worldOverflow hL, fun _ _ _ _ _ _ _ _ => .worldOverflow hL,
    fun _ _ _ _ _ _ _ _ => .worldOverflow hL⟩

/-- **Both evaluators mirror each other**, as far as the leeway goes. -/
theorem mirrorsAt (L : Leeway) (turns : Nat) : ∀ room fuel : Nat,
    (room < fuel + Spare.most → L.machine) → (fuel < room → L.world) →
      MirrorsAt L turns room fuel := by
  intro room fuel
  induction fuel generalizing room with
  | zero =>
    intro hmachine hworld
    rcases room with - | room
    · exact .of_machine (hmachine (by decide))
    · exact .of_world (hworld (by omega))
  | succ fuel ih =>
    intro hmachine hworld
    rcases room with - | room
    · exact .of_machine (hmachine (by unfold Spare.most; omega))
    · have h := ih room (fun hlt => hmachine (by omega)) (fun hlt => hworld (by omega))
      have hL : room < Spare.most → L.machine := fun hlt => hmachine (by omega)
      exact ⟨h.eval_succ hL, fun es Γ ρ => h.evalAll_succ es Γ ρ, h.call_succ hL,
        h.construct_succ hL, h.invoke_succ hL, h.execAll_succ, h.exec_succ hL⟩

/-- In the global frame a run stands in global code. -/
theorem stands_global (h : t.machine.current = globalFrame) : t.Stands [] .global := by
  refine ⟨⟨h, rfl⟩, ?_, trivial, rfl⟩
  intro l hl
  cases hl

/-- **Global code** is executed alike, statement by statement. -/
theorem mirrors_runAll (h : MirrorsAt L turns room fuel) :
    ∀ (p : List Stmt) (t : Twin), Stmt.AllShaped p → (∀ v ∈ Stmt.visitsAll p [], v.Settled) →
      t.machine.current = globalFrame →
      Mirrors L (· = globalFrame) t (Machine.runAll (Machine.exec turns room) p)
        (Machine.runAll (fun s => do return (← Lexical.exec turns fuel .global s).1)
          (Stmt.bareAll p)) fun _ _ _ => True := by
  intro p
  induction p with
  | nil => exact fun t _ _ _ => .pure trivial
  | cons s p ih =>
    intro t hp hvisits hcurrent
    have hexec := h.exec s [] .global t hp.1 (fun v hv => hvisits v (List.mem_append_left _ hv))
      (stands_global hcurrent)
    have hfirst : Mirrors L (· = globalFrame) t (Machine.exec turns room s)
        (do return (← Lexical.exec turns fuel .global s.bare).1)
        fun c c' t' => CompletionLike t'.ties c c' :=
      ((hexec.imp fun _ _ _ _ hc => hc.1).widen fun _ _ hmay => hmay.2.trans hcurrent).yielding
    refine Mirrors.bind hfirst ?_
    intro c c' t₁ hgoes hc
    have hglobal : s.declare [] = [] := by cases s <;> rfl
    have hrest := ih t₁ hp.2 (fun v hv => hvisits v (List.mem_append_right _ (by rwa [hglobal])))
      (hgoes.current.trans hcurrent)
    cases hc with
    | giveBack hv => exact .pure trivial
    | _ => exact hrest

end
end LoxKit
