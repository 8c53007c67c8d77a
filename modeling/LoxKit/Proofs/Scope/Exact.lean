import LoxKit.Proofs.Grammar.Genuine
import LoxKit.Proofs.Grammar.Shaped
import LoxKit.Proofs.Scope.Once
import LoxKit.Proofs.Scope.Rules
import LoxKit.Proofs.Scope.Settled

/-!
# The static checks are exact

What resolution reports of a program are the breaches of the static rules, place by place in the
order of the walk, and nothing else (`Program.diagnostics_resolve`).  The only condition is that
it gives no statement up for want of room.

The rules are told by the constructs around a place, and resolution keeps flags for them that it
sets and restores.  So the invariant of the walk is that flags and scopes are those of the stack
(`Around`), and a construct is passed if they are again those around it at its end (`Passed`).  A
fault changes nothing but the reports, so what is inside a faulty construct is checked like
anything else.
-/
namespace LoxKit
namespace Scope

variable {α β : Type} {w : Walk} {Γ Δ : Stack}

/-! ## Where resolution is -/

/-- **Resolution is inside the constructs of a stack**: its scopes and its flags are those of
the stack. -/
structure Around (Γ : Stack) (w : Walk) : Prop extends Follows Γ w where
  function : w.function = Γ.functionContext

/-- The innermost scope holds a name that is not ready exactly in the initializer of a variable,
whose name it is then. -/
def Stack.Pending (Γ : Stack) (initializing : Option Token) : Prop :=
  ∀ l ∈ Γ.head?, ∀ x, l.names.get? x = some false ↔ initializing.any (·.lexeme == x)

/-- Outside of initializers all names are ready. -/
theorem Stack.Ready.pending (h : Γ.Ready) : Γ.Pending none := by
  intro l hl x
  refine ⟨fun hx => ?_, nofun⟩
  have hcontains : l.names.contains x := by
    rw [← Bindings.isSome_get?, hx]
    rfl
  have hready := h l (List.mem_of_mem_head? hl) x hcontains
  rw [hready] at hx
  cases hx

/-- A variable is the only name of its scope that is not ready in its initializer. -/
theorem Stack.Ready.pending_enter (h : Γ.Ready) (hΓ : Γ.OfBody) (n : Token) :
    (Γ.enter n.lexeme false).Pending (some n) := by
  rcases Γ with - | ⟨l, Γ⟩
  · intro l hl
    cases hl
  · obtain ⟨l', hl', hget⟩ := hΓ.enter_cons n.lexeme false
    rw [hl']
    intro l₁ hl₁ x
    cases hl₁
    rw [hget]
    by_cases hx : x = n.lexeme
    · simp [hx]
    · have hold := h.pending l rfl x
      simpa [hx, Ne.symm hx] using hold

/-- **Something has been passed**: this has been reported, and resolution is on the stack behind
it, inside the same class and the same function as before. -/
structure Passed (Δ : Stack) (ds : List Diagnostic) (w w' : Walk) : Prop where
  scopes : w'.scopes = Δ.scopes
  classContext : w'.classContext = w.classContext
  function : w'.function = w.function
  diagnostics : w'.diagnostics = w.diagnostics ++ ds

namespace Passed

variable {w' w'' : Walk} {ds es : List Diagnostic}

theorem none (h : w.scopes = Γ.scopes) : Passed Γ [] w w := ⟨h, rfl, rfl, by simp⟩

theorem append (h : Passed Γ ds w w') (h' : Passed Δ es w' w'') : Passed Δ (ds ++ es) w w'' where
  scopes := h'.scopes
  classContext := h'.classContext.trans h.classContext
  function := h'.function.trans h.function
  diagnostics := by rw [h'.diagnostics, h.diagnostics, List.append_assoc]

/-- Behind what it has passed, resolution is on the stack there. -/
theorem around (h : Passed Δ ds w w') (hw : Around Γ w) (hc : Δ.classContext = Γ.classContext)
    (hf : Δ.functionContext = Γ.functionContext) : Around Δ w' where
  scopes := h.scopes
  classContext := h.classContext.trans (hw.classContext.trans hc.symm)
  function := h.function.trans (hw.function.trans hf.symm)

/-- On the same stack there is nothing more to say. -/
theorem again (h : Passed Γ ds w w') (hw : Around Γ w) : Around Γ w' := h.around hw rfl rfl

/-- Behind its scope, a construct has been passed. -/
theorem pop {names : List String} (h : Passed Δ ds (w.push names) w') (hΔ : Δ.tail = Γ) :
    Passed Γ ds w w'.pop := by
  refine ⟨?_, h.classContext, h.function, h.diagnostics⟩
  rw [Walk.pop, h.scopes, Stack.scopes, ← List.map_tail, hΔ]
  rfl

end Passed

/-- **A step passes something**, unless it gives up. -/
def Passes (w : Walk) (x : Resolving α) (Δ : Stack) (ds : List Diagnostic) : Prop :=
  ∀ a w', x w = .ok a w' → Passed Δ ds w w'

/-- A step behind another runs to its end if both do. -/
theorem run_of_bind {x : Resolving α} {f : α → Resolving β} {b : β} {w w'' : Walk}
    (h : (x >>= f) w = .ok b w'') : ∃ a w', x w = .ok a w' ∧ f a w' = .ok b w'' := by
  simp only [Bind.bind, EStateM.bind] at h
  cases hx : x w with
  | error e w' =>
    rw [hx] at h
    cases h
  | ok a w' =>
    rw [hx] at h
    exact ⟨a, w', rfl, h⟩

namespace Passes

variable {ds es : List Diagnostic}

theorem pure (a : α) (h : w.scopes = Γ.scopes) : Passes w (Pure.pure a : Resolving α) Γ [] := by
  rintro b w' hrun
  cases hrun
  exact .none h

theorem throw (e : Halt) : Passes w (MonadExcept.throw e : Resolving α) Δ ds := by
  intro a w' hrun
  cases hrun

/-- One step behind another. -/
theorem bind {x : Resolving α} {f : α → Resolving β} (hx : Passes w x Γ ds)
    (hf : ∀ a w', Passed Γ ds w w' → Passes w' (f a) Δ es) :
    Passes w (x >>= f) Δ (ds ++ es) := by
  intro b w'' hrun
  obtain ⟨a, w', hxw, hfw⟩ := run_of_bind hrun
  have h := hx a w' hxw
  exact h.append (hf a w' h b w'' hfw)

/-- What is made of a result does not matter. -/
theorem map {x : Resolving α} {f : α → β} (hx : Passes w x Γ ds) :
    Passes w (x >>= fun a => Pure.pure (f a)) Γ ds := by
  have h := hx.bind fun a w' h => Passes.pure (f a) h.scopes
  rwa [List.append_nil] at h

/-- Looking at the state passes nothing. -/
theorem get {f : Walk → Resolving α} (h : Passes w (f w) Δ ds) :
    Passes w (MonadState.get >>= f) Δ ds := h

/-- Asking for room passes nothing. -/
theorem need {spare room : Nat} {f : Unit → Resolving α} (h : Passes w (f ()) Δ ds) :
    Passes w (Scope.need spare room >>= f) Δ ds := by
  unfold Scope.need
  split
  · intro a w' hrun
    cases hrun
  · exact h

/-- Looking at a name passes nothing. -/
theorem lookAt {n : Token} {f : Unit → Resolving α} (h : Passes (w.lookAt n) (f ()) Δ ds) :
    Passes w (modifyThe Walk (·.lookAt n) >>= f) Δ ds := by
  intro a w' hrun
  have h' := h a w' hrun
  exact ⟨h'.scopes, h'.classContext, h'.function, h'.diagnostics⟩

theorem blame {room : Nat} {t : Token} {f : Fault} (h : w.scopes = Γ.scopes) :
    Passes w (Scope.blame room t f) Γ [.atToken t f.message] := by
  refine .need ?_
  rintro _ _ hrun
  cases hrun
  exact ⟨h, rfl, rfl, rfl⟩

theorem blameIf {c : Bool} {room : Nat} {t : Token} {f : Fault} (h : w.scopes = Γ.scopes) :
    Passes w (Scope.blameIf c room t f) Γ (if c then [.atToken t f.message] else []) := by
  unfold Scope.blameIf
  split
  · exact .blame h
  · exact .pure () h

/-- A name is entered. -/
theorem declare (n : Token) (h : w.scopes = Γ.scopes) (hΓ : Γ.OfBody) :
    Passes w (modifyThe Walk (·.declare n) : Resolving Unit) (Γ.enter n.lexeme false) [] := by
  rintro _ _ hrun
  cases hrun
  rcases Γ with - | ⟨l, Γ⟩
  · constructor <;> simp_all [Walk.declare, Stack.enter]
  · cases l with
    | block | call => constructor <;> simp_all [Walk.declare, Stack.enter, Level.names]
    | this | super => exact hΓ.elim

/-- The name entered last is made ready. -/
theorem define (n : Token) {b : Bool} (h : w.scopes = (Γ.enter n.lexeme b).scopes)
    (hΓ : Γ.OfBody) :
    Passes w (modifyThe Walk (·.define n) : Resolving Unit) (Γ.enter n.lexeme true) [] := by
  rintro _ _ hrun
  cases hrun
  rcases Γ with - | ⟨l, Γ⟩
  · constructor <;> simp_all [Walk.define, Stack.enter]
  · cases l with
    | block | call => constructor <;> simp_all [Walk.define, Stack.enter, Level.names]
    | this | super => exact hΓ.elim

/-- A use of a name is no breach by itself. -/
theorem resolved (room : Nat) (kind : UseKind) (r : Reference) (h : w.scopes = Γ.scopes) :
    Passes w (Scope.resolved room kind r) Γ [] := by
  refine .need (.lookAt (.need (.get ?_)))
  rintro _ _ hrun
  cases hrun
  have huse : ∀ w : Walk, (w.use kind r.name).scopes = w.scopes ∧
      (w.use kind r.name).classContext = w.classContext ∧
      (w.use kind r.name).function = w.function := by
    intro w
    unfold Walk.use
    split <;> exact ⟨rfl, rfl, rfl⟩
  obtain ⟨hs, hc, hf⟩ := huse (w.lookAt r.name)
  exact ⟨hs.trans h, hc, hf, by simp [Walk.diagnostics_use]⟩

/-- **The check of a place that only one rule is about.** -/
theorem check (p : Place) (f : Fault) {c : Bool} {room : Nat} (h : w.scopes = Γ.scopes)
    (hf : p.rule? = some f) (hc : c = p.breaks f) :
    Passes w (Scope.blameIf c room p.token f) Γ p.diagnostics := by
  rw [Place.diagnostics_eq hf, ← hc]
  exact blameIf h

/-- A name is declared, not ready yet. -/
theorem declaration (room : Nat) (n : Token) (h : w.scopes = Γ.scopes) (hΓ : Γ.OfBody) :
    Passes w (Scope.declare room n) (Γ.enter n.lexeme false)
      (Place.declaration n Γ).diagnostics := by
  have hdeclares : (w.lookAt n).declares n = (Place.declaration n Γ).breaks .redeclared := by
    rw [Walk.declares, show (w.lookAt n).scopes = Γ.scopes from h]
    cases Γ <;> rfl
  rw [← List.append_nil (Place.diagnostics _)]
  refine .need (.lookAt (.get (bind ?_ fun _ _ h' => declare n h'.scopes hΓ)))
  exact check (.declaration n Γ) .redeclared h rfl hdeclares

/-- A name is declared and ready at once. -/
theorem introduce (room : Nat) (n : Token) (h : w.scopes = Γ.scopes) (hΓ : Γ.OfBody) :
    Passes w (Scope.introduce room n) (Γ.enter n.lexeme true)
      (Place.declaration n Γ).diagnostics := by
  have hpass := (declaration room n h hΓ).bind fun _ _ h' => define n h'.scopes hΓ
  rwa [List.append_nil] at hpass

/-- Inside a scope of its own. -/
theorem inScope (room : Nat) {names : List String} {x : Resolving α}
    (hx : Passes (w.push names) x Δ ds) (hΔ : Δ.tail = Γ) :
    Passes w (Scope.inScope room names x) Γ ds := by
  refine .need ?_
  intro a w' hrun
  obtain ⟨_, _, hpush, hrun⟩ := run_of_bind hrun
  cases hpush
  obtain ⟨_, w₁, hxw, hrun⟩ := run_of_bind hrun
  cases hrun
  exact (hx _ w₁ hxw).pop hΔ

/-- A variable is read. -/
theorem readReference {initializing : Option Token} (room : Nat) (r : Reference)
    (h : w.scopes = Γ.scopes) (hΓ : Γ.Pending initializing) :
    Passes w (Scope.readReference room r) Γ (Place.read r.name initializing Γ).diagnostics := by
  have hpending : w.pending r.name =
      (Place.read r.name initializing Γ).breaks .readInOwnInitializer := by
    rw [Walk.pending, h]
    rcases Γ with - | ⟨l, Γ⟩
    · rfl
    · rw [Bool.eq_iff_iff]
      simpa [Place.breaks] using hΓ l rfl r.name.lexeme
  rw [← List.append_nil (Place.diagnostics _)]
  refine .get (bind ?_ fun _ _ h' => resolved room .read r h'.scopes)
  exact check (.read r.name initializing Γ) .readInOwnInitializer h rfl hpending

/-- A step passes what it reports, however that is told. -/
theorem congr {x : Resolving α} (h : Passes w x Γ ds) (hds : ds = es) : Passes w x Γ es := hds ▸ h

end Passes

/-! ## Expressions -/

/-- **What is wrong with some places.** -/
def Place.diagnosticsAll (ps : List Place) : List Diagnostic := ps.flatMap Place.diagnostics

@[simp] theorem Place.diagnosticsAll_nil : Place.diagnosticsAll [] = [] := rfl

@[simp] theorem Place.diagnosticsAll_cons (p : Place) (ps : List Place) :
    Place.diagnosticsAll (p :: ps) = p.diagnostics ++ Place.diagnosticsAll ps := rfl

@[simp] theorem Place.diagnosticsAll_append (ps qs : List Place) :
    Place.diagnosticsAll (ps ++ qs) = Place.diagnosticsAll ps ++ Place.diagnosticsAll qs :=
  List.flatMap_append

/-- `this` is checked. -/
theorem passes_self (room : Nat) (r : Reference) (hw : Around Γ w) :
    Passes w (expr (room + 1) (.self r)) Γ (Place.self r.name Γ).diagnostics := by
  rw [Place.diagnostics_eq (f := .thisOutsideClass) rfl]
  refine .need (.get ?_)
  by_cases hc : Γ.classContext = .none
  · rw [if_pos (hw.classContext.trans hc), if_pos (by simpa [Place.breaks] using hc)]
    exact (Passes.blame hw.scopes).map
  · rw [if_neg (by rwa [hw.classContext]), if_neg (by simpa [Place.breaks] using hc)]
    exact (Passes.resolved room .this r hw.scopes).map

/-- `super` is checked; it is looked up even where it is a fault. -/
theorem passes_super (room : Nat) (r : Reference) (m : Token) (hw : Around Γ w) :
    Passes w (expr (room + 1) (.super r m)) Γ (Place.super r.name Γ).diagnostics := by
  have hresolved : ∀ ds (x : Resolving PUnit), Passes w x Γ ds →
      Passes w (do x; return Expr.super (← resolved room .super r) m) Γ ds := by
    intro ds x hx
    rw [← List.append_nil ds]
    exact hx.bind fun _ _ h => (Passes.resolved room .super r h.scopes).map
  refine .need (.get ?_)
  rw [hw.classContext]
  cases hc : Γ.classContext with
  | none | plain =>
    refine hresolved _ _ ((Passes.blame hw.scopes).congr ?_)
    simp [Place.diagnostics, Fault.rules, Place.breaks, Place.token, hc]
  | derived =>
    refine hresolved _ _ ((Passes.pure .unit hw.scopes).congr ?_)
    simp [Place.diagnostics, Fault.rules, Place.breaks, hc]

/-- Expressions one after the other. -/
theorem passes_mapM_expr {initializing : Option Token} {room : Nat}
    (ih : ∀ e w, Around Γ w →
      Passes w (expr room e) Γ (Place.diagnosticsAll (e.places initializing Γ)))
    (es : List Expr) : ∀ w, Around Γ w →
      Passes w (es.mapM (expr room)) Γ (Place.diagnosticsAll (Expr.placesAll initializing es Γ)) := by
  induction es with
  | nil =>
    intro w hw
    rw [List.mapM_nil]
    exact .pure [] hw.scopes
  | cons e es ihes =>
    intro w hw
    rw [List.mapM_cons, Expr.placesAll, Place.diagnosticsAll_append]
    exact (ih e w hw).bind fun _ w' h => (ihes w' (h.again hw)).map

/-- **An expression is passed by reporting its places.** -/
theorem passes_expr {initializing : Option Token} (hΓ : Γ.Pending initializing) (room : Nat) :
    ∀ e w, Around Γ w →
      Passes w (expr room e) Γ (Place.diagnosticsAll (e.places initializing Γ)) := by
  induction room with
  | zero => exact fun _ _ _ => .throw _
  | succ room ih =>
    intro e w hw
    cases e with
    | literal v => exact .pure _ hw.scopes
    | name r =>
      have hread := (Passes.readReference room r hw.scopes hΓ).map (f := Expr.name)
      exact hread.congr (List.append_nil _).symm
    | assign r v =>
      have hbind := (ih v w hw).bind fun v' w' h =>
        (Passes.resolved room .assign r h.scopes).map (f := fun r => Expr.assign r v')
      exact hbind.congr (List.append_nil _)
    | unary op e => exact (ih e w hw).map
    | binary l op r | logical l op r =>
      rw [Expr.places, Place.diagnosticsAll_append]
      exact (ih l w hw).bind fun _ w' h => (ih r w' (h.again hw)).map
    | conditional t y n =>
      rw [Expr.places, Place.diagnosticsAll_append, Place.diagnosticsAll_append]
      exact (ih t w hw).bind fun _ w₁ h₁ => (ih y w₁ (h₁.again hw)).bind fun _ w₂ h₂ =>
        (ih n w₂ (h₂.again (h₁.again hw))).map
    | call f paren args =>
      rw [Expr.places, Place.diagnosticsAll_append]
      exact (ih f w hw).bind fun _ w' h => (passes_mapM_expr ih args w' (h.again hw)).map
    | get o p => exact (ih o w hw).map
    | set o p v =>
      rw [Expr.places, Place.diagnosticsAll_append]
      exact (ih v w hw).bind fun _ w' h => (ih o w' (h.again hw)).map
    | group e => exact (ih e w hw).map
    | self r => exact (passes_self room r hw).congr (List.append_nil _).symm
    | super r m => exact (passes_super room r m hw).congr (List.append_nil _).symm

/-- An expression that may be absent. -/
theorem passes_optionalExpr {initializing : Option Token} (hΓ : Γ.Pending initializing)
    (room : Nat) (e : Option Expr) (hw : Around Γ w) :
    Passes w (optionalExpr room e) Γ
      (Place.diagnosticsAll (e.elim [] (·.places initializing Γ))) := by
  cases e with
  | none => exact .pure _ hw.scopes
  | some e => exact (passes_expr hΓ room e w hw).map

/-! ## Statements -/

/-- **A statement is passed by reporting its places.** -/
def PassesStmt (f : Stmt → Resolving Stmt) : Prop :=
  ∀ s w Γ, Around Γ w → Γ.Ready → Γ.OfBody → s.Shaped →
    Passes w (f s) (s.declare Γ) (Place.diagnosticsAll (s.places Γ))

/-- **A function is passed by reporting its places.** -/
def PassesFun (Γ : Stack) (f : FunDecl → Resolving FunDecl) : Prop :=
  ∀ d w, Follows Γ w → d.Shaped → Passes w (f d) Γ (Place.diagnosticsAll (d.places Γ))

/-- A function that stands among statements is no method. -/
theorem Stack.OfBody.functionContext_call (h : Γ.OfBody) (d : FunDecl) (names : Scope) :
    functionContext (.call d names :: Γ) = .function := by
  rcases Γ with - | ⟨l, Γ⟩
  · rfl
  · cases l with
    | block | call => rfl
    | this | super => exact h.elim

theorem Stmt.declare_ofBody (s : Stmt) {Γ : Stack} (h : Γ.OfBody) : (s.declare Γ).OfBody := by
  cases s with
  | var n e => exact h.enter _ _
  | function d => exact h.enter _ _
  | classDecl n s ms => exact h.enter _ _
  | _ => exact h

/-- Statements one after the other. -/
theorem PassesStmt.mapM {f : Stmt → Resolving Stmt} (hf : PassesStmt f) (ss : List Stmt) :
    ∀ w Γ, Around Γ w → Γ.Ready → Γ.OfBody → Stmt.AllShaped ss →
      Passes w (ss.mapM f) (Stmt.declareAll ss Γ) (Place.diagnosticsAll (Stmt.placesAll ss Γ)) := by
  induction ss with
  | nil =>
    intro w Γ hw _ _ _
    rw [List.mapM_nil]
    exact .pure [] hw.scopes
  | cons s ss ih =>
    intro w Γ hw hr hb hs
    rw [List.mapM_cons, Stmt.placesAll, Place.diagnosticsAll_append]
    exact (hf s w Γ hw hr hb hs.1).bind fun _ w' h =>
      (ih w' _ (h.around hw (by simp) (by simp)) (s.declare_ready hr) (Stmt.declare_ofBody s hb)
        hs.2).map

/-- Functions one after the other. -/
theorem PassesFun.mapM {f : FunDecl → Resolving FunDecl} (hf : PassesFun Γ f) (ds : List FunDecl) :
    ∀ w, Follows Γ w → FunDecl.AllShaped ds →
      Passes w (ds.mapM f) Γ (Place.diagnosticsAll (FunDecl.placesAll ds Γ)) := by
  induction ds with
  | nil =>
    intro w hw _
    rw [List.mapM_nil]
    exact .pure [] hw.scopes
  | cons d ds ih =>
    intro w hw hs
    rw [List.mapM_cons, FunDecl.placesAll, Place.diagnosticsAll_append]
    exact (hf d w hw hs.1).bind fun _ w' h =>
      (ih w' ⟨h.scopes, h.classContext.trans hw.classContext⟩ hs.2).map

/-- The parameters of a function. -/
theorem passes_params (room : Nat) (ps : List Token) :
    ∀ w Γ, w.scopes = Γ.scopes → Γ.OfBody →
      Passes w (ps.forM (introduce room)) (Γ.enterAll ps)
        (Place.diagnosticsAll (Token.placesAll ps Γ)) := by
  induction ps with
  | nil => exact fun w Γ hw _ => .pure () hw
  | cons p ps ih =>
    intro w Γ hw hb
    exact (Passes.introduce room p hw hb).bind fun _ w' h => ih w' _ h.scopes (hb.enter _ _)

/-- The room of the steps below is one less. -/
structure PassesAt (room : Nat) : Prop where
  stmt : PassesStmt (stmt room)
  classDecl : ∀ n s ms w Γ, Around Γ w → Γ.Ready → Γ.OfBody → (Stmt.classDecl n s ms).Shaped →
    Passes w (classDecl room n s ms) (Γ.enter n.lexeme true)
      (Place.diagnosticsAll ((Stmt.classDecl n s ms).places Γ))
  funDecl : ∀ sort d w Γ, Follows Γ w → Γ.Ready →
    Stack.functionContext (.call d {} :: Γ) = sort → d.Shaped →
    Passes w (funDecl room sort d) Γ (Place.diagnosticsAll (d.places Γ))

theorem PassesAt.funDecl_succ {room : Nat} (ih : PassesAt room) (sort : FunctionContext)
    (d : FunDecl) (w : Walk) (Γ : Stack) (hw : Follows Γ w) (hr : Γ.Ready)
    (hsort : Stack.functionContext (.call d {} :: Γ) = sort) (hs : d.Shaped) :
    Passes w (Scope.funDecl (room + 1) sort d) Γ (Place.diagnosticsAll (d.places Γ)) := by
  obtain ⟨n, ps, body⟩ := d
  rintro d' w' hrun
  obtain ⟨_, _, hget, hrun⟩ := run_of_bind hrun
  cases hget
  obtain ⟨_, _, hset, hrun⟩ := run_of_bind hrun
  cases hset
  obtain ⟨body', w₁, hbody, hrun⟩ := run_of_bind hrun
  cases hrun
  -- Inside, the flag says what the level of the function does.
  have hcall : Around (.call (.mk n ps body) {} :: Γ)
      (Walk.push { w with function := sort } []) :=
    ⟨⟨scopes_push hw.scopes rfl, hw.classContext⟩, hsort.symm⟩
  have hready : Stack.Ready (.call (.mk n ps body) {} :: Γ) := .cons (Stack.ready_call _) hr
  have hb : Stack.OfBody (.call (.mk n ps body) {} :: Γ) := trivial
  have hinside := (passes_params room ps _ _ hcall.scopes hb).bind fun _ w' h =>
    ih.stmt.mapM body w' _ (h.around hcall (by simp) (by simp)) (hready.enterAll ps)
      (Stack.enterAll_ofBody hb ps) hs.2.2
  have hpassed := Passes.inScope room hinside (Γ := Γ) (by simp) body' w₁ hbody
  rw [FunDecl.places, Place.diagnosticsAll_append]
  exact ⟨hpassed.scopes, hpassed.classContext, rfl, hpassed.diagnostics⟩

theorem PassesAt.stmt_succ {room : Nat} (ih : PassesAt room) :
    PassesStmt (Scope.stmt (room + 1)) := by
  intro s w Γ hw hr hb hs
  cases s with
  | expression e | print e => exact (passes_expr hr.pending room e w hw).map
  | var n e =>
    have hpass : Passes w (Scope.stmt (room + 1) (.var n e)) (Γ.enter n.lexeme true)
        ((Place.declaration n Γ).diagnostics ++
          Place.diagnosticsAll (e.elim [] (·.places (some n) (Γ.enter n.lexeme false)))) := by
      refine (Passes.declaration room n hw.scopes hb).bind fun _ w₁ h₁ => ?_
      have hw₁ := h₁.around hw (by simp) (by simp)
      rw [← List.append_nil (Place.diagnosticsAll _)]
      exact (passes_optionalExpr (hr.pending_enter hb n) room e hw₁).bind fun _ w₂ h₂ =>
        (Passes.define n h₂.scopes hb).map
    cases e with
    | none => exact hpass
    | some e => exact hpass
  | block body =>
    have hblock : Around (.block body {} :: Γ) (w.push []) :=
      ⟨⟨scopes_push hw.scopes rfl, hw.classContext⟩, hw.function⟩
    exact (Passes.inScope room (ih.stmt.mapM body _ _ hblock (.cons (Stack.ready_block body) hr)
      trivial hs) (by simp [Stmt.declare])).map
  | branch t y n =>
    have ht := passes_expr hr.pending room t w hw
    cases n with
    | none =>
      rw [Stmt.places, Place.diagnosticsAll_append]
      refine ht.bind fun _ w₁ h₁ => ?_
      have hy := ih.stmt y w₁ Γ (h₁.again hw) hr hb hs.2.2
      rw [Stmt.declare_of_isDeclaration_eq_false hs.2.1] at hy
      exact hy.map
    | some n =>
      rw [Stmt.places, Place.diagnosticsAll_append, Place.diagnosticsAll_append]
      refine ht.bind fun _ w₁ h₁ => ?_
      have hy := ih.stmt y w₁ Γ (h₁.again hw) hr hb hs.2.1.2
      rw [Stmt.declare_of_isDeclaration_eq_false hs.2.1.1] at hy
      refine hy.bind fun _ w₂ h₂ => ?_
      have hn := ih.stmt n w₂ Γ (h₂.again (h₁.again hw)) hr hb hs.2.2.2
      rw [Stmt.declare_of_isDeclaration_eq_false hs.2.2.1] at hn
      exact hn.map
  | loop t body =>
    rw [Stmt.places, Place.diagnosticsAll_append]
    refine (passes_expr hr.pending room t w hw).bind fun _ w₁ h₁ => ?_
    have hbody := ih.stmt body w₁ Γ (h₁.again hw) hr hb hs.2.2
    rw [Stmt.declare_of_isDeclaration_eq_false hs.2.1] at hbody
    exact hbody.map
  | leave k => exact .pure _ hw.scopes
  | giveBack k e =>
    have hplace : Place.diagnosticsAll ((Stmt.giveBack k e).places Γ) =
        (if decide (w.function = .none) then [.atToken k Fault.topLevelReturn.message] else []) ++
          ((if e.isSome && decide (w.function = .initializer) then
            [.atToken k Fault.initializerReturn.message] else []) ++
            Place.diagnosticsAll (e.elim [] (·.places none Γ))) := by
      rw [hw.function]
      cases e <;> cases hf : Γ.functionContext <;>
        simp [Stmt.places, Place.diagnostics, Fault.rules, Place.breaks, Place.token, hf]
    rw [hplace]
    refine .need (.get ((Passes.blameIf hw.scopes).bind fun _ w₁ h₁ => .get ?_))
    have hw₁ := h₁.again hw
    rw [h₁.function]
    exact (Passes.blameIf hw₁.scopes).bind fun _ w₂ h₂ =>
      (passes_optionalExpr hr.pending room e (h₂.again hw₁)).map
  | function d =>
    rw [Stmt.places, Place.diagnosticsAll_cons]
    refine (Passes.introduce room d.name hw.scopes hb).bind fun _ w₁ h₁ => ?_
    have hw₁ := h₁.around hw (by simp) (by simp)
    exact (ih.funDecl .function d w₁ _ hw₁.toFollows (hr.enter _)
      ((hb.enter _ _).functionContext_call d {}) hs).map
  | classDecl n s ms => exact ih.classDecl n s ms w Γ hw hr hb hs

/-- The methods of a class, inside the scope of `this`. -/
theorem PassesAt.members {room : Nat} (ih : PassesAt room) {site : ClassSite} {Δ : Stack}
    (hΔ : Γ.members site = .this site :: Δ) (hr : Γ.Ready) (hs : FunDecl.AllShaped site.methods)
    (hw : w.scopes = Δ.scopes) (hc : w.classContext = (Γ.members site).classContext) :
    Passes w (inScope room [thisName] (site.methods.mapM fun d =>
        Scope.funDecl room (if d.isInitializer then .initializer else .method) d)) Δ
      (Place.diagnosticsAll (FunDecl.placesAll site.methods (Γ.members site))) := by
  have hpush : Follows (Γ.members site) (w.push [thisName]) := by
    refine ⟨?_, hc⟩
    rw [hΔ]
    exact scopes_push hw rfl
  have hmethods : PassesFun (Γ.members site) fun d =>
      Scope.funDecl room (if d.isInitializer then .initializer else .method) d :=
    fun d w hw hd => ih.funDecl _ d w _ hw (hr.members site) (by simp) hd
  exact Passes.inScope room (hmethods.mapM site.methods _ hpush hs) (by rw [hΔ]; rfl)

theorem PassesAt.classDecl_succ {room : Nat} (ih : PassesAt room) (n : Token)
    (s : Option Reference) (ms : List FunDecl) (w : Walk) (Γ : Stack) (hw : Around Γ w)
    (hr : Γ.Ready) (hb : Γ.OfBody) (hs : (Stmt.classDecl n s ms).Shaped) :
    Passes w (Scope.classDecl (room + 1) n s ms) (Γ.enter n.lexeme true)
      (Place.diagnosticsAll ((Stmt.classDecl n s ms).places Γ)) := by
  rintro s' w' hrun
  obtain ⟨_, _, hget, hrun⟩ := run_of_bind hrun
  cases hget
  obtain ⟨_, _, hset, hrun⟩ := run_of_bind hrun
  cases hset
  obtain ⟨_, w₁, hintroduce, hrun⟩ := run_of_bind hrun
  have h₁ := Passes.introduce room n (w := { w with classContext := .plain }) hw.scopes hb
    _ w₁ hintroduce
  have hr₁ := hr.enter n.lexeme
  cases s with
  | none =>
    obtain ⟨_, w₂, hmembers, hrun⟩ := run_of_bind hrun
    cases hrun
    have hsite : (Γ.enter n.lexeme true).members ⟨n, none, ms⟩ = .this ⟨n, none, ms⟩ :: _ := rfl
    have h₂ := ih.members hsite hr₁ hs.2.2 h₁.scopes h₁.classContext _ w₂ hmembers
    have h := h₁.append h₂
    exact ⟨h.scopes, rfl, h.function, h.diagnostics⟩
  | some r =>
    obtain ⟨_, w₂, hinherit, hrun⟩ := run_of_bind hrun
    obtain ⟨_, _, hset, hrun⟩ := run_of_bind hrun
    cases hset
    obtain ⟨_, w₃, hread, hrun⟩ := run_of_bind hrun
    obtain ⟨_, w₄, hmembers, hrun⟩ := run_of_bind hrun
    cases hrun
    have h₂ := Passes.check (.inheritance n r.name) .selfInheritance h₁.scopes rfl rfl
      _ w₂ hinherit
    have h₃ := Passes.readReference (w := { w₂ with classContext := .derived }) (room - 1) r
      h₂.scopes hr₁.pending _ w₃ hread
    have hsite : (Γ.enter n.lexeme true).members ⟨n, some r, ms⟩ =
        .this ⟨n, some r, ms⟩ :: .super ⟨n, some r, ms⟩ :: Γ.enter n.lexeme true := rfl
    have hpush : (w₃.push [superName]).scopes =
        Stack.scopes (.super ⟨n, some r, ms⟩ :: Γ.enter n.lexeme true) := scopes_push h₃.scopes rfl
    have h₄ := Passes.inScope room (ih.members hsite hr₁ hs.2.2 hpush h₃.classContext) rfl
      _ w₄ hmembers
    have hfunction := h₄.function.trans (h₃.function.trans (h₂.function.trans h₁.function))
    refine ⟨h₄.scopes, rfl, hfunction, ?_⟩
    have hdiagnostics := h₄.diagnostics
    rw [h₃.diagnostics, h₂.diagnostics, h₁.diagnostics] at hdiagnostics
    simpa [Stmt.places, hsite] using hdiagnostics

theorem passesAt (room : Nat) : PassesAt room := by
  induction room with
  | zero =>
    exact ⟨fun _ _ _ _ _ _ _ => .throw _, fun _ _ _ _ _ _ _ _ _ => .throw _,
      fun _ _ _ _ _ _ _ _ => .throw _⟩
  | succ room ih =>
    exact ⟨ih.stmt_succ, fun n s ms w Γ => ih.classDecl_succ n s ms w Γ, ih.funDecl_succ⟩

/-! ## Programs -/

/-- **Nothing was given up**: no report says that something nests too deeply. -/
def Finished (ds : List Diagnostic) : Prop := ∀ d ∈ ds, d.message ≠ Fault.tooDeep.message

/-- A statement that was not given up has been passed. -/
theorem passed_topLevel {room : Nat} {s s' : Stmt} {w' : Walk} (hw : Around Γ w) (hr : Γ.Ready)
    (hb : Γ.OfBody) (hs : s.Shaped) (hrun : topLevel room s w = .ok s' w')
    (hfinished : Finished w'.diagnostics) :
    Passed (s.declare Γ) (Place.diagnosticsAll (s.places Γ)) w w' := by
  rw [topLevel, orAbandon_apply] at hrun
  cases hstmt : stmt room s w with
  | ok s₁ w₁ =>
    rw [hstmt] at hrun
    cases hrun
    exact (passesAt room).stmt s w Γ hw hr hb hs _ _ hstmt
  | error e w₁ =>
    rw [hstmt] at hrun
    cases hrun
    exact absurd rfl (hfinished (.atLine w₁.line Fault.tooDeep.message) (by simp [Walk.abandon]))

/-- What has been reported stays reported, so nothing was given up before if nothing is in the
end. -/
theorem passed_topLevels {room : Nat} (ss : List Stmt) :
    ∀ {w w' ss' Γ}, Around Γ w → Γ.Ready → Γ.OfBody → Stmt.AllShaped ss →
      ss.mapM (topLevel room) w = .ok ss' w' → Finished w'.diagnostics →
      Passed (Stmt.declareAll ss Γ) (Place.diagnosticsAll (Stmt.placesAll ss Γ)) w w' := by
  induction ss with
  | nil =>
    intro w w' ss' Γ hw _ _ _ hrun _
    cases hrun
    exact .none hw.scopes
  | cons s ss ih =>
    intro w w' ss' Γ hw hr hb hs hrun hfinished
    rw [List.mapM_cons] at hrun
    obtain ⟨s', w₁, hstmt, hrun⟩ := run_of_bind hrun
    obtain ⟨ss₁, w₂, hstmts, hrun⟩ := run_of_bind hrun
    cases hrun
    have hlater : w₁.Reports w' := by
      have hclean := clean_mapM_stmt (clean_topLevel room) ss w₁
      rw [Clean, hstmts] at hclean
      exact hclean.1
    obtain ⟨ds, hds, -⟩ := hlater
    have hfirst : Finished w₁.diagnostics := fun d hd =>
      hfinished d (by rw [hds]; exact List.mem_append_left _ hd)
    have h₁ := passed_topLevel hw hr hb hs.1 hstmt hfirst
    have h₂ := ih (h₁.around hw (by simp) (by simp)) (s.declare_ready hr)
      (Stmt.declare_ofBody s hb) hs.2 hstmts hfinished
    rw [Stmt.placesAll, Place.diagnosticsAll_append]
    exact h₁.append h₂

end Scope

open Scope

/-- What is reported of a program of the right shape. -/
theorem Stmt.AllShaped.diagnostics_resolve {p : Program} {room : Nat} (hp : Stmt.AllShaped p)
    (hfinished : Finished (p.resolve room).diagnostics) :
    (p.resolve room).diagnostics = Place.diagnosticsAll (Stmt.placesAll p []) := by
  unfold Program.resolve Resolution.of at hfinished ⊢
  obtain ⟨p', w, hrun⟩ := mapM_topLevel_ok room p {}
  rw [hrun] at hfinished ⊢
  have hstart : Around [] {} := ⟨⟨rfl, rfl⟩, rfl⟩
  have hpassed := passed_topLevels p hstart (fun l hl => nomatch hl) trivial hp hrun hfinished
  simpa using hpassed.diagnostics

/-- **The static checks are exact.**  Where nothing is wrong with the statements of a text, what
resolution reports of them is what is wrong with their places, in the order of the walk and once
for each rule that a place breaks, unless a statement was given up for want of room. -/
theorem Program.resolve_exact {source : String} {depth room : Nat} {p : Program}
    (hp : Program.ofTokens depth (scan source).tokens = ⟨p, []⟩)
    (hfinished : Finished (p.resolve room).diagnostics) :
    (p.resolve room).diagnostics = Place.diagnosticsAll (Stmt.placesAll p []) := by
  have hfresh := Program.fresh_ofTokens
    (fun t (ht : t ∈ (scan source).tokens) => genuine_of_mem_scan ht) depth
  rw [hp] at hfresh
  exact (Stmt.fresh_all hfresh).1.diagnostics_resolve hfinished

/-- A text that breaks every rule. -/
def lawless : String :=
  "return this; class A < A \x7b init(a, a) \x7b return 1; \x7d \x7d " ++
  "\x7b class B \x7b m() \x7b super.m; var b = b; \x7d \x7d super.m; \x7d"

/-- The reports on it are those of its places, one for each breach. -/
theorem Program.resolve_exact_lawless :
    ∃ p, Program.ofTokens 60 (scan lawless).tokens = ⟨p, []⟩ ∧
      Finished (p.resolve 20).diagnostics ∧
      (p.resolve 20).diagnostics = Place.diagnosticsAll (Stmt.placesAll p []) ∧
      (p.resolve 20).diagnostics.map (·.message) =
        [Fault.topLevelReturn, .thisOutsideClass, .selfInheritance, .redeclared,
          .initializerReturn, .superWithoutSuperclass, .readInOwnInitializer,
          .superOutsideClass].map Fault.message := by
  have hall : ∀ o : Grammar.Outcome Program, o.diagnostics = [] → o = ⟨o.result, []⟩ := by
    rintro ⟨p, ds⟩ rfl
    rfl
  have hread := hall (Program.ofTokens 60 (scan lawless).tokens) (by decide +kernel)
  have hmessages : ((Program.ofTokens 60 (scan lawless).tokens).result.resolve 20).diagnostics.map
      (·.message) = [Fault.topLevelReturn, .thisOutsideClass, .selfInheritance, .redeclared,
        .initializerReturn, .superWithoutSuperclass, .readInOwnInitializer,
        .superOutsideClass].map Fault.message := by decide +kernel
  have hfinished : Finished
      ((Program.ofTokens 60 (scan lawless).tokens).result.resolve 20).diagnostics := by
    intro d hd hdeep
    have hmem := List.mem_map_of_mem (f := (·.message)) hd
    rw [hmessages, hdeep] at hmem
    exact absurd hmem (by decide)
  exact ⟨_, hread, hfinished, Program.resolve_exact hread hfinished, hmessages⟩

end LoxKit
