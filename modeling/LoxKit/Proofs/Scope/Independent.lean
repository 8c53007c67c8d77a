import LoxKit.Proofs.Scope.Settled

/-!
# Top-level statements are resolved independently

What a step of resolution does depends on the open scopes and on the constructs around it, and
not on what was noted before, nor on the line of the name looked at last.  If it is not given up,
it leaves as many scopes open as it found, inside the same function and class
(`Scope.Independent`).

A step that is given up may leave any scopes open and any construct around it.  A top-level
statement that is given up leaves none of them, so every top-level statement begins and ends at
rest (`Walk.AtRest`), and a program is resolved as its parts are by themselves
(`Program.resolve_parts`).  One thing shows what was before: a report that something nests too
deeply is at the line of the name looked at last (`Diagnostic.steady`).
-/
namespace LoxKit

/-- **A diagnostic as far as its statement decides it**: without its line if it says that
something nests too deeply. -/
def Diagnostic.steady (d : Diagnostic) : Diagnostic :=
  if d.message = Scope.Fault.tooDeep.message then { d with line := 0 } else d

namespace Scope

variable {α β : Type}

/-! ## What steps do not depend on -/

/-- **The same place of resolution, behind other notes.** -/
structure Walk.Behind (before w w' : Walk) : Prop where
  scopes : w'.scopes = w.scopes
  function : w'.function = w.function
  classContext : w'.classContext = w.classContext
  annotations : w'.annotations = before.annotations ++ w.annotations
  diagnostics : ∃ ds, w'.diagnostics = before.diagnostics ++ ds ∧
    ds.map Diagnostic.steady = w.diagnostics.map Diagnostic.steady

/-- **Resolution is back where it was**: as many scopes are open, inside the same function if `p`
and inside the same class if `q`. -/
structure Walk.Back (p q : Prop) (w v : Walk) : Prop where
  depth : v.scopes.length = w.scopes.length
  function : p → v.function = w.function
  classContext : q → v.classContext = w.classContext

theorem Walk.Back.refl (p q : Prop) (w : Walk) : w.Back p q w := ⟨rfl, fun _ => rfl, fun _ => rfl⟩

theorem Walk.Back.trans {p q : Prop} {w v u : Walk} (h : w.Back p q v) (h' : v.Back p q u) :
    w.Back p q u where
  depth := h'.depth.trans h.depth
  function hp := (h'.function hp).trans (h.function hp)
  classContext hq := (h'.classContext hq).trans (h.classContext hq)

/-- **What two runs of a step lead to** that begin at the same place behind other notes. -/
inductive Alike (p q : Prop) (before w : Walk) :
    EStateM.Result Halt Walk α → EStateM.Result Halt Walk α → Prop where
  | ok {a : α} {v v' : Walk} : before.Behind v v' → w.Back p q v →
    Alike p q before w (.ok a v) (.ok a v')
  | error {e : Halt} {v v' : Walk} : before.Behind v v' →
    Alike p q before w (.error e v) (.error e v')

/-- **A step that does not depend on what was noted before**, and comes back to where it began
unless it gives up. -/
def Independent (p q : Prop) (x : Resolving α) : Prop :=
  ∀ before w w', Walk.Behind before w w' → Alike p q before w (x w) (x w')

/-- What a step does inside a new scope. -/
theorem run_pushed (names : List String) (x : Resolving α) (w : Walk) :
    (do modify (·.push names); let a ← x; modify (·.pop); return a : Resolving α) w =
      match x (w.push names) with
      | .ok a v => .ok a v.pop
      | .error e v => .error e v := by
  have hpush : (do modify (·.push names); let a ← x; modify (·.pop); return a : Resolving α) w =
      (do let a ← x; modify (·.pop); return a : Resolving α) (w.push names) := rfl
  rw [hpush]
  simp only [Bind.bind, EStateM.bind]
  cases x (w.push names) <;> rfl

/-- **What holds where a step ends**, unless it gives up. -/
def Ends (w : Walk) (x : Resolving α) (P : Walk → Prop) : Prop := ∀ a v, x w = .ok a v → P v

namespace Ends

variable {w : Walk} {P : Walk → Prop}

/-- A step ends where its last part ends. -/
theorem bind {x : Resolving α} {f : α → Resolving β} (hf : ∀ a v, Ends v (f a) P) :
    Ends w (x >>= f) P := by
  intro b v h
  simp only [Bind.bind, EStateM.bind] at h
  cases hx : x w with
  | ok a u =>
    rw [hx] at h
    exact hf a u b v h
  | error e u =>
    rw [hx] at h
    cases h

theorem get {f : Walk → Resolving α} (h : Ends w (f w) P) : Ends w (MonadState.get >>= f) P := h

theorem modify {g : Walk → Walk} {a : α} (h : P (g w)) :
    Ends w (modifyThe Walk g >>= fun _ => pure a) P := by
  intro b v hrun
  cases hrun
  exact h

end Ends

namespace Independent

variable {p q : Prop}

theorem pure (a : α) : Independent p q (Pure.pure a : Resolving α) :=
  fun _ w _ hw => .ok hw (.refl p q w)

theorem throw (e : Halt) : Independent p q (MonadExcept.throw e : Resolving α) :=
  fun _ _ _ hw => .error hw

theorem bind {x : Resolving α} {f : α → Resolving β} (hx : Independent p q x)
    (hf : ∀ a, Independent p q (f a)) : Independent p q (x >>= f) := by
  intro before w w' hw
  have h := hx before w w' hw
  simp only [Bind.bind, EStateM.bind]
  generalize x w = r at h ⊢
  generalize x w' = r' at h ⊢
  cases h with
  | @ok a v v' hv hback =>
    have h' := hf a before v v' hv
    dsimp only
    generalize f a v = r at h' ⊢
    generalize f a v' = r' at h' ⊢
    cases h' with
    | ok hu hback' => exact .ok hu (hback.trans hback')
    | error hu => exact .error hu
  | error hv => exact .error hv

/-- What is read off the state is the same behind other notes. -/
theorem get {f : Walk → Resolving α} (h : ∀ w, Independent p q (f w))
    (hsame : ∀ before w w', Walk.Behind before w w' → f w' = f w) :
    Independent p q (MonadState.get >>= f) := by
  intro before w w' hw
  show Alike p q before w (f w w) (f w' w')
  rw [hsame before w w' hw]
  exact h w before w w' hw

theorem modify {g : Walk → Walk} (hback : ∀ w : Walk, w.Back p q (g w))
    (h : ∀ before w w', Walk.Behind before w w' → Walk.Behind before (g w) (g w')) :
    Independent p q (modifyThe Walk g : Resolving Unit) :=
  fun before w w' hw => .ok (h before w w' hw) (hback w)

theorem ite {c : Prop} [Decidable c] {x y : Resolving α} (hx : Independent p q x)
    (hy : Independent p q y) : Independent p q (if c then x else y) := by
  split
  · exact hx
  · exact hy

theorem mapM {γ : Type} {x : γ → Resolving α} (h : ∀ c, Independent p q (x c)) (cs : List γ) :
    Independent p q (cs.mapM x) := by
  induction cs with
  | nil =>
    rw [List.mapM_nil]
    exact pure []
  | cons c cs ih =>
    rw [List.mapM_cons]
    exact bind (h c) fun a => bind ih fun as => pure (a :: as)

/-! ## Single steps -/

theorem need (spare room : Nat) : Independent p q (Scope.need spare room) :=
  ite (throw _) (pure ())

theorem blame (room : Nat) (t : Token) (f : Fault) : Independent p q (Scope.blame room t f) := by
  refine bind (need _ _) fun _ => modify (fun w => ⟨rfl, fun _ => rfl, fun _ => rfl⟩) ?_
  intro before w w' hw
  obtain ⟨ds, hds, hsteady⟩ := hw.diagnostics
  refine { hw with diagnostics := ⟨ds ++ [.atToken t f.message], ?_, ?_⟩ }
  · simp [Walk.blame, hds]
  · simp [Walk.blame, hsteady]

theorem blameIf (c : Bool) (room : Nat) (t : Token) (f : Fault) :
    Independent p q (Scope.blameIf c room t f) :=
  ite (blame room t f) (pure ())

theorem lookAt (n : Token) : Independent p q (modifyThe Walk (·.lookAt n) : Resolving Unit) :=
  modify (fun _ => ⟨rfl, fun _ => rfl, fun _ => rfl⟩) fun _ _ _ hw => { hw with }

/-- Entering a name changes the innermost scope alone. -/
theorem enter (n : Token) (ready : Bool) {g : Walk → Walk}
    (hg : ∀ w : Walk, g w = match w.scopes with
      | [] => w
      | s :: outer => { w with scopes := s.put n.lexeme ready :: outer }) :
    Independent p q (modifyThe Walk g : Resolving Unit) := by
  refine modify (fun w => ?_) fun before w w' hw => ?_
  · rw [hg]
    rcases w with ⟨_ | ⟨s, outer⟩, _, _, _, _, _⟩ <;> exact ⟨rfl, fun _ => rfl, fun _ => rfl⟩
  · rw [hg, hg, hw.scopes]
    split
    · exact hw
    · exact { hw with scopes := rfl }

theorem modifyDeclare (n : Token) :
    Independent p q (modifyThe Walk (·.declare n) : Resolving Unit) :=
  enter n false fun _ => rfl

theorem define (n : Token) : Independent p q (modifyThe Walk (·.define n) : Resolving Unit) :=
  enter n true fun _ => rfl

theorem declare (room : Nat) (n : Token) : Independent p q (Scope.declare room n) :=
  bind (need _ _) fun _ => bind (lookAt n) fun _ =>
    get (fun _ => bind (blameIf _ _ _ _) fun _ => modifyDeclare n) fun _ w w' hw => by
      rw [show w'.declares n = w.declares n by simp only [Walk.declares, hw.scopes]]

theorem introduce (room : Nat) (n : Token) : Independent p q (Scope.introduce room n) :=
  bind (declare room n) fun _ => define n

/-- Noting a use does not change the place. -/
theorem use (kind : UseKind) (n : Token) :
    Independent p q (modifyThe Walk (·.use kind n) : Resolving Unit) := by
  refine modify (fun w => ?_) fun before w w' hw => ?_
  · unfold Walk.use
    split <;> exact ⟨rfl, fun _ => rfl, fun _ => rfl⟩
  · unfold Walk.use
    rw [hw.scopes]
    split
    · refine { hw with scopes := rfl, annotations := ?_ }
      rw [hw.annotations, List.append_assoc]
    · exact hw

theorem resolved (room : Nat) (kind : UseKind) (r : Reference) :
    Independent p q (Scope.resolved room kind r) :=
  bind (need _ _) fun _ => bind (lookAt _) fun _ => bind (need _ _) fun _ =>
    get (fun _ => bind (use kind _) fun _ => pure _) fun _ w w' hw => by rw [hw.scopes]

theorem readReference (room : Nat) (r : Reference) :
    Independent p q (Scope.readReference room r) :=
  get (fun _ => bind (blameIf _ _ _ _) fun _ => resolved room .read r) fun _ w w' hw => by
    rw [show w'.pending r.name = w.pending r.name by simp only [Walk.pending, hw.scopes]]

/-- Behind its scope, a construct leaves as many scopes open as were before. -/
theorem inScope {x : Resolving α} (room : Nat) (names : List String) (h : Independent p q x) :
    Independent p q (Scope.inScope room names x) := by
  refine bind (need _ _) fun _ => ?_
  intro before w w' hw
  have hpush : Walk.Behind before (w.push names) (w'.push names) :=
    { hw with scopes := by rw [Walk.push, hw.scopes]; rfl }
  have hx := h before _ _ hpush
  rw [run_pushed, run_pushed]
  generalize x (w.push names) = r at hx ⊢
  generalize x (w'.push names) = r' at hx ⊢
  cases hx with
  | @ok a v v' hv hback =>
    refine .ok { hv with scopes := ?_ } ⟨?_, hback.function, hback.classContext⟩
    · rw [Walk.pop, Walk.pop, hv.scopes]
    · have hdepth := hback.depth
      rw [Walk.push, List.length_cons] at hdepth
      rw [Walk.pop, List.length_tail, hdepth]
      rfl
  | error hv => exact .error hv

/-! ## Expressions -/

/-- **Expressions are resolved independently.** -/
theorem expr (room : Nat) (e : Expr) : Independent p q (Scope.expr room e) := by
  induction room generalizing e with
  | zero => exact throw _
  | succ room ih =>
    cases e with
    | literal v => exact pure _
    | name r => exact bind (readReference room r) fun _ => pure _
    | assign r v => exact bind (ih v) fun _ => bind (resolved room _ r) fun _ => pure _
    | unary op e | group e | get e p => exact bind (ih e) fun _ => pure _
    | binary l op r | logical l op r => exact bind (ih l) fun _ => bind (ih r) fun _ => pure _
    | conditional t y n =>
      exact bind (ih t) fun _ => bind (ih y) fun _ => bind (ih n) fun _ => pure _
    | call f paren args => exact bind (ih f) fun _ => bind (mapM ih args) fun _ => pure _
    | set o p v => exact bind (ih v) fun _ => bind (ih o) fun _ => pure _
    | self r =>
      refine bind (need _ _) fun _ => get (fun w => ite ?_ ?_) fun _ w w' hw => by
        rw [hw.classContext]
      · exact bind (blame _ _ _) fun _ => pure _
      · exact bind (resolved room _ r) fun _ => pure _
    | super r m =>
      refine bind (need _ _) fun _ => get (fun w => ?_) fun _ w w' hw => by rw [hw.classContext]
      have hrest : Independent p q (do return Expr.super (← Scope.resolved room .super r) m) :=
        bind (resolved room _ r) fun _ => pure _
      cases w.classContext with
      | none | plain => exact bind (blame _ _ _) fun _ => hrest
      | derived => exact hrest

theorem optionalExpr (room : Nat) (e : Option Expr) :
    Independent p q (Scope.optionalExpr room e) := by
  cases e with
  | none => exact pure _
  | some e => exact bind (expr room e) fun _ => pure _

theorem params (room : Nat) (ps : List Token) :
    Independent p q (ps.forM (Scope.introduce room)) := by
  induction ps with
  | nil => exact pure ()
  | cons n ps ih => exact bind (introduce room n) fun _ => ih

/-! ## Statements -/

/-- What a step restores at its end it may change on the way. -/
theorem restoring {p' q' : Prop} {x : Resolving α} (h : Independent p' q' x)
    (hrestored : ∀ w a v, x w = .ok a v → w.Back p' q' v → w.Back p q v) :
    Independent p q x := by
  intro before w w' hw
  have hx := h before w w' hw
  have hback := hrestored w
  generalize x w = r at hx hback ⊢
  generalize x w' = r' at hx ⊢
  cases hx with
  | ok hv hv' => exact .ok hv (hback _ _ rfl hv')
  | error hv => exact .error hv

/-- Going over to another function or class. -/
theorem setFunction (sort : FunctionContext) :
    Independent False q (modifyThe Walk ({ · with function := sort }) : Resolving Unit) :=
  modify (fun _ => ⟨rfl, nofun, fun _ => rfl⟩) fun _ _ _ hw => { hw with function := rfl }

theorem setClass (sort : ClassContext) :
    Independent p False (modifyThe Walk ({ · with classContext := sort }) : Resolving Unit) :=
  modify (fun _ => ⟨rfl, fun _ => rfl, nofun⟩) fun _ _ _ hw => { hw with classContext := rfl }

end Independent

/-- **Statements are resolved independently**, in the given room. -/
structure IndependentAt (room : Nat) : Prop where
  stmt : ∀ s p q, Independent p q (stmt room s)
  classDecl : ∀ n s ms p q, Independent p q (classDecl room n s ms)
  funDecl : ∀ sort d p q, Independent p q (funDecl room sort d)

namespace IndependentAt

variable {room : Nat}

theorem stmt_succ (ih : IndependentAt room) (s : Stmt) (p q : Prop) :
    Independent p q (Scope.stmt (room + 1) s) := by
  cases s with
  | expression e | print e => exact .bind (.expr room e) fun _ => .pure _
  | var n e =>
    exact .bind (.declare room n) fun _ => .bind (.optionalExpr room e) fun _ =>
      .bind (.define n) fun _ => .pure _
  | block body =>
    exact .bind (.inScope room [] (.mapM (fun s => ih.stmt s p q) body)) fun _ => .pure _
  | branch t y n =>
    refine .bind (.expr room t) fun _ => .bind (ih.stmt y p q) fun _ => ?_
    cases n with
    | none => exact .pure _
    | some n => exact .bind (ih.stmt n p q) fun _ => .pure _
  | loop t body => exact .bind (.expr room t) fun _ => .bind (ih.stmt body p q) fun _ => .pure _
  | leave k => exact .pure _
  | giveBack k e =>
    have hvalue : Independent p q (do return Stmt.giveBack k (← Scope.optionalExpr room e)) :=
      .bind (.optionalExpr room e) fun _ => .pure _
    refine .bind (.need _ _) fun _ => .get (fun _ => .bind (.blameIf _ _ _ _) fun _ => ?_) ?_
    · refine .get (fun _ => .bind (.blameIf _ _ _ _) fun _ => hvalue) fun _ w w' hw => ?_
      rw [hw.function]
    · intro _ w w' hw
      rw [hw.function]
  | function d =>
    exact .bind (.introduce room d.name) fun _ => .bind (ih.funDecl _ d p q) fun _ => .pure _
  | classDecl n s ms => exact ih.classDecl n s ms p q

/-- The function around a function is the same after it, whatever its body did. -/
theorem funDecl_succ (ih : IndependentAt room) (sort : FunctionContext) (d : FunDecl)
    (p q : Prop) : Independent p q (Scope.funDecl (room + 1) sort d) := by
  obtain ⟨name, ps, body⟩ := d
  have hbody : Independent False q (Scope.inScope room [] do
      ps.forM (Scope.introduce room)
      body.mapM (Scope.stmt room)) :=
    .inScope room [] (.bind (.params room ps) fun _ => .mapM (fun s => ih.stmt s _ _) body)
  have hdecl : Independent False q (Scope.funDecl (room + 1) sort (.mk name ps body)) :=
    .get (fun _ => .bind (.setFunction sort) fun _ => .bind hbody fun _ =>
      .bind (.setFunction _) fun _ => .pure _) fun _ w w' hw => by rw [hw.function]
  refine hdecl.restoring fun w a v hrun hback => { hback with function := fun _ => ?_ }
  have hends : Ends w (Scope.funDecl (room + 1) sort (.mk name ps body))
      (·.function = w.function) :=
    .get (.bind fun _ _ => .bind fun _ _ => .modify rfl)
  exact hends a v hrun

/-- The class around a class is the same after it. -/
theorem classDecl_succ (ih : IndependentAt room) (n : Token) (s : Option Reference)
    (ms : List FunDecl) (p q : Prop) :
    Independent p q (Scope.classDecl (room + 1) n s ms) := by
  have hmembers : Independent p False (Scope.inScope room ["this"]
      (ms.mapM fun d =>
        Scope.funDecl room (if d.isInitializer then .initializer else .method) d)) :=
    .inScope room ["this"] (.mapM (fun d => ih.funDecl _ d _ _) ms)
  have hdecl : Independent p False (Scope.classDecl (room + 1) n s ms) := by
    refine .get (fun _ => .bind (.setClass _) fun _ => .bind (.introduce room n) fun _ => ?_)
      fun _ w w' hw => by rw [hw.classContext]
    cases s with
    | none =>
      exact .bind hmembers fun _ => .bind (.pure _) fun _ => .bind (.setClass _) fun _ => .pure _
    | some r =>
      exact .bind (.blameIf _ _ _ _) fun _ => .bind (.setClass _) fun _ =>
        .bind (.readReference _ r) fun _ => .bind (.inScope room ["super"] hmembers) fun _ =>
          .bind (.pure _) fun _ => .bind (.setClass _) fun _ => .pure _
  refine hdecl.restoring fun w a v hrun hback => { hback with classContext := fun _ => ?_ }
  have hends : Ends w (Scope.classDecl (room + 1) n s ms) (·.classContext = w.classContext) := by
    refine .get (.bind fun _ _ => .bind fun _ _ => ?_)
    cases s with
    | none => exact .bind fun _ _ => .bind fun _ _ => .modify rfl
    | some r =>
      exact .bind fun _ _ => .bind fun _ _ => .bind fun _ _ => .bind fun _ _ =>
        .bind fun _ _ => .modify rfl
  exact hends a v hrun

end IndependentAt

/-- Statements are resolved independently in every room. -/
theorem independentAt (room : Nat) : IndependentAt room := by
  induction room with
  | zero =>
    exact ⟨fun _ _ _ => .throw _, fun _ _ _ _ _ => .throw _, fun _ _ _ _ => .throw _⟩
  | succ room ih => exact ⟨ih.stmt_succ, ih.classDecl_succ, ih.funDecl_succ⟩

/-! ## Top-level statements -/

/-- **Resolution is at rest** where no scope is open and no function or class is around. -/
structure Walk.AtRest (w : Walk) : Prop where
  scopes : w.scopes = []
  function : w.function = .none
  classContext : w.classContext = .none

/-- Behind what was noted up to a state of rest, resolution is as at its beginning. -/
theorem Walk.AtRest.behind {w : Walk} (h : w.AtRest) : Walk.Behind w {} w where
  scopes := h.scopes
  function := h.function
  classContext := h.classContext
  annotations := (List.append_nil _).symm
  diagnostics := ⟨[], (List.append_nil _).symm, rfl⟩

theorem Walk.Behind.atRest {before w w' : Walk} (h : Walk.Behind before w w') (hw : w.AtRest) :
    w'.AtRest :=
  ⟨h.scopes.trans hw.scopes, h.function.trans hw.function, h.classContext.trans hw.classContext⟩

theorem Walk.Back.atRest {w v : Walk} (h : w.Back True True v) (hw : w.AtRest) : v.AtRest where
  scopes := List.length_eq_zero_iff.mp (by rw [h.depth, hw.scopes, List.length_nil])
  function := (h.function trivial).trans hw.function
  classContext := (h.classContext trivial).trans hw.classContext

theorem Walk.abandon_atRest (w : Walk) : w.abandon.AtRest := ⟨rfl, rfl, rfl⟩

/-- The report that a statement was given up is the same behind other notes, its line apart. -/
theorem Walk.Behind.abandon {before w w' : Walk} (h : Walk.Behind before w w') :
    Walk.Behind before w.abandon w'.abandon where
  scopes := rfl
  function := rfl
  classContext := rfl
  annotations := h.annotations
  diagnostics := by
    obtain ⟨ds, hds, hsteady⟩ := h.diagnostics
    refine ⟨ds ++ [.atLine w'.line Fault.tooDeep.message], ?_, ?_⟩
    · simp [Walk.abandon, hds]
    · simp [Walk.abandon, hsteady, Diagnostic.steady, Diagnostic.atLine]

/-- **A top-level statement leaves nothing behind but its notes**, also if it is given up. -/
theorem topLevel_alike (room : Nat) (s : Stmt) {before w w' : Walk}
    (h : Walk.Behind before w w') (hw : w.AtRest) :
    ∃ t v v', topLevel room s w = .ok t v ∧ topLevel room s w' = .ok t v' ∧
      Walk.Behind before v v' ∧ v.AtRest := by
  have hs := (independentAt room).stmt s True True before w w' h
  rw [topLevel, orAbandon_apply, orAbandon_apply]
  generalize stmt room s w = r at hs ⊢
  generalize stmt room s w' = r' at hs ⊢
  cases hs with
  | ok hv hback => exact ⟨_, _, _, rfl, rfl, hv, hback.atRest hw⟩
  | error hv => exact ⟨_, _, _, rfl, rfl, hv.abandon, Walk.abandon_atRest _⟩

/-- What is so for one top-level statement is so for any number of them. -/
theorem mapM_topLevel_alike (room : Nat) (ss : List Stmt) {before w w' : Walk}
    (h : Walk.Behind before w w') (hw : w.AtRest) :
    ∃ ts v v', ss.mapM (topLevel room) w = .ok ts v ∧ ss.mapM (topLevel room) w' = .ok ts v' ∧
      Walk.Behind before v v' ∧ v.AtRest := by
  induction ss generalizing w w' with
  | nil => exact ⟨[], w, w', rfl, rfl, h, hw⟩
  | cons s ss ih =>
    obtain ⟨t, v, v', ht, ht', hv, hrest⟩ := topLevel_alike room s h hw
    obtain ⟨ts, u, u', hts, hts', hu, hrest'⟩ := ih hv hrest
    refine ⟨t :: ts, u, u', ?_, ?_, hu, hrest'⟩
    · rw [List.mapM_cons]
      simp only [Bind.bind, EStateM.bind, ht, hts]
      rfl
    · rw [List.mapM_cons]
      simp only [Bind.bind, EStateM.bind, ht', hts']
      rfl

end Scope

open Scope

/-- **Top-level statements are resolved independently.**  A program of two parts resolves to the
two parts resolved by themselves, with the annotations of the one and then those of the other,
and so for the diagnostics, but for the lines of the reports that something nests too deeply.
Resolution is at rest between the parts and after them, whatever was given up. -/
theorem Program.resolve_parts (room : Nat) (xs ys : Program) :
    ((xs ++ ys).resolve room).result = (xs.resolve room).result ++ (ys.resolve room).result ∧
    ((xs ++ ys).resolve room).annotations =
      (xs.resolve room).annotations ++ (ys.resolve room).annotations ∧
    (∃ ds, ((xs ++ ys).resolve room).diagnostics = (xs.resolve room).diagnostics ++ ds ∧
      ds.map Diagnostic.steady = (ys.resolve room).diagnostics.map Diagnostic.steady) ∧
    ∃ xs' ys' w v, xs.mapM (topLevel room) {} = .ok xs' w ∧ w.AtRest ∧
      ys.mapM (topLevel room) w = .ok ys' v ∧ v.AtRest ∧
      (xs ++ ys).mapM (topLevel room) {} = .ok (xs' ++ ys') v := by
  have hstart : Walk.AtRest {} := ⟨rfl, rfl, rfl⟩
  obtain ⟨xs', w, -, hxs, -, -, hw⟩ := mapM_topLevel_alike room xs hstart.behind hstart
  obtain ⟨ys', v, v', hys, hys', hv, hrest⟩ := mapM_topLevel_alike room ys hw.behind hstart
  have hboth : (xs ++ ys).mapM (topLevel room) {} = .ok (xs' ++ ys') v' := by
    rw [List.mapM_append]
    simp only [Bind.bind, EStateM.bind, hxs, hys']
    rfl
  refine ⟨?_, ?_, ?_, xs', ys', w, v', hxs, hw, hys', hv.atRest hrest, hboth⟩
  all_goals simp only [Program.resolve, Resolution.of, hxs, hys, hboth]
  · exact hv.annotations
  · exact hv.diagnostics

end LoxKit
