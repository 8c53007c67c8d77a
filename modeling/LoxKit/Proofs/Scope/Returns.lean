import LoxKit.Proofs.Scope.Settled
import LoxKit.Proofs.Tree.Exits

/-!
# Resolution refuses returns outside functions

Resolution knows of what sort the innermost function around a place is.  Behind a function it is
back in what was around it, so outside of all functions it meets every `return` that no function
contains, and reports it (`Program.not_exits_of_resolve`).
-/
namespace LoxKit
namespace Scope

variable {α β : Type}

/-- **A step that leaves the innermost function as it was**, if it reports nothing; and if it
may meet a `return`, there is a function. -/
def Stays (returns : Prop) (x : Resolving α) : Prop :=
  ∀ w, Clean w x fun _ w' => w'.function = w.function ∧ (returns → w.function ≠ .none)

namespace Stays

variable {P Q : Prop}

theorem weaken {x : Resolving α} (h : Stays P x) (hQ : Q → P) : Stays Q x :=
  fun w => (h w).mono fun _ _ ⟨hf, hr⟩ => ⟨hf, fun hq => hr (hQ hq)⟩

theorem pure (a : α) : Stays False (Pure.pure a : Resolving α) :=
  fun _ => (Clean.pure a).mono fun _ _ ⟨_, hw⟩ => ⟨by rw [hw], False.elim⟩

theorem throw (e : Halt) : Stays P (MonadExcept.throw e : Resolving α) := fun _ => Clean.throw ..

theorem bind {x : Resolving α} {f : α → Resolving β} (hx : Stays P x) (hf : ∀ a, Stays Q (f a)) :
    Stays (P ∨ Q) (x >>= f) := fun w =>
  ((hx w).bind fun a w' => hf a w').mono fun _ _ ⟨_, _, ⟨h, hp⟩, h', hq⟩ =>
    ⟨h'.trans h, fun hpq => hpq.elim hp fun q => h ▸ hq q⟩

/-- A step behind one that meets no `return`. -/
theorem then_ {x : Resolving α} {f : α → Resolving β} (hx : Stays False x)
    (hf : ∀ a, Stays P (f a)) : Stays P (x >>= f) :=
  (hx.bind hf).weaken .inr

theorem get {f : Walk → Resolving α} (hf : ∀ w, Stays P (f w)) :
    Stays P (MonadState.get >>= f) := fun w => hf w w

theorem modify {g : Walk → Walk} (hd : ∀ w, (g w).diagnostics = w.diagnostics)
    (hf : ∀ w, (g w).function = w.function) :
    Stays False (modifyThe Walk g : Resolving Unit) :=
  fun w => (Clean.modify (hd w)).mono fun _ _ hw => ⟨by rw [hw, hf], False.elim⟩

theorem need (spare room : Nat) : Stays False (Scope.need spare room) :=
  fun _ => (Clean.need spare room).mono fun _ _ hw => ⟨by rw [hw], False.elim⟩

theorem blame (room : Nat) (t : Token) (f : Fault) : Stays False (Scope.blame room t f) :=
  fun _ => (Clean.blame room t f).mono fun _ _ h => h.elim

theorem blameIf (c : Bool) (room : Nat) (t : Token) (f : Fault) :
    Stays False (Scope.blameIf c room t f) :=
  fun _ => (Clean.blameIf c room t f).mono fun _ _ ⟨_, hw⟩ => ⟨by rw [hw], False.elim⟩

theorem declare (room : Nat) (name : Token) : Stays False (Scope.declare room name) :=
  fun w => (clean_declare room name).mono fun _ _ ⟨_, hw⟩ => by
    refine ⟨?_, False.elim⟩
    rw [hw]
    unfold Walk.declare
    split <;> rfl

theorem define (name : Token) : Stays False (modifyThe Walk (·.define name) : Resolving Unit) :=
  .modify (Walk.diagnostics_define · name) fun w => by
    unfold Walk.define
    split <;> rfl

theorem introduce (room : Nat) (name : Token) : Stays False (Scope.introduce room name) :=
  .then_ (declare room name) fun _ => define name

theorem resolved (room : Nat) (kind : UseKind) (r : Reference) :
    Stays False (Scope.resolved room kind r) :=
  fun w => (clean_resolved room kind r).mono fun _ _ ⟨_, hw⟩ => by
    refine ⟨?_, False.elim⟩
    rw [hw]
    unfold Walk.use
    split <;> rfl

theorem readReference (room : Nat) (r : Reference) :
    Stays False (Scope.readReference room r) :=
  .get fun _ => .then_ (blameIf _ _ _ _) fun _ => resolved room .read r

theorem inScope {x : Resolving α} (room : Nat) (names : List String) (h : Stays P x) :
    Stays P (Scope.inScope room names x) :=
  .then_ (need _ _) fun _ => .then_ (.modify (fun _ => rfl) fun _ => rfl) fun _ =>
    (h.bind fun a => .then_ (.modify (g := Walk.pop) (fun _ => rfl) fun _ => rfl) fun _ =>
      .pure a).weaken .inl

theorem forM {f : α → Resolving Unit} (h : ∀ a, Stays False (f a)) (as : List α) :
    Stays False (as.forM f) := by
  induction as with
  | nil => exact .pure ()
  | cons a as ih => exact .then_ (h a) fun _ => ih

theorem mapM {f : α → Resolving β} {R : α → Prop} (h : ∀ a, Stays (R a) (f a)) (as : List α) :
    Stays (∃ a ∈ as, R a) (as.mapM f) := by
  induction as with
  | nil =>
    rw [List.mapM_nil]
    exact (Stays.pure []).weaken (by simp)
  | cons a as ih =>
    rw [List.mapM_cons]
    refine ((h a).bind fun b => ih.bind fun bs => .pure (b :: bs)).weaken ?_
    rintro ⟨a', ha', hr⟩
    rcases List.mem_cons.mp ha' with rfl | ha'
    · exact .inl hr
    · exact .inr (.inl ⟨a', ha', hr⟩)

/-- Whatever is around a function does not matter inside it. -/
theorem within {x : Resolving α} (sort : FunctionContext) (h : Stays P x) (f : α → β) :
    Stays False (do
      let outer := (← MonadState.get).function
      modifyThe Walk ({ · with function := sort })
      let a ← x
      modifyThe Walk ({ · with function := outer })
      return f a : Resolving β) := by
  intro w
  refine ((Clean.modify (w := w) (g := fun w => { w with function := sort }) rfl).bind
    fun _ w₁ => (h w₁).bind fun a w₂ =>
      (Clean.modify (g := fun w₂ => { w₂ with function := w.function }) rfl).bind fun _ _ =>
        Clean.pure (f a)).mono ?_
  rintro _ _ ⟨_, _, rfl, _, _, -, _, _, rfl, rfl, rfl⟩
  exact ⟨rfl, False.elim⟩

end Stays

/-- The resolution of an expression leaves the innermost function as it was. -/
theorem stays_expr (room : Nat) (e : Expr) : Stays False (expr room e) := by
  induction room generalizing e with
  | zero => exact .throw _
  | succ room ih =>
    cases e with
    | literal v => exact .pure _
    | name r => exact .then_ (.readReference _ _) fun _ => .pure _
    | assign r v => exact .then_ (ih v) fun _ => .then_ (.resolved _ _ _) fun _ => .pure _
    | unary op e => exact .then_ (ih e) fun _ => .pure _
    | binary l op r | logical l op r =>
      exact .then_ (ih l) fun _ => .then_ (ih r) fun _ => .pure _
    | conditional t y n =>
      exact .then_ (ih t) fun _ => .then_ (ih y) fun _ => .then_ (ih n) fun _ => .pure _
    | call f paren args =>
      exact .then_ (ih f) fun _ => .then_ ((Stays.mapM ih args).weaken False.elim) fun _ => .pure _
    | get o p => exact .then_ (ih o) fun _ => .pure _
    | set o p v => exact .then_ (ih v) fun _ => .then_ (ih o) fun _ => .pure _
    | group e => exact .then_ (ih e) fun _ => .pure _
    | self r =>
      refine .then_ (.need _ _) fun _ => .get fun w => ?_
      split
      · exact .then_ (.blame _ _ _) fun _ => .pure _
      · exact .then_ (.resolved _ _ _) fun _ => .pure _
    | super r m =>
      refine .then_ (.need _ _) fun _ => .get fun w => ?_
      have hrest : Stays False (do return Expr.super (← resolved room .super r) m) :=
        .then_ (.resolved _ _ _) fun _ => .pure _
      cases w.classContext with
      | none | plain => exact .then_ (.blame _ _ _) fun _ => hrest
      | derived => exact hrest

theorem stays_optionalExpr (room : Nat) (e : Option Expr) :
    Stays False (optionalExpr room e) := by
  cases e with
  | none => exact .pure _
  | some e => exact .then_ (stays_expr room e) fun _ => .pure _

/-- The room of the steps below is one less. -/
structure StaysAt (room : Nat) : Prop where
  stmt : ∀ s, Stays (s.Exits .giveBack) (stmt room s)
  classDecl : ∀ n s ms, Stays False (classDecl room n s ms)
  funDecl : ∀ sort d, Stays False (funDecl room sort d)

namespace StaysAt

variable {room : Nat}

theorem stmts (ih : StaysAt room) (ss : List Stmt) :
    Stays (Stmt.AnyExits .giveBack ss) (ss.mapM (Scope.stmt room)) :=
  (Stays.mapM ih.stmt ss).weaken Stmt.anyExits_iff.mp

/-- A `return` is refused where there is no function. -/
theorem giveBack (k : Token) (e : Option Expr) :
    Stays True (Scope.stmt (room + 1) (.giveBack k e)) := by
  have hrest : Stays False (do
      blameIf (e.isSome && (← get).function = .initializer) room k .initializerReturn
      return .giveBack k (← optionalExpr room e) : Resolving Stmt) :=
    .get fun _ => .then_ (.blameIf _ _ _ _) fun _ => .then_ (stays_optionalExpr room e) fun _ =>
      .pure _
  refine .then_ (.need _ _) fun _ w => ?_
  refine ((Clean.blameIf (decide (w.function = .none)) room k .topLevelReturn).bind fun _ w' =>
    hrest w').mono ?_
  rintro _ _ ⟨_, _, ⟨hfunction, rfl⟩, h, -⟩
  exact ⟨h, fun _ => of_decide_eq_false hfunction⟩

theorem stmt_succ (ih : StaysAt room) (s : Stmt) :
    Stays (s.Exits .giveBack) (Scope.stmt (room + 1) s) := by
  cases s with
  | expression e | print e => exact .then_ (stays_expr room e) fun _ => .pure _
  | var n e =>
    exact .then_ (.declare _ _) fun _ => .then_ (stays_optionalExpr room e) fun _ =>
      .then_ (.define n) fun _ => .pure _
  | block body =>
    exact ((Stays.inScope room [] (ih.stmts body)).bind fun _ => .pure _).weaken .inl
  | branch t y n =>
    refine .then_ (stays_expr room t) fun t => ?_
    cases n with
    | none => exact ((ih.stmt y).bind fun _ => .pure _).weaken .inl
    | some n =>
      refine ((ih.stmt y).bind fun _ => (ih.stmt n).bind fun _ => .pure _).weaken ?_
      exact Or.imp_right .inl
  | loop t body =>
    exact .then_ (stays_expr room t) fun _ =>
      ((ih.stmt body).bind fun _ => .pure _).weaken fun h => .inl h.2
  | leave k => exact (Stays.pure _).weaken nofun
  | giveBack k e => exact (giveBack k e).weaken fun _ => trivial
  | function d =>
    exact .then_ (.introduce _ _) fun _ => .then_ (ih.funDecl _ d) fun _ => .pure _
  | classDecl n s ms => exact ih.classDecl n s ms

theorem funDecl_succ (ih : StaysAt room) (sort : FunctionContext) (d : FunDecl) :
    Stays False (Scope.funDecl (room + 1) sort d) := by
  obtain ⟨name, params, body⟩ := d
  exact .within sort (.inScope room [] (.then_ (.forM (.introduce room) params) fun _ =>
    ih.stmts body)) (FunDecl.mk name params)

theorem classDecl_succ (ih : StaysAt room) (n : Token) (s : Option Reference)
    (ms : List FunDecl) : Stays False (Scope.classDecl (room + 1) n s ms) := by
  have hmembers : Stays False (inScope room ["this"] (ms.mapM fun d =>
      Scope.funDecl room (if d.isInitializer then .initializer else .method) d)) :=
    .inScope room _ ((Stays.mapM (fun d => ih.funDecl _ d) ms).weaken False.elim)
  have hkeep {g : Walk → ClassContext} :
      Stays False (modifyThe Walk fun w => { w with classContext := g w } : Resolving Unit) :=
    .modify (fun _ => rfl) fun _ => rfl
  refine .get fun w => .then_ hkeep fun _ => .then_ (.introduce room n) fun _ => ?_
  cases s with
  | none =>
    exact .then_ hmembers fun ms => .then_ hkeep fun _ => .pure (Stmt.classDecl n none ms)
  | some r =>
    exact .then_ (.blameIf _ _ _ _) fun _ => .then_ hkeep fun _ =>
      .then_ (.readReference _ _) fun r => .then_ (.inScope room _ hmembers) fun ms =>
        .then_ hkeep fun _ => .pure (Stmt.classDecl n (some r) ms)

end StaysAt

theorem staysAt (room : Nat) : StaysAt room := by
  induction room with
  | zero => exact ⟨fun _ => .throw _, fun _ _ _ => .throw _, fun _ _ => .throw _⟩
  | succ room ih => exact ⟨ih.stmt_succ, ih.classDecl_succ, ih.funDecl_succ⟩

/-- Resolving the statements of a program one by one. -/
theorem stays_topLevel (room : Nat) (p : Program) :
    Stays (Stmt.AnyExits .giveBack p) (p.mapM (topLevel room)) :=
  (Stays.mapM (fun s w => clean_orAbandon ((staysAt room).stmt s w)) p).weaken
    Stmt.anyExits_iff.mp

end Scope

open Scope

/-- **In a program that resolution accepts, each `return` stands inside a function.** -/
theorem Program.not_exits_of_resolve {p : Program} {room : Nat}
    (h : (p.resolve room).diagnostics = []) : ¬Stmt.AnyExits .giveBack p := by
  have hstays := stays_topLevel room p {}
  unfold Clean at hstays
  unfold Program.resolve Resolution.of at h
  obtain ⟨p', w, hrun⟩ := mapM_topLevel_ok room p {}
  rw [hrun] at hstays h
  exact fun hexits => (hstays.2 h).2 hexits rfl

end LoxKit
