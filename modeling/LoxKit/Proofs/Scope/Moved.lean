import LoxKit.Proofs.Grammar.Moved
import LoxKit.Proofs.Scope.Settled

/-!
# Resolving programs on other lines

Resolution notes lines in annotations and diagnostics, and keeps the line of the name looked at
last, but is not guided by them, nor by what it has noted before.  So a program on other lines,
resolved behind another one, is resolved as it is by itself, on other lines
(`Scope.moves_topLevel`).  In particular what is found wrong is on lines of the program, or on the
line that resolution begins with (`Program.resolve_stays`).
-/
namespace LoxKit
namespace Scope

/-- An annotation whose name is on another line. -/
def Annotation.moved (m : Int → Int) (a : Annotation) : Annotation :=
  { a with name := a.name.moved m }

/-- **The state of resolution on other lines**, behind what was noted before. -/
def Walk.movedBehind (m : Int → Int) (before w : Walk) : Walk :=
  { w with
    line := m w.line
    annotations := before.annotations ++ w.annotations.map fun a => Annotation.moved m a
    diagnostics := before.diagnostics ++ w.diagnostics.map (Diagnostic.moved m) }

/-- Lines are told anew in resolution, and something was noted before. -/
def movingBehind (m : Int → Int) (before : Walk) : Erasure Halt Walk :=
  ⟨id, before.movedBehind m⟩

/-- **A step of resolution on other lines.** -/
abbrev Moves {α β : Type} (m : Int → Int) (before : Walk) (f : α → β) (x : Resolving α)
    (y : Resolving β) : Prop :=
  Erases (movingBehind m before) f x y

namespace Moves

variable {m : Int → Int} {before : Walk} {α β : Type} {f : α → β}

theorem need (spare room : Nat) : Moves m before id (need spare room) (need spare room) := by
  intro w
  unfold Scope.need
  split <;> rfl

theorem blame (room : Nat) (t : Token) (fault : Fault) :
    Moves m before id (blame room t fault) (blame room (t.moved m) fault) := by
  refine .bind (need _ _) fun _ => .modify fun w => ?_
  simp [movingBehind, Walk.movedBehind, Walk.blame, Diagnostic.atToken, Diagnostic.moved,
    Diagnostic.siteOf, Token.isEnd, Token.moved]

theorem blameIf (c : Bool) (room : Nat) (t : Token) (fault : Fault) :
    Moves m before id (blameIf c room t fault) (blameIf c room (t.moved m) fault) := by
  unfold Scope.blameIf
  exact .ite Iff.rfl (blame room t fault) (.pure ())

theorem lookAt (name : Token) :
    Moves m before id (modifyThe Walk (·.lookAt name)) (modifyThe Walk (·.lookAt (name.moved m))) :=
  .modify fun _ => rfl

theorem modifyDeclare (name : Token) :
    Moves m before id (modifyThe Walk (·.declare name))
      (modifyThe Walk (·.declare (name.moved m))) :=
  .modify fun w => by
    rcases w with ⟨_ | ⟨scope, outer⟩, _, _, _, _, _⟩ <;> rfl

theorem modifyDefine (name : Token) :
    Moves m before id (modifyThe Walk (·.define name))
      (modifyThe Walk (·.define (name.moved m))) :=
  .modify fun w => by
    rcases w with ⟨_ | ⟨scope, outer⟩, _, _, _, _, _⟩ <;> rfl

theorem declare (room : Nat) (name : Token) :
    Moves m before id (declare room name) (declare room (name.moved m)) :=
  .bind (need _ _) fun _ => .bind (lookAt name) fun _ => .get fun w =>
    .bind (blameIf (w.declares name) _ name _) fun _ => modifyDeclare name

theorem introduce (room : Nat) (name : Token) :
    Moves m before id (introduce room name) (introduce room (name.moved m)) :=
  .bind (declare room name) fun _ => modifyDefine name

theorem resolved (room : Nat) (kind : UseKind) (r : Reference) :
    Moves m before (Reference.moved m) (resolved room kind r) (resolved room kind (r.moved m)) := by
  refine .bind (need _ _) fun _ => .bind (lookAt r.name) fun _ => .bind (need _ _) fun _ =>
    .get fun w => .bind (.modify fun w => ?_) fun _ => ?_
  · simp only [movingBehind, Walk.movedBehind, Walk.use, Reference.moved_name,
      Token.moved_lexeme]
    cases depth? w.scopes r.name.lexeme with
    | none => rfl
    | some hops => simp only [List.map_append, List.append_assoc]; rfl
  · exact .pure (f := Reference.moved m) { r with hops := depth? w.scopes r.name.lexeme }

theorem readReference (room : Nat) (r : Reference) :
    Moves m before (Reference.moved m) (readReference room r) (readReference room (r.moved m)) :=
  .get fun w => .bind (blameIf (w.pending r.name) _ r.name _) fun _ => resolved room .read r

theorem inScope {x : Resolving α} {y : Resolving β} (room : Nat) (names : List String)
    (h : Moves m before f x y) : Moves m before f (inScope room names x) (inScope room names y) :=
  .bind (need _ _) fun _ => .bind (.modify fun _ => rfl) fun _ => .bind h fun a =>
    .bind (.modify fun _ => rfl) fun _ => .pure a

theorem params (room : Nat) (ps : List Token) :
    Moves m before id (ps.forM (Scope.introduce room))
      ((ps.map (Token.moved m)).forM (Scope.introduce room)) := by
  induction ps with
  | nil => exact .pure ()
  | cons p ps ih => exact .bind (introduce room p) fun _ => ih

theorem orAbandon {x : Resolving α} {y : Resolving β} (a : α) (h : Moves m before f x y) :
    Moves m before f (orAbandon a x) (orAbandon (f a) y) := by
  intro w
  rw [orAbandon_apply, orAbandon_apply, h w]
  cases x w with
  | ok b w' => rfl
  | error e w' =>
    refine congrArg (EStateM.Result.ok (f a)) ?_
    simp [movingBehind, Walk.movedBehind, Walk.abandon, Diagnostic.atLine, Diagnostic.moved]

end Moves

variable (m : Int → Int) (before : Walk)

/-- **Expressions are resolved without a look at lines.** -/
theorem moves_expr (room : Nat) (e : Expr) :
    Moves m before (Expr.moved m) (expr room e) (expr room (e.moved m)) := by
  induction room generalizing e with
  | zero => exact .throw _
  | succ room ih =>
    cases e with
    | literal v => exact .pure (Expr.literal v)
    | name r => exact .bind (Moves.readReference room r) fun r => .pure (Expr.name r)
    | assign r v =>
      exact .bind (ih v) fun v => .bind (Moves.resolved room _ r) fun r => .pure (Expr.assign r v)
    | unary op e => exact .bind (ih e) fun e => .pure (Expr.unary op e)
    | binary l op r =>
      exact .bind (ih l) fun l => .bind (ih r) fun r => .pure (Expr.binary l op r)
    | logical l op r =>
      exact .bind (ih l) fun l => .bind (ih r) fun r => .pure (Expr.logical l op r)
    | conditional t y n =>
      exact .bind (ih t) fun t => .bind (ih y) fun y => .bind (ih n) fun n =>
        .pure (Expr.conditional t y n)
    | call f paren args =>
      refine .bind (ih f) fun f => ?_
      rw [Expr.movedAll_eq_map]
      refine .bind (.mapM ih args) fun args => ?_
      rw [← Expr.movedAll_eq_map]
      exact .pure (Expr.call f paren args)
    | get o p => exact .bind (ih o) fun o => .pure (Expr.get o p)
    | set o p v => exact .bind (ih v) fun v => .bind (ih o) fun o => .pure (Expr.set o p v)
    | group e => exact .bind (ih e) fun e => .pure (Expr.group e)
    | self r =>
      refine .bind (Moves.need _ _) fun _ => .get fun w => .ite Iff.rfl ?_ ?_
      · exact .bind (Moves.blame room r.name _) fun _ => .pure (Expr.self r)
      · exact .bind (Moves.resolved room _ r) fun r => .pure (Expr.self r)
    | super r n =>
      refine .bind (Moves.need _ _) fun _ => .get fun w => ?_
      have hrest : Moves m before (Expr.moved m) (do return .super (← resolved room .super r) n)
          (do return .super (← resolved room .super (r.moved m)) (n.moved m)) :=
        .bind (Moves.resolved room _ r) fun r => .pure (Expr.super r n)
      rw [show ((movingBehind m before).state w).classContext = w.classContext from rfl]
      cases w.classContext with
      | none | plain => exact .bind (Moves.blame room r.name _) fun _ => hrest
      | derived => exact hrest

/-- **Statements are resolved without a look at lines**, in the given room. -/
structure MovesAt (room : Nat) : Prop where
  stmt : ∀ s, Moves m before (Stmt.moved m) (stmt room s) (stmt room (s.moved m))
  classDecl : ∀ n s ms, Moves m before (Stmt.moved m) (classDecl room n s ms)
    (classDecl room (n.moved m) (s.map (Reference.moved m)) (FunDecl.movedAll m ms))
  funDecl : ∀ sort d, Moves m before (FunDecl.moved m) (funDecl room sort d)
    (funDecl room sort (d.moved m))

namespace MovesAt

variable {m : Int → Int} {before : Walk} {room : Nat}

theorem optionalExpr (room : Nat) (e : Option Expr) :
    Moves m before (Option.map (Expr.moved m)) (optionalExpr room e)
      (optionalExpr room (e.map (Expr.moved m))) := by
  cases e with
  | none => exact .pure (f := Option.map (Expr.moved m)) none
  | some e =>
    exact .bind (moves_expr m before room e) fun e =>
      .pure (f := Option.map (Expr.moved m)) (some e)

theorem stmts (ih : MovesAt m before room) (ss : List Stmt) :
    Moves m before (Stmt.movedAll m) (ss.mapM (Scope.stmt room))
      ((Stmt.movedAll m ss).mapM (Scope.stmt room)) := by
  rw [Stmt.movedAll_eq_map, funext (Stmt.movedAll_eq_map m)]
  exact .mapM ih.stmt ss

theorem stmt_succ (ih : MovesAt m before room) (s : Stmt) :
    Moves m before (Stmt.moved m) (Scope.stmt (room + 1) s)
      (Scope.stmt (room + 1) (s.moved m)) := by
  cases s with
  | expression e => exact .bind (moves_expr m before room e) fun e => .pure (Stmt.expression e)
  | print e => exact .bind (moves_expr m before room e) fun e => .pure (Stmt.print e)
  | var n e =>
    exact .bind (Moves.declare room n) fun _ => .bind (optionalExpr room e) fun e =>
      .bind (Moves.modifyDefine n) fun _ => .pure (Stmt.var n e)
  | block body =>
    exact .bind (Moves.inScope room [] (ih.stmts body)) fun body => .pure (Stmt.block body)
  | branch t y n =>
    rw [Stmt.moved_branch]
    refine .bind (moves_expr m before room t) fun t => .bind (ih.stmt y) fun y => ?_
    cases n with
    | none => exact .pure (Stmt.branch t y none)
    | some n => exact .bind (ih.stmt n) fun n => .pure (Stmt.branch t y (some n))
  | loop t body =>
    exact .bind (moves_expr m before room t) fun t => .bind (ih.stmt body) fun body =>
      .pure (Stmt.loop t body)
  | leave k => exact .pure (Stmt.leave k)
  | giveBack k e =>
    refine .bind (Moves.need _ _) fun _ => .get fun w =>
      .bind (Moves.blameIf _ room k _) fun _ => .get fun w => ?_
    rw [Option.isSome_map]
    exact .bind (Moves.blameIf _ room k _) fun _ => .bind (optionalExpr room e) fun e =>
      .pure (Stmt.giveBack k e)
  | function d =>
    rw [Stmt.moved]
    have hname : Moves m before id (introduce room d.name) (introduce room (d.moved m).name) := by
      rw [d.moved_name]
      exact Moves.introduce room d.name
    exact .bind hname fun _ => .bind (ih.funDecl _ d) fun d => .pure (Stmt.function d)
  | classDecl n s ms => exact ih.classDecl n s ms

theorem funDecl_succ (ih : MovesAt m before room) (sort : FunctionContext) (d : FunDecl) :
    Moves m before (FunDecl.moved m) (Scope.funDecl (room + 1) sort d)
      (Scope.funDecl (room + 1) sort (d.moved m)) := by
  obtain ⟨name, params, body⟩ := d
  exact .get fun w => .bind (.modify fun _ => rfl) fun _ =>
    .bind (Moves.inScope room [] (.bind (Moves.params room params) fun _ => ih.stmts body))
      fun body => .bind (.modify fun _ => rfl) fun _ => .pure (FunDecl.mk name params body)

theorem methods (ih : MovesAt m before room) (ms : List FunDecl) :
    Moves m before (FunDecl.movedAll m)
      (ms.mapM fun d => Scope.funDecl room (if d.isInitializer then .initializer else .method) d)
      ((FunDecl.movedAll m ms).mapM fun d =>
        Scope.funDecl room (if d.isInitializer then .initializer else .method) d) := by
  rw [FunDecl.movedAll_eq_map, funext (FunDecl.movedAll_eq_map m)]
  refine .mapM (fun d => ?_) ms
  rw [FunDecl.moved_isInitializer]
  exact ih.funDecl _ d

theorem classDecl_succ (ih : MovesAt m before room) (n : Token) (s : Option Reference)
    (ms : List FunDecl) :
    Moves m before (Stmt.moved m) (Scope.classDecl (room + 1) n s ms)
      (Scope.classDecl (room + 1) (n.moved m) (s.map (Reference.moved m))
        (FunDecl.movedAll m ms)) := by
  refine .get fun w => .bind (.modify fun _ => rfl) fun _ =>
    .bind (Moves.introduce room n) fun _ => ?_
  have hclose (s : Stmt) : Moves m before (Stmt.moved m)
      (do modify ({ · with classContext := w.classContext }); return s)
      (do modify ({ · with classContext := w.classContext }); return (s.moved m)) :=
    .bind (.modify fun _ => rfl) fun _ => .pure s
  cases s with
  | none =>
    exact .bind (Moves.inScope room ["this"] (ih.methods ms)) fun ms =>
      hclose (.classDecl n none ms)
  | some r =>
    exact .bind (Moves.blameIf _ room r.name _) fun _ => .bind (.modify fun _ => rfl) fun _ =>
      .bind (Moves.readReference (room - 1) r) fun r =>
        .bind (Moves.inScope room ["super"] (Moves.inScope room ["this"] (ih.methods ms)))
          fun ms => hclose (.classDecl n (some r) ms)

end MovesAt

theorem movesAt (room : Nat) : MovesAt m before room := by
  induction room with
  | zero => exact ⟨fun _ => .throw _, fun _ _ _ => .throw _, fun _ _ => .throw _⟩
  | succ room ih => exact ⟨ih.stmt_succ, ih.classDecl_succ, ih.funDecl_succ⟩

/-- **A program is resolved without a look at lines**, or at what was noted before it. -/
theorem moves_topLevel (room : Nat) (p : Program) :
    Moves m before (Stmt.movedAll m) (p.mapM (topLevel room))
      ((Stmt.movedAll m p).mapM (topLevel room)) := by
  rw [Stmt.movedAll_eq_map, funext (Stmt.movedAll_eq_map m)]
  refine .mapM (fun s => ?_) p
  exact Moves.orAbandon s ((movesAt m before room).stmt s)

end Scope

/-- **What is found wrong is on the lines of the program**: it stays where it is when lines are told
anew that neither the program nor the line that resolution begins with is on. -/
theorem Program.resolve_stays {m : Int → Int} (hm : m 1 = 1) {p : Program}
    (hp : Stmt.movedAll m p = p) (room : Nat) :
    (p.resolve room).diagnostics.map (Diagnostic.moved m) = (p.resolve room).diagnostics := by
  have hrun := Scope.moves_topLevel m {} room p {}
  have hstart : (Scope.movingBehind m {}).state {} = {} := by
    simp [Scope.movingBehind, Scope.Walk.movedBehind, hm]
  rw [hp, hstart] at hrun
  obtain ⟨p', w, hp'⟩ := Scope.mapM_topLevel_ok room p {}
  rw [hp'] at hrun
  have hwalk : w = (Scope.movingBehind m {}).state w := by
    injection hrun
  unfold Program.resolve Resolution.of
  rw [hp']
  exact (congrArg Scope.Walk.diagnostics hwalk).symm

end LoxKit
