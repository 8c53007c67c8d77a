import LoxKit.Grammar.Statement
import LoxKit.Proofs.Erasure
import LoxKit.Proofs.Tree.Moved

/-!
# Reading tokens on other lines

Reading is not guided by the lines of tokens.  So the same tokens on other lines are read as the
same program, on other lines (`Program.ofTokens_moved`), and what is found wrong is the same, on
other lines.  In particular tokens may be numbered, in place of their lines, to tell those that
are alike apart.

Only the place behind all tokens is on a line of its own, which no token has.  Reading never comes
to it where a closing token stands in front of it, so then all that is read is on the lines of the
tokens (`Program.ofTokens_stays`).
-/
namespace LoxKit

/-- A diagnostic of another line. -/
def Diagnostic.moved (m : Int → Int) (d : Diagnostic) : Diagnostic := { d with line := m d.line }

namespace Grammar

variable {α α' β β' : Type} {m : Int → Int} {f : α → β} {g : α' → β'}

/-- The same place among tokens on other lines. -/
def Cursor.moved (m : Int → Int) (c : Cursor) : Cursor where
  rest := c.rest.map (Token.moved m)
  loops := c.loops
  diagnostics := c.diagnostics.map (Diagnostic.moved m)

/-- Telling lines anew. -/
def moving (m : Int → Int) : Erasure Halt Cursor := ⟨id, Cursor.moved m⟩

/-- The place behind all tokens is on the same line, or is never come to: some token ahead is a
closing one, and reading does not move over it. -/
def Cursor.Bounded (m : Int → Int) (c : Cursor) : Prop := m 0 = 0 ∨ ∃ t ∈ c.rest, t.isEnd = true

/-- **A step is not guided by lines**: where the tokens are on other lines, it leads to the same, on
other lines. -/
def Moves (m : Int → Int) (f : α → β) (p : Reader α) (q : Reader β) : Prop :=
  ∀ c : Cursor, c.Bounded m → q (c.moved m) = (moving m).result f (p c) ∧
    match p c with
    | .ok _ d | .error _ d => d.Bounded m

/-! ## Cursors -/

theorem Cursor.Bounded.of_rest {c d : Cursor} (h : c.Bounded m) (hrest : d.rest = c.rest) :
    d.Bounded m := by
  rwa [Bounded, hrest]

/-- The place behind all tokens is the same on other lines. -/
theorem Cursor.Bounded.moved_current {c : Cursor} (h : c.Bounded m) :
    (c.moved m).current = c.current.moved m := by
  unfold Cursor.current Cursor.moved
  rcases h with hm | ⟨t, ht, -⟩
  · cases c.rest with
    | nil =>
      show Token.endAt 0 = Token.endAt (m 0)
      rw [hm]
    | cons t rest => rfl
  · obtain ⟨u, rest, hrest⟩ := List.exists_cons_of_ne_nil (List.ne_nil_of_mem ht)
    rw [hrest]
    rfl

theorem Cursor.Bounded.moved_atEnd {c : Cursor} (h : c.Bounded m) :
    (c.moved m).atEnd = c.atEnd := by
  rw [Cursor.atEnd, h.moved_current]
  rfl

theorem Cursor.Bounded.moved_advance {c : Cursor} (h : c.Bounded m) :
    (c.moved m).advance = c.advance.moved m := by
  unfold Cursor.advance
  rw [h.moved_atEnd]
  split
  · rfl
  · simp [Cursor.moved, List.map_tail]

theorem Cursor.Bounded.advance {c : Cursor} (h : c.Bounded m) : c.advance.Bounded m := by
  refine h.imp_right fun ⟨t, ht, hend⟩ => ?_
  unfold Cursor.advance
  split
  · exact ⟨t, ht, hend⟩
  · rename_i hopen
    cases hrest : c.rest with
    | nil => simp [hrest] at ht
    | cons u rest =>
      rw [hrest, List.mem_cons] at ht
      refine ⟨t, ht.resolve_left fun heq => hopen ?_, hend⟩
      rwa [Cursor.atEnd, Cursor.current, hrest, List.headD_cons, ← heq]

theorem Cursor.moved_blame (c : Cursor) (t : Token) (f : Fault) :
    (c.moved m).blame (t.moved m) f = (c.blame t f).moved m := by
  have hsite : Diagnostic.siteOf (t.moved m) = Diagnostic.siteOf t := rfl
  simp only [Cursor.moved, Cursor.blame, List.map_append, List.map_cons, List.map_nil,
    Diagnostic.moved, Diagnostic.atToken, hsite]
  rfl

theorem resumeBehind_moved (previous : Token) (ts : List Token) :
    resumeBehind (previous.moved m) (ts.map (Token.moved m)) =
      (resumeBehind previous ts).map (Token.moved m) := by
  induction ts generalizing previous with
  | nil => rfl
  | cons t ts ih =>
    rw [List.map_cons, resumeBehind, resumeBehind, ih]
    simp only [Token.moved_isEnd, Token.moved_kind]
    split <;> rename_i hstop <;> simp [hstop]

theorem Cursor.moved_recover (c : Cursor) : (c.moved m).recover = c.recover.moved m := by
  unfold Cursor.recover Cursor.moved
  cases c.rest with
  | nil => rfl
  | cons t ts =>
    simp only [List.map_cons, resume, resumeBehind_moved, Token.moved_isEnd]
    split <;> rfl

/-- Recovery does not move over a closing token. -/
theorem exists_end_resumeBehind {ts : List Token} (previous : Token)
    (h : ∃ t ∈ ts, t.isEnd = true) : ∃ t ∈ resumeBehind previous ts, t.isEnd = true := by
  induction ts generalizing previous with
  | nil => exact h
  | cons u ts ih =>
    rw [resumeBehind]
    split
    · exact h
    · rename_i hopen
      simp only [List.mem_cons, exists_eq_or_imp] at h
      refine ih u (h.resolve_left fun hend => hopen ?_)
      simp [hend]

theorem Cursor.Bounded.recover {c : Cursor} (h : c.Bounded m) : c.recover.Bounded m := by
  refine h.imp_right fun hend => ?_
  unfold Cursor.recover
  cases hrest : c.rest with
  | nil => simp [hrest] at hend
  | cons u rest =>
    rw [hrest] at hend
    show ∃ t ∈ resume (u :: rest), _
    rw [resume]
    split
    · exact hend
    · rename_i hopen
      simp only [List.mem_cons, exists_eq_or_imp] at hend
      exact exists_end_resumeBehind u (hend.resolve_left hopen)

/-! ## Single steps -/

namespace Moves

theorem pure (a : α) : Moves m f (Pure.pure a) (Pure.pure (f a)) := fun _ hc => ⟨rfl, hc⟩

theorem throw (e : Halt) : Moves m f (MonadExcept.throw e) (MonadExcept.throw e) :=
  fun _ hc => ⟨rfl, hc⟩

theorem bind {p : Reader α} {q : Reader β} {k : α → Reader α'} {k' : β → Reader β'}
    (hp : Moves m f p q) (hk : ∀ a, Moves m g (k a) (k' (f a))) :
    Moves m g (p >>= k) (q >>= k') := by
  intro c hc
  obtain ⟨hrun, hbounded⟩ := hp c hc
  simp only [Bind.bind, EStateM.bind, hrun]
  cases hpc : p c with
  | ok a d =>
    rw [hpc] at hbounded
    exact hk a d hbounded
  | error e d =>
    rw [hpc] at hbounded
    exact ⟨rfl, hbounded⟩

/-- Looking at the cursor. -/
theorem get {k : Cursor → Reader α} {k' : Cursor → Reader β}
    (h : ∀ c, c.Bounded m → Moves m f (k c) (k' (c.moved m))) :
    Moves m f (MonadState.get >>= k) (MonadState.get >>= k') := fun c hc => h c hc c hc

theorem ite {P P' : Prop} [Decidable P] [Decidable P'] {p p' : Reader α} {q q' : Reader β}
    (hP : P' ↔ P) (h : Moves m f p q) (h' : Moves m f p' q') :
    Moves m f (if P then p else p') (if P' then q else q') := by
  by_cases hp : P
  · rw [if_pos hp, if_pos (hP.mpr hp)]
    exact h
  · rw [if_neg hp, if_neg fun hp' => hp (hP.mp hp')]
    exact h'

end Moves

theorem moves_need (room : Nat) : Moves m id (need room) (need room) :=
  .ite Iff.rfl (.throw _) (.pure ())

theorem moves_current : Moves m (Token.moved m) current current :=
  .get fun c hc => by
    rw [hc.moved_current]
    exact .pure _

theorem moves_atEnd : Moves m id atEnd atEnd :=
  .get fun c hc => by
    rw [hc.moved_atEnd]
    exact .pure _

theorem moves_check (kind : TokenKind) : Moves m id (check kind) (check kind) :=
  .get fun c hc => by
    rw [hc.moved_atEnd, hc.moved_current]
    exact .pure _

theorem moves_accept? (wanted : TokenKind → Bool) :
    Moves m (Option.map (Token.moved m)) (accept? wanted) (accept? wanted) := by
  refine .get fun c hc => ?_
  rw [hc.moved_atEnd, hc.moved_current, Token.moved_kind]
  refine .ite Iff.rfl (fun d _ => ⟨?_, hc.advance⟩) (.pure none)
  show EStateM.Result.ok (some (c.current.moved m)) (c.moved m).advance = _
  rw [hc.moved_advance]
  rfl

theorem moves_accept (kind : TokenKind) : Moves m id (accept kind) (accept kind) :=
  .bind (moves_accept? _) fun t => by
    rw [Option.isSome_map]
    exact .pure _

theorem moves_blame (t : Token) (f : Fault) : Moves m id (blame t f) (blame (t.moved m) f) :=
  fun c hc => ⟨congrArg (EStateM.Result.ok ()) (c.moved_blame t f), hc.of_rest rfl⟩

theorem moves_fail (x : Fault) : Moves m f (fail x) (fail x) :=
  .bind (moves_current) fun t => .bind (moves_blame t x) fun _ => .throw _

theorem moves_expect (kind : TokenKind) (what : String) :
    Moves m (Token.moved m) (expect kind what) (expect kind what) :=
  .bind (moves_accept? _) fun t => by
    cases t with
    | none => exact moves_fail _
    | some t => exact .pure t

theorem moves_behind? (kind : TokenKind) {p : Reader α} {q : Reader β}
    (h : Moves m f p q) :
    Moves m (Option.map f) (behind? kind p) (behind? kind q) :=
  .bind (moves_accept kind) fun _ => .ite Iff.rfl (.bind h fun a => .pure (some a)) (.pure none)

theorem moves_unless? (kind : TokenKind) {p : Reader α} {q : Reader β}
    (h : Moves m f p q) :
    Moves m (Option.map f) (unless? kind p) (unless? kind q) :=
  .bind (moves_check kind) fun _ => .ite Iff.rfl (.pure none) (.bind h fun a => .pure (some a))

theorem moves_withLoops (count : Nat → Nat) {p : Reader α} {q : Reader β}
    (h : Moves m f p q) :
    Moves m f (withLoops count p) (withLoops count q) := by
  intro c hc
  obtain ⟨hrun, hbounded⟩ := h { c with loops := count c.loops } (hc.of_rest rfl)
  unfold withLoops
  rw [show q { c.moved m with loops := count (c.moved m).loops } =
    (moving m).result f (p { c with loops := count c.loops }) from hrun]
  cases hpc : p { c with loops := count c.loops } <;> rw [hpc] at hbounded <;>
    exact ⟨rfl, hbounded.of_rest rfl⟩

theorem moves_orResume {p : Reader α} {q : Reader β} (h : Moves m f p q) :
    Moves m (Option.map f) (orResume p) (orResume q) := by
  intro c hc
  obtain ⟨hrun, hbounded⟩ := h c hc
  unfold orResume
  rw [show q (c.moved m) = _ from hrun]
  cases hpc : p c with
  | ok a d =>
    rw [hpc] at hbounded
    exact ⟨rfl, hbounded⟩
  | error e d =>
    rw [hpc] at hbounded
    cases e with
    | fault => exact ⟨congrArg (EStateM.Result.ok none) d.moved_recover, hbounded.recover⟩
    | tooDeep => exact ⟨rfl, hbounded⟩

theorem moves_orGiveUp {p : Reader (Option α)} {q : Reader (Option β)}
    (h : Moves m (Option.map f) p q) :
    Moves m (Option.map f) (orGiveUp p) (orGiveUp q) := by
  intro c hc
  obtain ⟨hrun, hbounded⟩ := h c hc
  unfold orGiveUp
  rw [show q (c.moved m) = _ from hrun]
  cases hpc : p c with
  | ok a d =>
    rw [hpc] at hbounded
    exact ⟨rfl, hbounded⟩
  | error e d =>
    rw [hpc] at hbounded
    cases e with
    | fault => exact ⟨rfl, hbounded⟩
    | tooDeep =>
      refine ⟨?_, Cursor.Bounded.recover (hbounded.of_rest rfl)⟩
      show EStateM.Result.ok none ((d.moved m).blame (d.moved m).current .tooDeep).recover = _
      rw [hbounded.moved_current, Cursor.moved_blame, Cursor.moved_recover]
      rfl

theorem moves_commaList (what : String) {item : Reader α} {item' : Reader β}
    (h : Moves m f item item') : ∀ n done,
      Moves m (List.map f) (commaList what item n done)
        (commaList what item' n (done.map f)) := by
  intro n
  induction n with
  | zero =>
    intro done
    unfold commaList
    rw [← List.map_reverse]
    exact .pure _
  | succ n ih =>
    intro done
    have hrest : Moves m (List.map f) (do
        let x ← item
        if ← accept .comma then commaList what item n (x :: done)
        else return (x :: done).reverse) (do
        let x ← item'
        if ← accept .comma then commaList what item' n (x :: done.map f)
        else return (x :: done.map f).reverse) := by
      refine .bind h fun x => .bind (moves_accept _) fun _ => .ite Iff.rfl (ih (x :: done)) ?_
      rw [← List.map_cons, ← List.map_reverse]
      exact .pure _
    unfold commaList
    refine .ite (by rw [List.length_map]) ?_ hrest
    exact .bind (moves_current) fun t => .bind (moves_blame t _) fun _ => hrest

theorem moves_untilBrace {item : Reader (Option α)} {item' : Reader (Option β)}
    (h : Moves m (Option.map f) item item') : ∀ n done,
      Moves m (List.map f) (untilBrace item n done)
        (untilBrace item' n (done.map f)) := by
  intro n
  induction n with
  | zero =>
    intro done
    unfold untilBrace
    rw [← List.map_reverse]
    exact .pure _
  | succ n ih =>
    intro done
    refine .bind (moves_check _) fun _ => .bind (moves_atEnd) fun _ => .ite Iff.rfl ?_
      (.bind h fun x => ?_)
    · rw [← List.map_reverse]
      exact .pure _
    · cases x with
      | none => exact ih done
      | some x => exact ih (x :: done)

/-! ## Expressions -/

theorem moves_chain (operators : TokenKind → Bool) {operand : Reader Expr}
    {node : Expr → Token → Expr → Expr} (h : Moves m (Expr.moved m) operand operand)
    (hnode : ∀ l op r, (node l op r).moved m = node (l.moved m) (op.moved m) (r.moved m)) :
    ∀ n left, Moves m (Expr.moved m) (chain operators operand node n left)
      (chain operators operand node n (left.moved m)) := by
  intro n
  induction n with
  | zero => exact fun left => .pure left
  | succ n ih =>
    intro left
    refine .bind (moves_accept? _) fun op => ?_
    cases op with
    | none => exact .pure left
    | some op =>
      refine .bind h fun right => ?_
      rw [← hnode]
      exact ih _

theorem moves_arguments {argument : Reader Expr}
    (h : Moves m (Expr.moved m) argument argument) (width : Nat) :
    Moves m (Expr.movedAll m) (arguments width argument) (arguments width argument) := by
  refine .bind (moves_unless? _ (moves_commaList _ h width [])) fun es => ?_
  cases es with
  | none => exact .pure []
  | some es =>
    show Moves _ _ (pure es) (pure (es.map (Expr.moved m)))
    rw [← Expr.movedAll_eq_map]
    exact .pure es

theorem moves_suffixes {argument : Reader Expr}
    (h : Moves m (Expr.moved m) argument argument) (width : Nat) : ∀ n target,
      Moves m (Expr.moved m) (suffixes width argument n target)
        (suffixes width argument n (target.moved m)) := by
  intro n
  induction n with
  | zero => exact fun target => .pure target
  | succ n ih =>
    intro target
    refine .bind (moves_accept _) fun _ => .ite Iff.rfl ?_ (.bind (moves_accept _) fun _ =>
      .ite Iff.rfl ?_ (.pure target))
    · exact .bind (moves_arguments h width) fun args => .bind (moves_expect _ _) fun paren =>
        ih (.call target paren args)
    · exact .bind (moves_expect _ _) fun p => ih (.get target p)

theorem moved_assigned? (value target : Expr) :
    assigned? (value.moved m) (target.moved m) = (assigned? value target).map (Expr.moved m) := by
  cases target <;> rfl

theorem moved_atom? (t : Token) : atom? (t.moved m) = (atom? t).map (Expr.moved m) := by
  unfold atom? Literal.ofToken?
  cases h : t.kind <;> simp [h, Expr.moved] <;> rfl

/-- The rules for expressions are not guided by lines. -/
structure ExprMoves (m : Int → Int) (width room : Nat) : Prop where
  expression : Moves m (Expr.moved m) (expression width room) (expression width room)
  conditional : Moves m (Expr.moved m) (conditional width room) (conditional width room)
  assignment : Moves m (Expr.moved m) (assignment width room) (assignment width room)
  binary : ∀ level,
    Moves m (Expr.moved m) (binary width room level) (binary width room level)
  unary : Moves m (Expr.moved m) (unary width room) (unary width room)
  call : Moves m (Expr.moved m) (call width room) (call width room)
  primary : Moves m (Expr.moved m) (primary width room) (primary width room)

namespace ExprMoves

variable {width room : Nat}

theorem expression_succ (h : ExprMoves m width room) :
    Moves m (Expr.moved m) (Grammar.expression width (room + 2))
      (Grammar.expression width (room + 2)) := by
  have hnode : ∀ l op r, (Expr.binary l op r).moved m =
      .binary (l.moved m) (op.moved m) (r.moved m) := fun _ _ _ => rfl
  exact .bind h.conditional fun first => moves_chain _ h.conditional hnode _ first

theorem conditional_succ (h : ExprMoves m width room) :
    Moves m (Expr.moved m) (Grammar.conditional width (room + 2))
      (Grammar.conditional width (room + 2)) :=
  .bind h.assignment fun t => .bind (moves_accept _) fun _ => .ite Iff.rfl
    (.bind h.conditional fun y => .bind (moves_expect _ _) fun _ => .bind h.conditional fun n =>
      .pure (Expr.conditional t y n))
    (.pure t)

theorem assignment_succ (h : ExprMoves m width room) :
    Moves m (Expr.moved m) (Grammar.assignment width (room + 2))
      (Grammar.assignment width (room + 2)) := by
  refine .bind (h.binary _) fun target => .bind (moves_accept? _) fun equals => ?_
  cases equals with
  | none => exact .pure target
  | some equals =>
    refine .bind h.conditional fun value => ?_
    rw [moved_assigned?]
    cases assigned? value target with
    | some e => exact .pure e
    | none => exact .bind (moves_blame equals _) fun _ => .pure target

theorem binary_succ (h : ExprMoves m width room) (level : Level) :
    Moves m (Expr.moved m) (Grammar.binary width (room + 2) level)
      (Grammar.binary width (room + 2) level) := by
  have hnode : ∀ l op r, (level.node l op r).moved m =
      level.node (l.moved m) (op.moved m) (r.moved m) := by cases level <;> exact fun _ _ _ => rfl
  cases hnext : level.tighter? with
  | some next =>
    rw [binary_of_tighter hnext]
    exact .bind (h.binary next) fun first => moves_chain _ (h.binary next) hnode _ first
  | none =>
    rw [binary_of_tightest hnext]
    exact .bind h.unary fun first => moves_chain _ h.unary hnode _ first

theorem unary_succ (h : ExprMoves m width room) :
    Moves m (Expr.moved m) (Grammar.unary width (room + 2))
      (Grammar.unary width (room + 2)) := by
  refine .bind (moves_need _) fun _ => .bind (moves_accept? _) fun op => ?_
  cases op with
  | none => exact h.call
  | some op => exact .bind h.unary fun e => .pure (Expr.unary op e)

theorem call_succ (h : ExprMoves m width room) (h' : ExprMoves m width (room + 1)) :
    Moves m (Expr.moved m) (Grammar.call width (room + 3))
      (Grammar.call width (room + 3)) :=
  .bind h'.primary fun target => moves_suffixes h.conditional width _ target

theorem primary_succ (h : ExprMoves m width room) :
    Moves m (Expr.moved m) (Grammar.primary width (room + 2))
      (Grammar.primary width (room + 2)) := by
  refine .bind (moves_need _) fun _ => .bind (moves_accept? _) fun t => ?_
  cases t with
  | some t =>
    show Moves _ _ (pure ((atom? t).getD default)) (pure ((atom? (t.moved m)).getD default))
    rw [moved_atom?]
    cases atom? t with
    | none => exact .pure default
    | some e => exact .pure e
  | none =>
    refine .bind (moves_accept? _) fun keyword => ?_
    cases keyword with
    | some keyword =>
      exact .bind (moves_expect _ _) fun _ => .bind (moves_expect _ _) fun n =>
        .pure (Expr.super ⟨keyword, none⟩ n)
    | none =>
      exact .bind (moves_accept _) fun _ => .ite Iff.rfl
        (.bind h.expression fun e => .bind (moves_expect _ _) fun _ => .pure (Expr.group e))
        (moves_fail _)

end ExprMoves

theorem exprMoves (width room : Nat) : ExprMoves m width room := by
  induction room using Nat.strongRecOn with
  | ind room ih =>
    match room with
    | 0 | 1 => exact ⟨.throw _, .throw _, .throw _, fun _ => .throw _, .throw _, .throw _, .throw _⟩
    | room + 2 =>
      have h := ih room (by omega)
      refine ⟨h.expression_succ, h.conditional_succ, h.assignment_succ, h.binary_succ,
        h.unary_succ, ?_, h.primary_succ⟩
      cases room with
      | zero => exact .throw _
      | succ room => exact (ih room (by omega)).call_succ (ih (room + 1) (by omega))

/-! ## Statements -/

variable {width room : Nat}

theorem moves_variableDecl (width room : Nat) :
    Moves m (Stmt.moved m) (variableDecl width room) (variableDecl width room) :=
  .bind (moves_need _) fun _ => .bind (moves_expect _ _) fun n =>
    .bind (moves_behind? _ (exprMoves width room).conditional) fun e =>
      .bind (moves_expect _ _) fun _ => .pure (Stmt.var n e)

theorem moves_expressionStatement (width room : Nat) :
    Moves m (Stmt.moved m) (expressionStatement width room)
      (expressionStatement width room) :=
  .bind (exprMoves width room).expression fun e => .bind (moves_expect _ _) fun _ =>
    .pure (Stmt.expression e)

theorem moves_forInitial (width room : Nat) :
    Moves m (Option.map (Stmt.moved m)) (forInitial width room)
      (forInitial width room) :=
  .bind (moves_accept _) fun _ => .ite Iff.rfl (.pure none) <|
    .bind (moves_accept _) fun _ => .ite Iff.rfl
      (.bind (moves_variableDecl _ _) fun s => .pure (some s))
      (.bind (moves_expressionStatement _ _) fun s => .pure (some s))

theorem moves_functionDecl (width room : Nat) (kind : FunctionKind)
    {body : Reader (List Stmt)} (h : Moves m (Stmt.movedAll m) body body) :
    Moves m (FunDecl.moved m) (functionDecl width room kind body)
      (functionDecl width room kind body) := by
  refine .bind (moves_need _) fun _ => .bind (moves_expect _ _) fun n =>
    .bind (moves_expect _ _) fun _ =>
    .bind (moves_unless? _ (moves_commaList _ (moves_expect _ _) width [])) fun ps =>
    .bind (moves_expect _ _) fun _ => .bind (moves_expect _ _) fun _ =>
    .bind (moves_withLoops _ h) fun body => ?_
  rw [show (ps.map (List.map (Token.moved m))).getD [] = (ps.getD []).map (Token.moved m) by
    cases ps <;> rfl]
  exact .pure (FunDecl.mk n (ps.getD []) body)

theorem moves_classDecl (width room : Nat) {method : Reader FunDecl}
    (h : Moves m (FunDecl.moved m) method method) :
    Moves m (Stmt.moved m) (classDecl width room method)
      (classDecl width room method) := by
  have hitem : Moves m (Option.map (FunDecl.moved m))
      (do return some (← method) : Reader (Option FunDecl)) (do return some (← method)) :=
    .bind h fun d => .pure (some d)
  refine .bind (moves_need _) fun _ => .bind (moves_expect _ _) fun n =>
    .bind (moves_behind? _ (moves_expect _ _)) fun s => .bind (moves_expect _ _) fun _ =>
    .bind (moves_untilBrace hitem width []) fun ms => .bind (moves_expect _ _) fun _ => ?_
  rw [← FunDecl.movedAll_eq_map]
  cases s with
  | none => exact .pure (Stmt.classDecl n none ms)
  | some s => exact .pure (Stmt.classDecl n (some ⟨s, none⟩) ms)

theorem moved_forLoop (initial : Option Stmt) (test increment : Option Expr) (body : Stmt) :
    (Stmt.forLoop initial test increment body).moved m =
      .forLoop (initial.map (Stmt.moved m)) (test.map (Expr.moved m))
        (increment.map (Expr.moved m)) (body.moved m) := by
  cases initial <;> cases test <;> cases increment <;> rfl

/-- The rules for statements are not guided by lines. -/
structure StmtMoves (m : Int → Int) (width room : Nat) : Prop where
  declaration : Moves m (Option.map (Stmt.moved m)) (declaration width room)
    (declaration width room)
  statement : Moves m (Stmt.moved m) (statement width room) (statement width room)
  block : Moves m (Stmt.movedAll m) (block width room) (block width room)

theorem declaration_moves (hblock : ∀ r, r ≤ room + 1 → StmtMoves m width r)
    (hstmt : StmtMoves m width (room + 3)) :
    Moves m (Option.map (Stmt.moved m)) (declaration width (room + 5))
      (declaration width (room + 5)) := by
  refine moves_orResume (.bind (moves_need _) fun _ => .bind (moves_accept _) fun _ =>
    .ite Iff.rfl ?_ <| .bind (moves_accept _) fun _ => .ite Iff.rfl ?_ <|
      .bind (moves_accept _) fun _ => .ite Iff.rfl ?_ ?_)
  · exact moves_classDecl _ _ (moves_functionDecl _ _ _ (hblock room (by omega)).block)
  · exact .bind (moves_functionDecl _ _ _ (hblock (room + 1) (by omega)).block) fun d =>
      .pure (Stmt.function d)
  · exact moves_variableDecl _ _
  · exact hstmt.statement

theorem StmtMoves.block_succ (h : StmtMoves m width room) :
    Moves m (Stmt.movedAll m) (Grammar.block width (room + 2))
      (Grammar.block width (room + 2)) := by
  refine .bind (moves_need _) fun _ => .bind (moves_untilBrace h.declaration width []) fun ss =>
    .bind (moves_expect _ _) fun _ => ?_
  rw [← Stmt.movedAll_eq_map]
  exact .pure ss

theorem statement_moves (h₀ : StmtMoves m width room)
    (h₂ : StmtMoves m width (room + 2)) (h₁ : StmtMoves m width (room + 1)) :
    Moves m (Stmt.moved m) (statement width (room + 4))
      (statement width (room + 4)) := by
  have hexpr := fun r => (exprMoves (m := m) width r).expression
  refine .bind (moves_need _) fun _ => .bind (moves_accept? _) fun keyword => ?_
  cases keyword with
  | none => exact moves_expressionStatement _ _
  | some keyword =>
    dsimp only [Option.map_some, Token.moved_kind]
    split
    · -- `break`
      have hrest : Moves m (Stmt.moved m) (do
          let _ ← expect .semicolon "';' after 'break'"
          return Stmt.leave keyword) (do
          let _ ← expect .semicolon "';' after 'break'"
          return Stmt.leave (keyword.moved m)) :=
        .bind (moves_expect _ _) fun _ => .pure (Stmt.leave keyword)
      exact .bind (moves_need _) fun _ => .get fun c _ => .ite Iff.rfl
        (.bind (moves_blame keyword _) fun _ => hrest) hrest
    · -- `for`
      refine .bind (moves_need _) fun _ => .bind (moves_expect _ _) fun _ =>
        .bind (moves_forInitial _ _) fun i => .bind (moves_unless? _ (hexpr _)) fun t =>
        .bind (moves_expect _ _) fun _ => .bind (moves_unless? _ (hexpr _)) fun n =>
        .bind (moves_expect _ _) fun _ => .bind (moves_withLoops _ h₀.statement) fun b => ?_
      rw [← moved_forLoop]
      exact .pure _
    · -- `if`
      refine .bind (moves_need _) fun _ => .bind (moves_expect _ _) fun _ =>
        .bind (hexpr _) fun t => .bind (moves_expect _ _) fun _ => .bind h₁.statement fun y =>
        .bind (moves_behind? _ h₁.statement) fun n => ?_
      rw [← Stmt.moved_branch]
      exact .pure _
    · -- `print`
      exact .bind (hexpr _) fun e => .bind (moves_expect _ _) fun _ => .pure (Stmt.print e)
    · -- `return`
      exact .bind (moves_unless? _ (hexpr _)) fun e => .bind (moves_need _) fun _ =>
        .bind (moves_expect _ _) fun _ => .pure (Stmt.giveBack keyword e)
    · -- `while`
      exact .bind (moves_need _) fun _ => .bind (moves_expect _ _) fun _ =>
        .bind (hexpr _) fun t => .bind (moves_expect _ _) fun _ =>
        .bind (moves_withLoops _ h₀.statement) fun b => .pure (Stmt.loop t b)
    · -- a block
      exact .bind h₂.block fun ss => .pure (Stmt.block ss)

theorem stmtMoves (width room : Nat) : StmtMoves m width room := by
  induction room using Nat.strongRecOn with
  | ind room ih =>
    refine ⟨?_, ?_, ?_⟩
    · match room with
      | 0 | 1 | 2 | 3 | 4 => exact .throw _
      | room + 5 => exact declaration_moves (fun r hr => ih r (by omega)) (ih _ (by omega))
    · match room with
      | 0 | 1 | 2 | 3 => exact .throw _
      | room + 4 => exact statement_moves (ih _ (by omega)) (ih _ (by omega)) (ih _ (by omega))
    · match room with
      | 0 | 1 => exact .throw _
      | room + 2 => exact (ih room (by omega)).block_succ

theorem moves_topLevels (width room : Nat) : ∀ n done,
    Moves m (List.map (Stmt.moved m)) (topLevels width room n done)
      (topLevels width room n (done.map (Stmt.moved m))) := by
  intro n
  induction n with
  | zero =>
    intro done
    unfold topLevels
    rw [← List.map_reverse]
    exact .pure _
  | succ n ih =>
    intro done
    refine .bind (moves_atEnd) fun _ => .ite Iff.rfl ?_ <|
      .bind (moves_orGiveUp (stmtMoves width room).declaration) fun s => ?_
    · rw [← List.map_reverse]
      exact .pure _
    · cases s with
      | none => exact ih done
      | some s => exact ih (s :: done)

/-- **What was read, on other lines.** -/
def Outcome.moved (m : Int → Int) (o : Outcome Program) : Outcome Program where
  result := Stmt.movedAll m o.result
  diagnostics := o.diagnostics.map (Diagnostic.moved m)

end Grammar

open Grammar

/-- **Reading is not guided by lines**, neither by that of the place behind all tokens if a closing
token stands in front of it. -/
theorem Program.ofTokens_moved_of_bounded {m : Int → Int} (room : Nat) {tokens : List Token}
    (h : m 0 = 0 ∨ ∃ t ∈ tokens, t.isEnd = true) :
    Program.ofTokens room (tokens.map (Token.moved m)) =
      (Program.ofTokens room tokens).moved m := by
  have hrun := (moves_topLevels tokens.length room tokens.length [] { rest := tokens } h).1
  unfold Program.ofTokens
  dsimp only
  rw [List.length_map, show topLevels tokens.length room tokens.length []
    { rest := tokens.map (Token.moved m) } = _ from hrun]
  cases topLevels tokens.length room tokens.length [] { rest := tokens } with
  | ok p c =>
    show Outcome.mk (p.map (Stmt.moved m)) _ = Outcome.mk (Stmt.movedAll m p) _
    rw [Stmt.movedAll_eq_map]
    rfl
  | error e c => rfl

/-- **Reading is not guided by lines.** -/
theorem Program.ofTokens_moved {m : Int → Int} (hm : m 0 = 0) (room : Nat) (tokens : List Token) :
    Program.ofTokens room (tokens.map (Token.moved m)) =
      (Program.ofTokens room tokens).moved m :=
  ofTokens_moved_of_bounded room (.inl hm)

/-- **What was read is on the lines of the tokens**: it stays where it is when lines are told anew
that none of them is on. -/
theorem Program.ofTokens_stays {m : Int → Int} (room : Nat) {tokens : List Token}
    (hend : ∃ t ∈ tokens, t.isEnd = true) (hfixed : ∀ t ∈ tokens, t.moved m = t) :
    (Program.ofTokens room tokens).moved m = Program.ofTokens room tokens := by
  rw [← ofTokens_moved_of_bounded room (.inr hend), List.map_congr_left hfixed, List.map_id'']
  exact fun _ => rfl

end LoxKit
