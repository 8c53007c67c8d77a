import LoxKit.Proofs.Grammar.Shaped
import LoxKit.Proofs.Grammar.Steps

/-!
# What a `for` statement says

The clauses of a `for` statement and its body (`ForClauses`) are what is read behind the word
(`Grammar.forClauses`).  The tree that reading yields is built from them
(`Grammar.statement_forWord`), and a tree that differs from it only in its distances is built
from clauses that differ only in theirs (`ForClauses.of_bare_tree`).
-/
namespace LoxKit

/-- **The clauses of a `for` statement** and its body. -/
structure ForClauses where
  initial : Option Stmt
  test : Option Expr
  increment : Option Expr
  body : Stmt

/-- Whether a statement may be the first clause: a variable, or an expression. -/
def Stmt.isClause : Stmt → Bool
  | .var .. | .expression _ => true
  | _ => false

@[simp] theorem Stmt.isClause_bare (s : Stmt) : s.bare.isClause = s.isClause := by
  cases s with
  | branch t y n => cases n <;> rfl
  | _ => rfl

namespace ForClauses

/-- The tree that stands for the statement. -/
def tree (f : ForClauses) : Stmt := .forLoop f.initial f.test f.increment f.body

/-- The test, which always holds if it is omitted. -/
def condition (f : ForClauses) : Expr := f.test.getD (.literal (.bool true))

/-- What is executed in each turn: the body, in a block with the increment if there is one. -/
def turn (f : ForClauses) : Stmt :=
  match f.increment with
  | some e => .block [f.body, .expression e]
  | none => f.body

/-- The loop, without the initializer. -/
def loop (f : ForClauses) : Stmt := .loop f.condition f.turn

theorem tree_eq (f : ForClauses) :
    f.tree = match f.initial with
      | some s => .block [s, f.loop]
      | none => f.loop := rfl

/-- The clauses without their distances. -/
def bare (f : ForClauses) : ForClauses :=
  ⟨f.initial.map Stmt.bare, f.test.map Expr.bare, f.increment.map Expr.bare, f.body.bare⟩

theorem bare_condition (f : ForClauses) : f.bare.condition = f.condition.bare := by
  obtain ⟨initial, test, increment, body⟩ := f
  cases test <;> rfl

/-- **Clauses as they are read**: shaped, without distances, and with no declaration but a
variable in front. -/
structure Fresh (f : ForClauses) : Prop where
  initial : ∀ s ∈ f.initial, s.Fresh ∧ s.isClause
  test : ∀ e ∈ f.test, e.Fresh
  increment : ∀ e ∈ f.increment, e.Fresh
  body : f.body.FreshBody

theorem Fresh.tree {f : ForClauses} (h : f.Fresh) : f.tree.Fresh :=
  (Stmt.fresh_forLoop (fun s hs => (h.initial s hs).1) h.test h.increment h.body).1

/-- **Shaped clauses**, with distances or without. -/
structure Shaped (f : ForClauses) : Prop where
  initial : ∀ s ∈ f.initial, s.Shaped ∧ s.isClause
  condition : f.condition.Shaped
  increment : ∀ e ∈ f.increment, e.Shaped
  body : f.body.isDeclaration = false ∧ f.body.Shaped

/-- Clauses are shaped if they were read, without their distances. -/
theorem Fresh.shaped {f : ForClauses} (h : f.bare.Fresh) : f.Shaped where
  initial s hs := by
    obtain ⟨hfresh, hclause⟩ := h.initial s.bare (Option.mem_map_of_mem Stmt.bare hs)
    exact ⟨s.shaped_bare.mp hfresh.1, s.isClause_bare.symm.trans hclause⟩
  condition := by
    obtain ⟨initial, test, increment, body⟩ := f
    cases test with
    | none => trivial
    | some e => exact e.shaped_bare.mp (h.test e.bare rfl).1
  increment e he := e.shaped_bare.mp (h.increment e.bare (Option.mem_map_of_mem Expr.bare he)).1
  body := ⟨f.body.isDeclaration_bare.symm.trans h.body.2, f.body.shaped_bare.mp h.body.1.1⟩

end ForClauses

/-- Of two steps that succeed together, each does. -/
theorem of_bind_ok {ε ς α β : Type} {p : EStateM ε ς α} {f : α → EStateM ε ς β} {c d : ς} {b : β}
    (h : (p >>= f) c = .ok b d) : ∃ a c', p c = .ok a c' ∧ f a c' = .ok b d := by
  simp only [Bind.bind, EStateM.bind] at h
  cases hp : p c with
  | ok a c' => rw [hp] at h; exact ⟨a, c', rfl, h⟩
  | error e c' => rw [hp] at h; cases h

/-- A step that yields something succeeds. -/
theorem of_run_eq_some {ε ς α : Type} {x : EStateM ε ς α} {c : ς} {a : α}
    (h : x.run' c = some a) : ∃ d, x c = .ok a d := by
  unfold EStateM.run' EStateM.run at h
  cases hx : x c with
  | ok a' d => rw [hx] at h; cases h; exact ⟨d, rfl⟩
  | error e d => rw [hx] at h; cases h

/-! ## Reading them -/

namespace Grammar

variable {width room : Nat}

/-- What is read behind `for`. -/
def forClauses (width room : Nat) : Reader ForClauses := do
  let _ ← expect .leftParen "'(' after 'for'"
  let initial ← forInitial width room
  let test ← unless? .semicolon (expression width (room + 1))
  let _ ← expect .semicolon "';' after loop condition"
  let increment ← unless? .rightParen (expression width (room + 1))
  let _ ← expect .rightParen "')' after for clauses"
  return ⟨initial, test, increment, ← withLoops (· + 1) (statement width room)⟩

/-- What a step yields has all that is said of it. -/
theorem Yields.and {α : Type} {p : Reader α} {Q R : α → Prop} (hQ : Yields p Q)
    (hR : Yields p R) : Yields p fun a => Q a ∧ R a := by
  intro c hc
  have hq := hQ c hc
  have hr := hR c hc
  cases hp : p c with
  | ok a d => rw [hp] at hq hr; exact ⟨hq.1, hq.2, hr.2⟩
  | error e d => rw [hp] at hq; exact hq

theorem yields_forInitial_isClause (width room : Nat) :
    Yields (forInitial width room) fun s => ∀ s' ∈ s, s'.isClause := by
  refine .bind (yields_accept _) fun _ _ => .ite (fun _ => .pure (by simp)) fun _ =>
    .bind (yields_accept _) fun _ _ => .ite (fun _ => ?_) fun _ => ?_
  · have hvar : Yields (variableDecl width room) fun s => s.isClause :=
      .bind (yields_need _) fun _ _ => .bind (yields_expect_identifier _) fun _ _ =>
        .bind (yields_behind? _ (exprRules width room).conditional) fun _ _ =>
          .bind (yields_expect _ _) fun _ _ => .pure rfl
    exact .bind hvar fun s hs => .pure (by simpa using hs)
  · have hexpr : Yields (expressionStatement width room) fun s => s.isClause :=
      .bind (yields_expression _ _) fun _ _ => .bind (yields_expect _ _) fun _ _ => .pure rfl
    exact .bind hexpr fun s hs => .pure (by simpa using hs)

theorem yields_forClauses (width room : Nat) :
    Yields (forClauses width room) ForClauses.Fresh :=
  .bind (yields_expect _ _) fun _ _ =>
    .bind ((yields_forInitial _ _).and (yields_forInitial_isClause _ _)) fun _ hi =>
    .bind (yields_unless? _ (yields_expression _ _)) fun _ ht =>
    .bind (yields_expect _ _) fun _ _ =>
    .bind (yields_unless? _ (yields_expression _ _)) fun _ hn =>
    .bind (yields_expect _ _) fun _ _ =>
    .bind (yields_withLoops _ (stmtRules _ _).statement) fun _ hb =>
    .pure ⟨fun s hs => ⟨hi.1 s hs, hi.2 s hs⟩, ht, hn, hb⟩

theorem of_need_ok {u : Unit} {c d : Cursor} (h : need room c = .ok u d) : d = c := by
  unfold need at h
  split at h <;> cases h
  rfl

/-- **A `for` statement is read as the tree of its clauses.** -/
theorem statement_forWord {c d : Cursor} {s : Stmt} (hword : c.current.kind = .forWord)
    (h : statement width room c = .ok s d) :
    ∃ f, forClauses width (room - 4) c.advance = .ok f d ∧ s = f.tree := by
  obtain ⟨room, rfl⟩ : ∃ r, room = r + 4 := by
    match room with
    | 0 | 1 | 2 | 3 => cases h
    | room + 4 => exact ⟨room, rfl⟩
  have hend : c.atEnd = false := by
    unfold Cursor.atEnd Token.isEnd
    rw [hword]
    rfl
  have haccept : accept? isStatementWord c = .ok (some c.current) c.advance :=
    accept?_some hend (by rw [hword]; rfl)
  unfold statement at h
  obtain ⟨_, _, hneed, hbehind⟩ := of_bind_ok h
  rw [of_need_ok hneed, bind_ok haccept] at hbehind
  simp only [hword] at hbehind
  obtain ⟨_, _, hneed', h⟩ := of_bind_ok hbehind
  rw [of_need_ok hneed'] at h
  obtain ⟨_, c₁, hparen, h⟩ := of_bind_ok h
  obtain ⟨initial, c₂, hinitial, h⟩ := of_bind_ok h
  obtain ⟨test, c₃, htest, h⟩ := of_bind_ok h
  obtain ⟨_, c₄, hsemicolon, h⟩ := of_bind_ok h
  obtain ⟨increment, c₅, hincrement, h⟩ := of_bind_ok h
  obtain ⟨_, c₆, hclose, h⟩ := of_bind_ok h
  obtain ⟨body, c₇, hbody, h⟩ := of_bind_ok h
  cases h
  refine ⟨⟨initial, test, increment, body⟩, ?_, rfl⟩
  unfold forClauses
  rw [Nat.add_sub_cancel, bind_ok hparen, bind_ok hinitial, bind_ok htest, bind_ok hsemicolon,
    bind_ok hincrement, bind_ok hclose, bind_ok hbody]
  rfl

end Grammar

/-! ## Trees with distances -/

theorem Stmt.of_bare_block {s : Stmt} {ss : List Stmt} (h : s.bare = .block ss) :
    ∃ ss', s = .block ss' ∧ Stmt.bareAll ss' = ss := by
  cases s with
  | block ss' => exact ⟨ss', rfl, Stmt.block.inj h⟩
  | branch t y n => cases n <;> cases h
  | _ => cases h

theorem Stmt.of_bare_loop {s : Stmt} {t : Expr} {b : Stmt} (h : s.bare = .loop t b) :
    ∃ t' b', s = .loop t' b' ∧ t'.bare = t ∧ b'.bare = b := by
  cases s with
  | loop t' b' =>
    obtain ⟨ht, hb⟩ := Stmt.loop.inj h
    exact ⟨t', b', rfl, ht, hb⟩
  | branch t y n => cases n <;> cases h
  | _ => cases h

theorem Stmt.of_bare_expression {s : Stmt} {e : Expr} (h : s.bare = .expression e) :
    ∃ e', s = .expression e' ∧ e'.bare = e := by
  cases s with
  | expression e' => exact ⟨e', rfl, Stmt.expression.inj h⟩
  | branch t y n => cases n <;> cases h
  | _ => cases h

/-- A block of two statements is one of two statements without its distances. -/
theorem Stmt.of_bare_pair {s a b : Stmt} (h : s.bare = .block [a, b]) :
    ∃ a' b', s = .block [a', b'] ∧ a'.bare = a ∧ b'.bare = b := by
  obtain ⟨ss, rfl, hss⟩ := Stmt.of_bare_block h
  rw [Stmt.bareAll_eq_map] at hss
  obtain ⟨a', ss₁, rfl, rfl, hss₁⟩ := List.map_eq_cons_iff.mp hss
  obtain ⟨b', ss₂, rfl, rfl, hss₂⟩ := List.map_eq_cons_iff.mp hss₁
  rw [List.map_eq_nil_iff.mp hss₂]
  exact ⟨a', b', rfl, rfl, rfl⟩

namespace ForClauses

/-- Something without distances is the test, if it is one without its distances. -/
theorem of_bare_condition {test : Option Expr} {e : Expr}
    (h : e.bare = test.getD (.literal (.bool true))) :
    ∃ test' : Option Expr, e = test'.getD (.literal (.bool true)) ∧
      test'.map Expr.bare = test := by
  cases test with
  | none =>
    cases e with
    | literal v => exact ⟨none, h, rfl⟩
    | _ => cases h
  | some t => exact ⟨some e, rfl, congrArg some h⟩

theorem of_bare_turn {increment : Option Expr} {body s : Stmt}
    (h : s.bare = turn ⟨none, none, increment, body⟩) :
    ∃ increment' body', s = turn ⟨none, none, increment', body'⟩ ∧
      increment'.map Expr.bare = increment ∧ body'.bare = body := by
  cases increment with
  | none => exact ⟨none, s, rfl, rfl, h⟩
  | some e =>
    obtain ⟨body', s', rfl, hbody, hs'⟩ := Stmt.of_bare_pair h
    obtain ⟨e', rfl, he⟩ := Stmt.of_bare_expression hs'
    exact ⟨some e', body', rfl, congrArg some he, hbody⟩

/-- **A tree that is that of some clauses without its distances** is that of clauses that are
these without theirs. -/
theorem of_bare_tree {f : ForClauses} {s : Stmt} (h : s.bare = f.tree) :
    ∃ f' : ForClauses, s = f'.tree ∧ f'.bare = f := by
  have hloop : ∀ s : Stmt, s.bare = f.loop → ∃ test increment body,
      s = loop ⟨none, test, increment, body⟩ ∧ test.map Expr.bare = f.test ∧
        increment.map Expr.bare = f.increment ∧ body.bare = f.body := by
    intro s hs
    obtain ⟨t, b, rfl, ht, hb⟩ := Stmt.of_bare_loop hs
    obtain ⟨test, rfl, htest⟩ := of_bare_condition ht
    obtain ⟨increment, body, rfl, hincrement, hbody⟩ := of_bare_turn hb
    exact ⟨test, increment, body, rfl, htest, hincrement, hbody⟩
  obtain ⟨initial, test, increment, body⟩ := f
  cases initial with
  | none =>
    obtain ⟨test', increment', body', rfl, rfl, rfl, rfl⟩ := hloop s h
    exact ⟨⟨none, test', increment', body'⟩, rfl, rfl⟩
  | some i =>
    obtain ⟨i', s', rfl, rfl, hs'⟩ := Stmt.of_bare_pair h
    obtain ⟨test', increment', body', rfl, rfl, rfl, rfl⟩ := hloop s' hs'
    exact ⟨⟨some i', test', increment', body'⟩, rfl, rfl⟩

end ForClauses
end LoxKit
