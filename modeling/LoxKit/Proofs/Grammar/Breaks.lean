import LoxKit.Proofs.Grammar.Quiet
import LoxKit.Proofs.Grammar.StatementLeads

/-!
# A stray break is reported, whatever else is wrong

Reading counts the loops around a place, and begins anew in a function body.  Syntax errors cut
rules off in the middle of loops and functions, but no rule leaves another count behind than it
found.  So the count is zero between declarations of the top level, however they ended, and in
whatever tree reading comes to, those breaks are reported that no loop of their function encloses
(`Program.ofTokens_breaks`).

Two tokens of one line may be alike.  To tell them apart the tokens are numbered instead of being
given their lines, of which reading takes no notice (`Program.ofTokens_moved`).
-/
namespace LoxKit
namespace Grammar

variable {α β : Type} {l : Nat} {before : List Break} {after : α → List Break}

/-! ## Statements -/

variable {width room : Nat}

/-- A variable declaration has no breaks. -/
theorem checks_variableDecl (l : Nat) (before : List Break) (width room : Nat) (enclosed : Bool) :
    Checks l (variableDecl width room) before fun s => s.breaks enclosed ++ before :=
  (quiet_need _).andThen fun _ => (quiet_expect _ _).andThen fun _ =>
    (quiet_behind? _ (quietRules width room).conditional).andThen fun _ =>
      (quiet_expect _ _).andThen fun _ => .pure (List.Subset.refl _)

theorem checks_expressionStatement (l : Nat) (before : List Break) (width room : Nat)
    (enclosed : Bool) :
    Checks l (expressionStatement width room) before fun s => s.breaks enclosed ++ before :=
  (quiet_expression _ _).andThen fun _ => (quiet_expect _ _).andThen fun _ =>
    .pure (List.Subset.refl _)

theorem checks_forInitial (l : Nat) (before : List Break) (width room : Nat) (enclosed : Bool) :
    Checks l (forInitial width room) before fun i =>
      i.elim [] (Stmt.breaks enclosed) ++ before :=
  (quiet_accept _).andThen fun _ => .ite (fun _ => .pure (List.Subset.refl _)) fun _ =>
    (quiet_accept _).andThen fun _ => .ite
      (fun _ => .bind (checks_variableDecl l before _ _ enclosed) fun _ =>
        .pure (List.Subset.refl _))
      fun _ => .bind (checks_expressionStatement l before _ _ enclosed) fun _ =>
        .pure (List.Subset.refl _)

/-- Items that come to nothing have no breaks. -/
theorem checks_untilBrace {item : Reader (Option α)} {breaks : α → List Break}
    (h : ∀ before, Checks l item before fun a => a.elim [] breaks ++ before) :
    ∀ n done, Checks l (untilBrace item n done) (done.flatMap breaks ++ before) fun as =>
      as.flatMap breaks ++ before := by
  have hdone : ∀ done : List α,
      done.reverse.flatMap breaks ++ before ⊆ done.flatMap breaks ++ before := fun done b => by
    simp
  intro n
  induction n with
  | zero => exact fun done => .pure (hdone done)
  | succ n ih =>
    intro done
    refine (quiet_check _).andThen fun _ => quiet_atEnd.andThen fun _ =>
      .ite (fun _ => .pure (hdone done)) fun _ => .bind (h _) fun x => ?_
    cases x with
    | none => exact ih done
    | some x =>
      have hrest := ih (x :: done)
      rw [List.flatMap_cons, List.append_assoc] at hrest
      exact hrest

/-- A function body begins anew. -/
theorem checks_functionDecl {body : Reader (List Stmt)}
    (h : ∀ before, Checks 0 body before fun ss => Stmt.breaksAll false ss ++ before)
    (l : Nat) (before : List Break) (width room : Nat) (kind : FunctionKind) :
    Checks l (functionDecl width room kind body) before fun d => d.breaks ++ before :=
  (quiet_need _).andThen fun _ => (quiet_expect _ _).andThen fun _ =>
    (quiet_expect _ _).andThen fun _ =>
    (quiet_unless? _ (quiet_commaList _ (quiet_expect _ _) width [])).andThen fun _ =>
    (quiet_expect _ _).andThen fun _ => (quiet_expect _ _).andThen fun _ =>
    .bind (checks_withLoops _ (h before)) fun _ => .pure (List.Subset.refl _)

theorem checks_classDecl {method : Reader FunDecl}
    (h : ∀ before, Checks l method before fun d => d.breaks ++ before) (before : List Break)
    (width room : Nat) (enclosed : Bool) :
    Checks l (classDecl width room method) before fun s => s.breaks enclosed ++ before := by
  have hitem : ∀ before, Checks l (do return some (← method)) before fun d =>
      d.elim [] FunDecl.breaks ++ before :=
    fun before => .bind (h before) fun _ => .pure (List.Subset.refl _)
  refine (quiet_need _).andThen fun _ => (quiet_expect _ _).andThen fun _ =>
    (quiet_behind? _ (quiet_expect _ _)).andThen fun _ => (quiet_expect _ _).andThen fun _ =>
    .bind (checks_untilBrace hitem width []) fun ms => (quiet_expect _ _).andThen fun _ =>
    .pure ?_
  rw [Stmt.breaks, FunDecl.breaksAll_eq_flatMap]
  exact List.Subset.refl _

/-- What a step comes to behind the token ahead. -/
def Cursor.ComesBehind (c : Cursor) (before : List Break) (after : α → List Break)
    (p : Reader α) : Prop := c.Comes before after (p c.advance)

theorem Checks.behind {p : Reader α} (h : Checks l p before after) {c : Cursor} (hc : c.loops = l)
    (hend : c.atEnd = false) : c.ComesBehind before after p := by
  have htook := c.took_current hend
  exact (htook.reads (List.Subset.refl _)).comes (h _ (htook.loops.trans hc))

/-- A step that begins with a token if one of the wanted kinds is ahead. -/
theorem checks_accept? {wanted : TokenKind → Bool} {f : Option Token → Reader α}
    (hnone : Checks l (f none) before after)
    (hsome : ∀ c : Cursor, c.loops = l → c.atEnd = false →
      c.ComesBehind before after (f (some c.current))) :
    Checks l (accept? wanted >>= f) before after := by
  intro c hc
  by_cases htaken : (!c.atEnd && wanted c.current.kind) = true
  · obtain ⟨hend, hwanted⟩ : c.atEnd = false ∧ wanted c.current.kind = true := by
      simpa using htaken
    rw [bind_ok (accept?_some hend hwanted)]
    exact hsome c hc hend
  · have hrun : accept? wanted c = .ok none c := by rw [accept?_apply, if_neg htaken]
    rw [bind_ok hrun]
    exact hnone c hc

/-- **Where a `break` is read, it is reported** if there is no loop around it. -/
theorem comes_break {c : Cursor} (hc : c.loops = l) (hend : c.atEnd = false) (room : Nat) :
    c.ComesBehind before (fun s => s.breaks (l != 0) ++ before) (do
      need room
      if (← get).loops = 0 then blame c.current .strayBreak
      let _ ← expect .semicolon "';' after 'break'"
      return Stmt.leave c.current) := by
  have htook := c.took_current hend
  have hrest : Checks l (do
      let _ ← expect .semicolon "';' after 'break'"
      return Stmt.leave c.current) (⟨c.current, l != 0⟩ :: before) fun s =>
        s.breaks (l != 0) ++ before :=
    (quiet_expect _ _).andThen fun _ => .pure (List.Subset.refl _)
  unfold Cursor.ComesBehind
  by_cases hroom : lookRoom ≤ room
  · rw [bind_ok (need_ok hroom _)]
    by_cases hl : l = 0
    · have hstray : c.Reads before (c.advance.blame c.current .strayBreak)
          (⟨c.current, l != 0⟩ :: before) := by
        refine ⟨[c.current], [c.current.stray], ⟨htook.loops, htook.rest, ?_, ?_⟩, ?_⟩
        · rw [← c.diagnostics.append_nil, ← htook.diagnostics]
          rfl
        · rintro x hx -
          rw [List.mem_singleton.mp hx]
          exact List.mem_singleton_self _
        · rintro - b hb
          rcases List.mem_cons.mp hb with rfl | hb
          · exact .inr ⟨List.mem_singleton_self _, by simp [hl]⟩
          · exact .inl hb
      have hzero : c.advance.loops = 0 := htook.loops.trans (hc.trans hl)
      show c.Comes _ _ ((if c.advance.loops = 0 then _ else _ : Reader Stmt) c.advance)
      rw [if_pos hzero]
      exact hstray.comes (hrest _ (hstray.loops.trans hc))
    · have henclosed : c.Reads before c.advance (⟨c.current, l != 0⟩ :: before) := by
        refine ⟨[c.current], [], htook, fun _ b hb => ?_⟩
        rcases List.mem_cons.mp hb with rfl | hb
        · exact .inr ⟨List.mem_singleton_self _, by simp [hl]⟩
        · exact .inl hb
      have hloops : c.advance.loops ≠ 0 := by rwa [htook.loops, hc]
      show c.Comes _ _ ((if c.advance.loops = 0 then _ else _ : Reader Stmt) c.advance)
      rw [if_neg hloops]
      exact henclosed.comes (hrest _ (henclosed.loops.trans hc))
  · have hneed : need room c.advance = .error .tooDeep c.advance := by
      unfold need
      rw [if_pos (Nat.lt_of_not_le hroom)]
      rfl
    rw [bind_error hneed]
    exact htook.reads (List.Subset.refl _)

/-- The rules for statements read correctly, inside any number of loops. -/
structure StmtChecks (width room : Nat) : Prop where
  declaration : ∀ l before, Checks l (declaration width room) before fun s =>
    s.elim [] (Stmt.breaks (l != 0)) ++ before
  statement : ∀ l before, Checks l (statement width room) before fun s =>
    s.breaks (l != 0) ++ before
  block : ∀ l before, Checks l (block width room) before fun ss =>
    Stmt.breaksAll (l != 0) ss ++ before

theorem declaration_checks (hblock : ∀ r, r ≤ room + 1 → StmtChecks width r)
    (hstmt : StmtChecks width (room + 3)) (l : Nat) (before : List Break) :
    Checks l (declaration width (room + 5)) before fun s =>
      s.elim [] (Stmt.breaks (l != 0)) ++ before := by
  refine checks_orResume (Stmt.breaks (l != 0)) <| (quiet_need _).andThen fun _ =>
    (quiet_accept _).andThen fun _ => .ite (fun _ => ?_) fun _ =>
    (quiet_accept _).andThen fun _ => .ite (fun _ => ?_) fun _ =>
    (quiet_accept _).andThen fun _ => .ite (fun _ => ?_) fun _ => ?_
  · exact checks_classDecl (fun before =>
      checks_functionDecl ((hblock room (by omega)).block 0) l before _ _ _) _ _ _ _
  · exact .bind (checks_functionDecl ((hblock (room + 1) (by omega)).block 0) l before _ _ _)
      fun _ => .pure (List.Subset.refl _)
  · exact checks_variableDecl _ _ _ _ _
  · exact hstmt.statement l before

theorem StmtChecks.block_succ (h : StmtChecks width room) (l : Nat) (before : List Break) :
    Checks l (Grammar.block width (room + 2)) before fun ss =>
      Stmt.breaksAll (l != 0) ss ++ before := by
  refine (quiet_need _).andThen fun _ => .bind (checks_untilBrace (h.declaration l) width [])
    fun ss => (quiet_expect _ _).andThen fun _ => .pure ?_
  rw [Stmt.breaksAll_eq_flatMap]
  exact List.Subset.refl _

theorem statement_checks (h₀ : StmtChecks width room) (h₁ : StmtChecks width (room + 1))
    (h₂ : StmtChecks width (room + 2)) (l : Nat) (before : List Break) :
    Checks l (statement width (room + 4)) before fun s => s.breaks (l != 0) ++ before := by
  refine (quiet_need _).andThen fun _ =>
    checks_accept? (checks_expressionStatement _ _ _ _ _) fun c hc hend => ?_
  dsimp only
  split
  · -- `break`
    exact comes_break hc hend _
  · -- `for`
    refine Checks.behind ?_ hc hend
    refine (quiet_need _).andThen fun _ => (quiet_expect _ _).andThen fun _ =>
      .bind (checks_forInitial l before _ _ (l != 0)) fun i =>
      (quiet_unless? _ (quiet_expression _ _)).andThen fun _ =>
      (quiet_expect _ _).andThen fun _ =>
      (quiet_unless? _ (quiet_expression _ _)).andThen fun _ =>
      (quiet_expect _ _).andThen fun _ =>
      .bind (checks_withLoops _ (h₀.statement (l + 1) _)) fun b => .pure ?_
    rw [Stmt.breaks_forLoop]
    intro x hx
    simpa [or_assoc, or_left_comm] using hx
  · -- `if`
    refine Checks.behind ?_ hc hend
    refine (quiet_need _).andThen fun _ => (quiet_expect _ _).andThen fun _ =>
      (quiet_expression _ _).andThen fun _ => (quiet_expect _ _).andThen fun _ =>
      .bind (h₁.statement l before) fun y => .bind (checks_behind? _ (h₁.statement l _)) fun n =>
      .pure ?_
    cases n with
    | none => exact List.Subset.refl _
    | some n =>
      intro x hx
      simpa [Stmt.breaks, or_assoc, or_left_comm] using hx
  · -- `print`
    refine Checks.behind ?_ hc hend
    exact (quiet_expression _ _).andThen fun _ => (quiet_expect _ _).andThen fun _ =>
      .pure (List.Subset.refl _)
  · -- `return`
    refine Checks.behind ?_ hc hend
    exact (quiet_unless? _ (quiet_expression _ _)).andThen fun _ =>
      (quiet_need _).andThen fun _ => (quiet_expect _ _).andThen fun _ =>
      .pure (List.Subset.refl _)
  · -- `while`
    refine Checks.behind ?_ hc hend
    exact (quiet_need _).andThen fun _ => (quiet_expect _ _).andThen fun _ =>
      (quiet_expression _ _).andThen fun _ => (quiet_expect _ _).andThen fun _ =>
      .bind (checks_withLoops _ (h₀.statement (l + 1) before)) fun _ =>
      .pure (List.Subset.refl _)
  · -- a block
    refine Checks.behind ?_ hc hend
    exact .bind (h₂.block l before) fun _ => .pure (List.Subset.refl _)

theorem stmtChecks (width room : Nat) : StmtChecks width room := by
  induction room using Nat.strongRecOn with
  | ind room ih =>
    refine ⟨?_, ?_, ?_⟩
    · match room with
      | 0 | 1 | 2 | 3 | 4 => exact fun _ _ => .throw _
      | room + 5 => exact declaration_checks (fun r hr => ih r (by omega)) (ih _ (by omega))
    · match room with
      | 0 | 1 | 2 | 3 => exact fun _ _ => .throw _
      | room + 4 => exact statement_checks (ih _ (by omega)) (ih _ (by omega)) (ih _ (by omega))
    · match room with
      | 0 | 1 => exact fun _ _ => .throw _
      | room + 2 => exact (ih room (by omega)).block_succ

/-! ## The top level -/

/-- A declaration of the top level. -/
theorem checks_topLevel (width room : Nat) (before : List Break) :
    Checks 0 (topLevel width room) before fun s => s.elim [] (Stmt.breaks false) ++ before :=
  checks_orGiveUp ((stmtChecks width room).declaration 0 before) (List.Subset.refl _)

theorem checks_topLevels (width room : Nat) : ∀ n done,
    Checks 0 (topLevels width room n done) (done.flatMap (Stmt.breaks false)) fun ss =>
      ss.flatMap (Stmt.breaks false) := by
  have hdone : ∀ done : List Stmt,
      done.reverse.flatMap (Stmt.breaks false) ⊆ done.flatMap (Stmt.breaks false) :=
    fun done b => by simp
  intro n
  induction n with
  | zero => exact fun done => .pure (hdone done)
  | succ n ih =>
    intro done
    refine quiet_atEnd.andThen fun _ => .ite (fun _ => .pure (hdone done)) fun _ =>
      .bind (checks_topLevel _ _ _) fun s => ?_
    cases s with
    | none => exact ih done
    | some s => exact ih (s :: done)

/-- **The cursors between the declarations of the top level**, from the first token on, however
each of the declarations ended. -/
inductive Between (room : Nat) (tokens : List Token) : Cursor → Prop where
  | start : Between room tokens { rest := tokens }
  | behind {c d : Cursor} {s : Option Stmt} : Between room tokens c →
    topLevel tokens.length room c = .ok s d → Between room tokens d

/-- No loop is counted between the declarations of the top level. -/
theorem Between.loops {room : Nat} {tokens : List Token} {c : Cursor}
    (h : Between room tokens c) : c.loops = 0 := by
  induction h with
  | start => rfl
  | @behind c d s _ hrun ih =>
    have hread := checks_topLevel tokens.length room [] c ih
    rw [hrun] at hread
    exact (show c.Reads [] d _ from hread).loops.trans ih

end Grammar

open Grammar

namespace Token

/-- **Tokens with their numbers**, counted from 1, in place of their lines. -/
def numbered (ts : List Token) : List Token := ts.mapIdx fun i t => { t with line := i + 1 }

/-- The line of the token with a number. -/
def lineOf (ts : List Token) (n : Int) : Int := ((0 :: ts.map Token.line)[n.toNat]?).getD 0

/-- Numbered tokens on their lines. -/
theorem moved_numbered (ts : List Token) : (numbered ts).map (moved (lineOf ts)) = ts := by
  refine List.ext_getElem (by simp [numbered]) fun i hi hi' => ?_
  simp [numbered, moved, lineOf, hi']

/-- Numbers tell tokens apart. -/
theorem nodup_numbered (ts : List Token) : ((numbered ts).map line).Nodup := by
  refine List.pairwise_iff_getElem.mpr fun i j hi hj hij => ?_
  simp only [numbered, List.getElem_map, List.getElem_mapIdx]
  omega

end Token

/-- **A stray break is reported, whatever else is wrong.**  At each cursor between two declarations
of the top level no loop is counted, and the declaration behind it comes to an end.  The breaks of
the program that is read are among the tokens, and reported are those that no loop encloses within
their function.  To say which token a `break` is, the tokens are numbered instead of being given
their lines; what is read then is the same program. -/
theorem Program.ofTokens_breaks (room : Nat) (tokens : List Token) :
    (∀ c, Between room tokens c → c.loops = 0 ∧
      ∃ s d, topLevel tokens.length room c = .ok s d) ∧
    Program.ofTokens room tokens =
      (Program.ofTokens room (Token.numbered tokens)).moved (Token.lineOf tokens) ∧
    ∀ b ∈ Stmt.breaksAll false (Program.ofTokens room (Token.numbered tokens)).result,
      b.keyword ∈ Token.numbered tokens ∧
        (b.keyword.stray ∈ (Program.ofTokens room (Token.numbered tokens)).diagnostics ↔
          b.enclosed = false) := by
  refine ⟨fun c hc => ⟨hc.loops, topLevel_ok c⟩, ?_, ?_⟩
  · rw [← Program.ofTokens_moved rfl, Token.moved_numbered]
  · have hdistinct := Token.nodup_numbered tokens
    generalize Token.numbered tokens = ts at hdistinct ⊢
    have hread := checks_topLevels ts.length room ts.length [] { rest := ts } rfl
    unfold Program.ofTokens
    dsimp only
    cases hrun : topLevels ts.length room ts.length [] { rest := ts } with
    | error e d => exact nofun
    | ok p d =>
      rw [hrun] at hread
      obtain ⟨used, ds, htook, hjudged⟩ := hread
      have hused : ∀ t ∈ used, t ∈ ts := fun t ht => by
        rw [show ts = used ++ d.rest from htook.rest]
        exact List.mem_append_left _ ht
      have hdiagnostics : d.diagnostics = ds := htook.diagnostics
      intro b hb
      dsimp only at hb ⊢
      rw [Stmt.breaksAll_eq_flatMap] at hb
      rcases hjudged hdistinct b hb with hnone | ⟨hkeyword, hstray⟩
      · cases hnone
      · exact ⟨hused _ hkeyword, by rw [hdiagnostics]; exact hstray⟩

end LoxKit
