import LoxKit.Proofs.Grammar.RuleAgreement

/-!
# A simple statement

A simple statement ends in the only semicolon it holds, and it has no brace and no `for`.  It may
well be malformed.  Reading it passes the semicolon and is complete then, or is cut off in front of
the semicolon (`Sides.Closes`).  In the latter case recovery goes on behind the semicolon, if no
word that begins a statement stands in between.  So a simple statement takes its own tokens at the
top level, whatever is beyond them (`Sides.Simple.topLevel`), as long as that is no `else`.
-/
namespace LoxKit
namespace Grammar

variable {α β : Type}

/-! ## Recovery behind a semicolon -/

section Recovery

variable {semicolon : Token} (hsemicolon : semicolon.kind = .semicolon) (beyond : List Token)
include hsemicolon

theorem resumeBehind_of_semicolon : resumeBehind semicolon beyond = beyond := by
  cases beyond with
  | nil => rfl
  | cons t beyond => rw [resumeBehind, hsemicolon, if_pos (by simp)]

theorem resumeBehind_semicolon {previous : Token} {us : List Token}
    (hprevious : previous.kind ≠ .semicolon)
    (hus : ∀ t ∈ us, t.isEnd = false ∧ t.kind ≠ .semicolon)
    (hwords : ∀ t ∈ us, t.kind.startsStatement = false) :
    resumeBehind previous (us ++ semicolon :: beyond) = beyond := by
  induction us generalizing previous with
  | nil =>
    rw [List.nil_append, resumeBehind, if_neg, resumeBehind_of_semicolon hsemicolon]
    simp [Token.isEnd, hsemicolon, hprevious, TokenKind.startsStatement]
  | cons t us ih =>
    obtain ⟨hend, hnot⟩ := hus t List.mem_cons_self
    have hword := hwords t List.mem_cons_self
    rw [List.cons_append, resumeBehind, if_neg (by simp [hend, hprevious, hword])]
    exact ih hnot (fun u hu => hus u (List.mem_cons_of_mem t hu))
      fun u hu => hwords u (List.mem_cons_of_mem t hu)

/-- **Recovery goes on behind the first semicolon** if no statement begins in front of it, save
perhaps with the first token. -/
theorem resume_semicolon {us : List Token} (hus : ∀ t ∈ us, t.isEnd = false ∧ t.kind ≠ .semicolon)
    (hwords : ∀ t ∈ us.tail, t.kind.startsStatement = false) :
    resume (us ++ semicolon :: beyond) = beyond := by
  cases us with
  | nil =>
    rw [List.nil_append, resume, if_neg, resumeBehind_of_semicolon hsemicolon]
    simp [Token.isEnd, hsemicolon]
  | cons t us =>
    obtain ⟨hend, hnot⟩ := hus t List.mem_cons_self
    rw [List.cons_append, resume, hend, if_neg Bool.false_ne_true]
    exact resumeBehind_semicolon hsemicolon beyond hnot
      (fun u hu => hus u (List.mem_cons_of_mem t hu)) hwords

end Recovery

namespace Sides

variable (S : Sides)

/-- The cursor of the one side behind the stop. -/
def leftBehind (l : Nat) (ds : List Diagnostic) : Cursor :=
  { rest := S.beyond, loops := l, diagnostics := S.before ++ ds }

/-- The cursor of the other side behind the stop. -/
def rightBehind (l : Nat) (ds : List Diagnostic) : Cursor :=
  { rest := S.beyond', loops := l, diagnostics := S.before' ++ ds }

/-- **Two steps close a statement** from in front of `n` tokens.  They pass the stop and yield the
same, or they are cut off in the same way in front of it. -/
def Closes (n : Nat) (p q : Reader α) : Prop :=
  ∀ us l ds, S.Inside us → us.length = n → ∃ ds',
    (∃ a, p (S.left us l ds) = .ok a (S.leftBehind l ds') ∧
      q (S.right us l ds) = .ok a (S.rightBehind l ds')) ∨
    ∃ vs e, vs <:+ us ∧ p (S.left us l ds) = .error e (S.left vs l ds') ∧
      q (S.right us l ds) = .error e (S.right vs l ds')

/-- **The surroundings of a simple statement.** -/
structure Simple : Prop where
  semicolon : S.stop.kind = .semicolon
  leftBrace : ¬S.inside .leftBrace
  forWord : ¬S.inside .forWord
  next : (ahead S.beyond (.endAt 0)).kind ≠ .elseWord
  next' : (ahead S.beyond' (.endAt 0)).kind ≠ .elseWord

variable {S} {n : Nat} {us : List Token} {l : Nat} {ds : List Diagnostic}

/-! ## Steps that close a statement -/

namespace Closes

variable {p q : Reader α}

/-- A step that stays in front of the stop, and others behind it. -/
theorem behind {f g : α → Reader β} {Q : α → Nat → Prop} (hp : S.Agree n True p q Q)
    (hf : ∀ a m, m ≤ n → Q a m → S.Closes m (f a) (g a)) : S.Closes n (p >>= f) (q >>= g) := by
  intro us l ds hus hn
  obtain ⟨vs, ds', hvs, ⟨a, hpa, hqa, hQ⟩ | ⟨e, hpe, hqe, -⟩⟩ := hp us l ds hus hn
  · have hlen : vs.length ≤ n := by
      rw [← hn]
      exact hvs.length_le
    rw [bind_ok hpa, bind_ok hqa]
    obtain ⟨ds'', hends | ⟨ws, e, hws, hboth⟩⟩ :=
      hf a vs.length hlen hQ vs l ds' (hus.of_suffix hvs) rfl
    · exact ⟨ds'', .inl hends⟩
    · exact ⟨ds'', .inr ⟨ws, e, hws.trans hvs, hboth⟩⟩
  · exact ⟨ds', .inr ⟨vs, e, hvs, bind_error hpe, bind_error hqe⟩⟩

theorem tooDeep : S.Closes n (MonadExcept.throw Halt.tooDeep : Reader α)
    (MonadExcept.throw Halt.tooDeep) :=
  fun us _ ds _ _ => ⟨ds, .inr ⟨us, .tooDeep, List.suffix_refl us, rfl, rfl⟩⟩

/-- What is yielded may be put to use behind the stop. -/
theorem map (F : α → β) (h : S.Closes n p q) :
    S.Closes n (p >>= fun a => Pure.pure (F a)) (q >>= fun a => Pure.pure (F a)) := by
  intro us l ds hus hn
  obtain ⟨ds', ⟨a, hp, hq⟩ | ⟨vs, e, hvs, hp, hq⟩⟩ := h us l ds hus hn
  · exact ⟨ds', .inl ⟨F a, bind_ok hp, bind_ok hq⟩⟩
  · exact ⟨ds', .inr ⟨vs, e, hvs, bind_error hp, bind_error hq⟩⟩

theorem ite {P : Prop} [Decidable P] {p' q' : Reader α} (hp : P → S.Closes n p q)
    (hq : ¬P → S.Closes n p' q') : S.Closes n (if P then p else p') (if P then q else q') := by
  by_cases h : P
  · rw [if_pos h, if_pos h]
    exact hp h
  · rw [if_neg h, if_neg h]
    exact hq h

theorem get {f g : Cursor → Reader α} (hg : ∀ c d : Cursor, c.loops = d.loops → g c = g d)
    (h : ∀ c, S.Closes n (f c) (g c)) :
    S.Closes n (MonadState.get >>= f) (MonadState.get >>= g) := by
  intro us l ds hus hn
  have hboth := h (S.left us l ds) us l ds hus hn
  rw [hg (S.left us l ds) (S.right us l ds) rfl] at hboth
  exact hboth

theorem withLoops (count : Nat → Nat) (h : S.Closes n p q) :
    S.Closes n (Grammar.withLoops count p) (Grammar.withLoops count q) := by
  intro us l ds hus hn
  obtain ⟨ds', ⟨a, hp, hq⟩ | ⟨vs, e, hvs, hp, hq⟩⟩ := h us (count l) ds hus hn
  · exact ⟨ds', .inl ⟨a, withLoops_ok (c := S.left us l ds) hp,
      withLoops_ok (c := S.right us l ds) hq⟩⟩
  · exact ⟨ds', .inr ⟨vs, e, hvs, withLoops_error (c := S.left us l ds) hp,
      withLoops_error (c := S.right us l ds) hq⟩⟩

end Closes

/-! ## Behind the semicolon -/

/-- A semicolon that is expected is passed. -/
theorem expect_stop (hstop : S.stop.kind = .semicolon) (what : String) :
    expect .semicolon what (S.left [] l ds) = .ok S.stop (S.leftBehind l ds) := by
  have hend : (S.left [] l ds).atEnd = false := by
    rw [Cursor.atEnd, left_current, ahead_nil, Token.isEnd, hstop]
    rfl
  have hadvance : (S.left [] l ds).advance = S.leftBehind l ds := by
    unfold Cursor.advance
    rw [hend]
    rfl
  have hkind : (S.left [] l ds).current.kind = .semicolon := by
    rw [left_current]
    exact hstop
  rw [expect_ok hend hkind, hadvance, left_current]
  rfl

/-- In front of any other token that is a fault. -/
theorem expect_inside {t : Token} (ht : t.kind ≠ .semicolon) (what : String) :
    expect .semicolon what (S.left (t :: us) l ds) =
      .error .fault (S.left (t :: us) l (ds ++ [.atToken t (Fault.expected what).message])) := by
  have hnone : accept? (· == .semicolon) (S.left (t :: us) l ds) =
      .ok none (S.left (t :: us) l ds) := by
    apply accept?_none
    rw [left_current]
    exact beq_false_of_ne ht
  show (accept? (· == .semicolon) >>= _) _ = _
  rw [bind_ok hnone]
  exact congrArg (EStateM.Result.error Halt.fault) (left_blame t _)

/-- Something optional is left out in front of another token. -/
theorem behind?_none {kind : TokenKind} {p : Reader α} {c : Cursor} (h : c.current.kind ≠ kind) :
    behind? kind p c = .ok none c := by
  have haccept := accept_false h
  unfold behind?
  rw [bind_ok haccept]
  rfl

/-! ## A simple statement -/

namespace Simple

variable {w w' most room : Nat} (h : S.Simple)
include h

/-- The semicolon closes a statement. -/
theorem expectSemicolon (what : String) :
    S.Closes n (expect .semicolon what) (expect .semicolon what) := by
  rintro us l ds hus -
  cases us with
  | nil =>
    exact ⟨ds, .inl ⟨S.stop, expect_stop h.semicolon what,
      expect_stop (S := S.flip) h.semicolon what⟩⟩
  | cons t us =>
    have ht : t.kind ≠ .semicolon := by
      intro hkind
      apply S.not_stop
      rw [h.semicolon, ← hkind]
      exact hus t List.mem_cons_self
    exact ⟨_, .inr ⟨t :: us, .fault, List.suffix_refl _, expect_inside ht what,
      expect_inside (S := S.flip) ht what⟩⟩

/-- Behind the semicolon there is no `else`. -/
theorem orElse {p q r r' : Reader α} (F : α → Option α → β) (hp : S.Closes n p q) :
    S.Closes n (do
      let a ← p
      return F a (← behind? .elseWord r)) (do
      let a ← q
      return F a (← behind? .elseWord r')) := by
  intro us l ds hus hn
  obtain ⟨ds', ⟨a, hp, hq⟩ | ⟨vs, e, hvs, hp, hq⟩⟩ := hp us l ds hus hn
  · have hleft : behind? .elseWord r (S.leftBehind l ds') = .ok none (S.leftBehind l ds') :=
      behind?_none h.next
    have hright : behind? .elseWord r' (S.rightBehind l ds') = .ok none (S.rightBehind l ds') :=
      behind?_none h.next'
    refine ⟨ds', .inl ⟨F a none, ?_, ?_⟩⟩
    · rw [bind_ok hp, bind_ok hleft]
      rfl
    · rw [bind_ok hq, bind_ok hright]
      rfl
  · exact ⟨ds', .inr ⟨vs, e, hvs, bind_error hp, bind_error hq⟩⟩

theorem expressionStatement (hw : most < w) (hw' : most < w') (room : Nat) (hn : n ≤ most) :
    S.Closes n (expressionStatement w room) (expressionStatement w' room) :=
  .behind ((S.expressionAgrees hw hw' room).within hn fun _ => trivial) fun _ _ _ _ =>
    (h.expectSemicolon _).map _

theorem variableDecl (hw : most < w) (hw' : most < w') (room : Nat) (hn : n ≤ most) :
    S.Closes n (variableDecl w room) (variableDecl w' room) := by
  refine .behind (.need fun _ => trivial) ?_
  rintro _ n - rfl
  refine .behind (.expect (spares_kind (by decide)) _) fun name i _ hi => ?_
  refine .behind (.behind? (spares_kind (by decide)) fun k hk =>
    ((S.conditionalAgrees hw hw' room).within (by omega) fun _ => trivial).mono id
      fun _ _ hlt => Nat.le_of_lt hlt) fun initial _ _ _ => ?_
  exact (h.expectSemicolon _).map _

/-- A simple statement has no brace, so it is no function. -/
theorem functionDecl (hw : most < w) (hw' : most < w') (room : Nat) (kind : FunctionKind)
    (body body' : Reader (List Stmt)) (hn : n ≤ most) :
    S.Closes n (functionDecl w room kind body) (functionDecl w' room kind body') := by
  refine .behind (.need fun _ => trivial) ?_
  rintro _ n - rfl
  refine .behind (.expect (spares_kind (by decide)) _) fun name i _ hi => ?_
  refine .behind (.expect (spares_kind (by decide)) _) fun _ j _ hj => ?_
  have hparam : ∀ k ≤ j, S.Agree k True (expect .identifier "parameter name")
      (expect .identifier "parameter name") fun _ i => i < k :=
    fun _ _ => .expect (spares_kind (by decide)) _
  have hparams := Agree.commaList "parameters" hparam w w' [] j (Nat.le_refl j) (by omega)
    (by omega)
  refine .behind (.unless? .rightParen (hparams.mono id fun _ _ hk => Nat.le_of_lt hk))
    fun params k _ hk => ?_
  refine .behind (.expect (spares_kind (by decide)) _) fun _ k _ hk => ?_
  exact .behind (.expect_absent (spares_kind (by decide)) h.leftBrace _)
    fun _ _ _ hfalse => hfalse.elim

/-- Nor is it a class. -/
theorem classDecl (room : Nat) (method method' : Reader FunDecl) :
    S.Closes n (classDecl w room method) (classDecl w' room method') := by
  refine .behind (.need fun _ => trivial) ?_
  rintro _ n - rfl
  refine .behind (.expect (spares_kind (by decide)) _) fun name i _ hi => ?_
  refine .behind (.behind? (spares_kind (by decide)) fun k _ =>
    (Agree.expect (spares_kind (by decide)) _).mono id fun _ _ hlt => Nat.le_of_lt hlt)
      fun superclass _ _ _ => ?_
  exact .behind (.expect_absent (spares_kind (by decide)) h.leftBrace _)
    fun _ _ _ hfalse => hfalse.elim

theorem statement_succ (hw : most < w) (hw' : most < w')
    (hbody : ∀ k ≤ most, S.Closes k (statement w room) (statement w' room))
    (harm : ∀ k ≤ most, S.Closes k (statement w (room + 1)) (statement w' (room + 1)))
    (hn : n ≤ most) :
    S.Closes n (statement w (room + 4)) (statement w' (room + 4)) := by
  have hexpression : ∀ k ≤ most, S.Agree k True (expression w (room + 1))
      (expression w' (room + 1)) fun _ i => i < k :=
    fun k hk => (S.expressionAgrees hw hw' (room + 1)).within hk fun _ => trivial
  have hneed : ∀ k, S.Agree k True (need (room + 1)) (need (room + 1)) fun _ i => i = k :=
    fun k => .need fun _ => trivial
  unfold statement
  refine .behind (.need fun _ => trivial) ?_
  rintro _ n - rfl
  refine .behind (.accept? (spares rfl)) fun keyword i _ hi => ?_
  cases keyword with
  | none => exact h.expressionStatement hw hw' (room + 1) (by omega)
  | some keyword =>
    obtain ⟨hlt, hword, hinside⟩ := hi.2 keyword rfl
    dsimp only
    split
    · -- `break`
      refine .behind (hneed i) ?_
      rintro _ _ - rfl
      refine .get (fun c d hloops => by rw [hloops]) fun c => .ite (fun _ => ?_) fun _ => ?_
      · exact .behind (.blame keyword .strayBreak) fun _ _ _ _ => (h.expectSemicolon _).map _
      · exact (h.expectSemicolon _).map _
    case h_2 hkind =>
      rw [hkind] at hinside
      exact absurd hinside h.forWord
    · -- `if`
      refine .behind (hneed i) ?_
      rintro _ i - rfl
      refine .behind (.expect (spares_kind (by decide)) _) fun _ j _ hj => ?_
      refine .behind (hexpression j (by omega)) fun test k _ hk => ?_
      refine .behind (.expect (spares_kind (by decide)) _) fun _ k _ hk => ?_
      exact h.orElse (Stmt.branch test) (harm k (by omega))
    · -- `print`
      exact .behind (hexpression i (by omega)) fun e _ _ _ => (h.expectSemicolon _).map _
    · -- `return`
      have hclause := Agree.unless? .semicolon ((hexpression i (by omega)).mono id
        fun _ _ hk => Nat.le_of_lt hk)
      refine .behind hclause fun e k _ _ => ?_
      exact .behind (hneed k) fun _ _ _ _ => (h.expectSemicolon _).map _
    · -- `while`
      refine .behind (hneed i) ?_
      rintro _ i - rfl
      refine .behind (.expect (spares_kind (by decide)) _) fun _ j _ hj => ?_
      refine .behind (hexpression j (by omega)) fun test k _ hk => ?_
      refine .behind (.expect (spares_kind (by decide)) _) fun _ k _ hk => ?_
      exact ((hbody k (by omega)).withLoops _).map _
    case h_7 hbreak hfor hif hprint hreturn hwhile =>
      have hbrace : keyword.kind = .leftBrace := by
        revert hword
        cases hkind : keyword.kind <;> first | contradiction | decide
      rw [hbrace] at hinside
      exact absurd hinside h.leftBrace

/-- **A statement is closed by its semicolon.** -/
theorem statement (hw : most < w) (hw' : most < w') (room : Nat) :
    ∀ n ≤ most, S.Closes n (statement w room) (statement w' room) := by
  induction room using Nat.strongRecOn with
  | ind room ih =>
    intro n hn
    match room with
    | 0 | 1 | 2 | 3 => exact .tooDeep
    | room + 4 =>
      exact h.statement_succ hw hw' (ih room (by omega)) (ih (room + 1) (by omega)) hn

/-- So is a declaration. -/
theorem declared (hw : most < w) (hw' : most < w') (room : Nat) (hn : n ≤ most) :
    S.Closes n (declared w room) (declared w' room) := by
  unfold Grammar.declared
  refine .behind (.need fun _ => trivial) ?_
  rintro _ n - rfl
  refine .behind (.accept (spares_kind (by decide))) fun isClass i _ hi =>
    .ite (fun _ => h.classDecl _ _ _) fun _ => ?_
  refine .behind (.accept (spares_kind (by decide))) fun isFunction j _ hj =>
    .ite (fun _ => ?_) fun _ => ?_
  · exact (h.functionDecl hw hw' _ _ _ _ (by omega)).map _
  refine .behind (.accept (spares_kind (by decide))) fun isVariable k _ hk =>
    .ite (fun _ => ?_) fun _ => ?_
  · exact h.variableDecl hw hw' _ (by omega)
  · exact h.statement hw hw' _ k (by omega)

/-! ## A simple statement at the top level -/

/-- Recovery from a place in front of the semicolon goes on behind it. -/
theorem recover_left {vs : List Token} (hus : S.Inside us) (hvs : vs <:+ us)
    (hwords : ∀ t ∈ us.tail, t.kind.startsStatement = false) :
    (S.left vs l ds).recover = S.leftBehind l ds := by
  have hplain : ∀ t ∈ vs, t.isEnd = false ∧ t.kind ≠ .semicolon := by
    intro t ht
    refine ⟨(hus.of_suffix hvs).isEnd ht, fun hkind => S.not_stop ?_⟩
    rw [h.semicolon, ← hkind]
    exact hus.of_suffix hvs t ht
  have htail : ∀ t ∈ vs.tail, t.kind.startsStatement = false := by
    intro t ht
    apply hwords t
    obtain ⟨ws, rfl⟩ := hvs
    cases ws with
    | nil => exact ht
    | cons w ws => exact List.mem_append_right ws (List.mem_of_mem_tail ht)
  exact congrArg (fun ts => { S.left vs l ds with rest := ts })
    (resume_semicolon h.semicolon S.beyond hplain htail)

theorem flip : S.flip.Simple :=
  ⟨h.semicolon, h.leftBrace, h.forWord, h.next', h.next⟩

/-- A simple statement takes its own tokens, whether or not a fault cuts it off, unless it nests
too deeply. -/
theorem declaration (hw : most < w) (hw' : most < w') (room l : Nat) (ds : List Diagnostic)
    (hlen : us.length ≤ most) (hus : S.Inside us)
    (hwords : ∀ t ∈ us.tail, t.kind.startsStatement = false) :
    ∃ ds', (∃ s, declaration w room (S.left us l ds) = .ok s (S.leftBehind l ds') ∧
        declaration w' room (S.right us l ds) = .ok s (S.rightBehind l ds')) ∨
      ∃ vs, vs <:+ us ∧ declaration w room (S.left us l ds) = .error .tooDeep (S.left vs l ds') ∧
        declaration w' room (S.right us l ds) = .error .tooDeep (S.right vs l ds') := by
  match room with
  | 0 | 1 | 2 | 3 | 4 => exact ⟨ds, .inr ⟨us, List.suffix_refl us, rfl, rfl⟩⟩
  | room + 5 =>
    rw [declaration_eq, declaration_eq]
    obtain ⟨ds', ⟨a, hp, hq⟩ | ⟨vs, e, hvs, hp, hq⟩⟩ :=
      h.declared hw hw' room hlen us l ds hus rfl
    · exact ⟨ds', .inl ⟨some a, orResume_ok hp, orResume_ok hq⟩⟩
    · -- only a fault is caught here
      cases e with
      | tooDeep => exact ⟨ds', .inr ⟨vs, hvs, orResume_tooDeep hp, orResume_tooDeep hq⟩⟩
      | fault =>
        refine ⟨ds', .inl ⟨none, ?_, ?_⟩⟩
        · rw [orResume_fault hp, h.recover_left hus hvs hwords]
        · rw [orResume_fault hq]
          exact congrArg (EStateM.Result.ok none) (h.flip.recover_left hus hvs hwords)

/-- **A simple statement takes its own tokens at the top level**, however it is cut off. -/
theorem topLevel (hw : most < w) (hw' : most < w') (room l : Nat) (ds : List Diagnostic)
    (hlen : us.length ≤ most) (hus : S.Inside us)
    (hwords : ∀ t ∈ us.tail, t.kind.startsStatement = false) :
    ∃ s ds', topLevel w room (S.left us l ds) = .ok s (S.leftBehind l ds') ∧
      topLevel w' room (S.right us l ds) = .ok s (S.rightBehind l ds') := by
  obtain ⟨ds', ⟨s, hp, hq⟩ | ⟨vs, hvs, hp, hq⟩⟩ :=
    h.declaration hw hw' room l ds hlen hus hwords
  · exact ⟨s, ds', orGiveUp_ok hp, orGiveUp_ok hq⟩
  · refine ⟨none, ds' ++ [.atToken (ahead vs S.stop) Fault.tooDeep.message], ?_, ?_⟩
    · show orGiveUp _ _ = _
      rw [orGiveUp_tooDeep hp, left_current, left_blame, h.recover_left hus hvs hwords]
    · show orGiveUp _ _ = _
      rw [orGiveUp_tooDeep hq, right_current, right_blame]
      exact congrArg (EStateM.Result.ok none) (h.flip.recover_left hus hvs hwords)

end Simple
end Sides
end Grammar
end LoxKit
