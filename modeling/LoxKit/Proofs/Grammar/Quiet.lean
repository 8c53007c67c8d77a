import LoxKit.Proofs.Grammar.Moved
import LoxKit.Proofs.Grammar.Steps
import LoxKit.Proofs.Tree.Breaks

/-!
# What reading takes and what it records

Between two cursors some tokens were taken, and a stray `break` was recorded only at one of them;
the count of loops is the same at both (`Cursor.Took`).  Of a `break` that is read it is decided at
once whether it is stray.  What is taken and recorded later, also behind an error, is about other
tokens, so nothing changes about that (`Cursor.Reads.trans`).

`Checks` says this of a step, with the breaks known before and behind it, and has a rule for each
combinator.  Steps that read no `break` are `Quiet`; the rules for expressions are.
-/
namespace LoxKit

/-- The report that a token is a stray `break`. -/
def Token.stray (k : Token) : Diagnostic := .atToken k Grammar.Fault.strayBreak.message

namespace Grammar

variable {α β : Type}

/-! ## Faults -/

/-- No other fault is worded like a stray `break`. -/
theorem Fault.message_ne_strayBreak {f : Fault} (h : f ≠ .strayBreak) :
    f.message ≠ strayBreak.message := by
  intro hmessage
  -- the first characters tell
  have hchars := congrArg (fun s => s.toList.take 7) hmessage
  cases f with
  | strayBreak => exact h rfl
  | invalidTarget | tooDeep => revert hchars; decide
  | expected what =>
    have hmessage : (expected what).message = "Expect " ++ (what ++ ".") := String.append_assoc
    simp only [hmessage, String.toList_append] at hchars
    rw [List.take_append_of_le_length (by decide)] at hchars
    revert hchars
    decide
  | tooMany what =>
    have hmessage : (tooMany what).message = "Can't have more than 255 " ++ (what ++ ".") :=
      String.append_assoc
    simp only [hmessage, String.toList_append] at hchars
    rw [List.take_append_of_le_length (by decide)] at hchars
    revert hchars
    decide

/-! ## What is read between two cursors -/

/-- **What was taken and recorded between two cursors.**  The count of loops is the same at both,
and a stray `break` was recorded at a token taken. -/
structure Cursor.Took (c d : Cursor) (used : List Token) (ds : List Diagnostic) : Prop where
  loops : d.loops = c.loops
  rest : c.rest = used ++ d.rest
  diagnostics : d.diagnostics = c.diagnostics ++ ds
  strays : ∀ x ∈ ds, x.message = Fault.strayBreak.message → x.line ∈ used.map Token.line

/-- The tokens ahead can be told apart by their lines. -/
def Cursor.Distinct (c : Cursor) : Prop := (c.rest.map Token.line).Nodup

/-- **What was read between two cursors.**  Of the breaks known in the end, each was known before
or is one of the tokens taken, and reported if and only if no loop encloses it. -/
def Cursor.Reads (c : Cursor) (before : List Break) (d : Cursor) (after : List Break) : Prop :=
  ∃ used ds, c.Took d used ds ∧ (c.Distinct → ∀ b ∈ after, b ∈ before ∨
    b.keyword ∈ used ∧ (b.keyword.stray ∈ ds ↔ b.enclosed = false))

namespace Cursor

variable {c d e : Cursor} {used used' : List Token} {ds ds' : List Diagnostic}
  {before mid after : List Break}

theorem Took.trans (h : c.Took d used ds) (h' : d.Took e used' ds') :
    c.Took e (used ++ used') (ds ++ ds') where
  loops := h'.loops.trans h.loops
  rest := by rw [h.rest, h'.rest, List.append_assoc]
  diagnostics := by rw [h'.diagnostics, h.diagnostics, List.append_assoc]
  strays x hx hmessage := by
    rw [List.map_append]
    rcases List.mem_append.mp hx with hx | hx
    · exact List.mem_append_left _ (h.strays x hx hmessage)
    · exact List.mem_append_right _ (h'.strays x hx hmessage)

theorem Took.distinct (h : c.Took d used ds) (hc : c.Distinct) : d.Distinct := by
  unfold Distinct at hc ⊢
  rw [h.rest, List.map_append, List.nodup_append] at hc
  exact hc.2.1

/-- A token that was not taken was not reported to be stray. -/
theorem Took.not_stray (h : c.Took d used ds) {k : Token} (hk : k.line ∉ used.map Token.line) :
    k.stray ∉ ds :=
  fun hstray => hk (h.strays _ hstray rfl)

/-- Nothing but tokens that are no breaks was read. -/
theorem Took.reads (h : c.Took d used ds) (hsub : after ⊆ before) : c.Reads before d after :=
  ⟨used, ds, h, fun _ _ hb => .inl (hsub hb)⟩

theorem Took.refl (c : Cursor) : c.Took c [] [] := ⟨rfl, rfl, (List.append_nil _).symm, nofun⟩

/-- **What was read stays as it was judged** when reading goes on. -/
theorem Reads.trans (h : c.Reads before d mid) (h' : d.Reads mid e after) :
    c.Reads before e after := by
  obtain ⟨used, ds, htook, hjudged⟩ := h
  obtain ⟨used', ds', htook', hjudged'⟩ := h'
  refine ⟨used ++ used', ds ++ ds', htook.trans htook', fun hc b hb => ?_⟩
  have hapart : ∀ l ∈ used.map Token.line, l ∉ used'.map Token.line := by
    have hnodup := hc
    unfold Distinct at hnodup
    rw [htook.rest, htook'.rest, List.map_append, List.map_append, List.nodup_append] at hnodup
    exact fun l hl hl' => hnodup.2.2 l hl l (List.mem_append_left _ hl') rfl
  rcases hjudged' (htook.distinct hc) b hb with hmid | ⟨hused, hstray⟩
  · refine (hjudged hc b hmid).imp_right fun ⟨hused, hstray⟩ => ⟨List.mem_append_left _ hused, ?_⟩
    have hlater := htook'.not_stray (hapart _ (List.mem_map_of_mem hused))
    rw [List.mem_append, ← hstray]
    exact or_iff_left hlater
  · refine .inr ⟨List.mem_append_right _ hused, ?_⟩
    have hearlier := htook.not_stray fun h => hapart _ h (List.mem_map_of_mem hused)
    rw [List.mem_append, ← hstray]
    exact or_iff_right hearlier

theorem Reads.loops (h : c.Reads before d after) : d.loops = c.loops := by
  obtain ⟨used, ds, htook, -⟩ := h
  exact htook.loops

/-- All that was read came to nothing. -/
theorem Reads.forget (h : c.Reads before d after) : c.Reads before d before := by
  obtain ⟨used, ds, htook, -⟩ := h
  exact htook.reads (List.Subset.refl _)

/-! ## Single moves -/

/-- Moving over a token takes it. -/
theorem took_current (c : Cursor) (hend : c.atEnd = false) : c.Took c.advance [c.current] [] := by
  unfold advance
  rw [hend]
  cases hrest : c.rest with
  | nil => simp [atEnd, current, hrest, Token.isEnd, Token.endAt] at hend
  | cons t rest =>
    exact ⟨rfl, by simp [current, hrest], (List.append_nil _).symm, List.forall_mem_nil _⟩

theorem took_blame (c : Cursor) (t : Token) {f : Fault} (hf : f ≠ .strayBreak) :
    c.Took (c.blame t f) [] [.atToken t f.message] := by
  refine ⟨rfl, rfl, rfl, fun x hx hmessage => ?_⟩
  rw [List.mem_singleton.mp hx] at hmessage
  exact absurd hmessage (Fault.message_ne_strayBreak hf)

theorem resumeBehind_suffix (previous : Token) (ts : List Token) :
    resumeBehind previous ts <:+ ts := by
  induction ts generalizing previous with
  | nil => exact List.suffix_refl _
  | cons t ts ih =>
    unfold resumeBehind
    split
    · exact List.suffix_refl _
    · exact (ih t).trans (List.suffix_cons t ts)

theorem took_recover (c : Cursor) : ∃ used, c.Took c.recover used [] := by
  obtain ⟨used, hused⟩ : resume c.rest <:+ c.rest := by
    cases c.rest with
    | nil => exact List.suffix_refl _
    | cons t ts =>
      rw [resume]
      split
      · exact List.suffix_refl _
      · exact (resumeBehind_suffix t ts).trans (List.suffix_cons t ts)
  exact ⟨used, rfl, hused.symm, (List.append_nil _).symm, List.forall_mem_nil _⟩

end Cursor

/-! ## What steps read -/

/-- **What a step comes to** that began at a cursor where some breaks were known before: those
known behind it go by what it yields. -/
def Cursor.Comes (c : Cursor) (before : List Break) (after : α → List Break) :
    EStateM.Result Halt Cursor α → Prop
  | .ok a d => c.Reads before d (after a)
  | .error _ d => c.Reads before d before

/-- What a step comes to that goes on from another cursor. -/
theorem Cursor.Reads.comes {c d : Cursor} {before mid : List Break} {after : α → List Break}
    {r : EStateM.Result Halt Cursor α} (h : c.Reads before d mid) (hr : d.Comes mid after r) :
    c.Comes before after r := by
  cases r with
  | ok a e => exact Reads.trans h hr
  | error x e => exact Reads.forget (Reads.trans h hr)

/-- **A step reads correctly** inside `l` loops. -/
def Checks (l : Nat) (p : Reader α) (before : List Break) (after : α → List Break) : Prop :=
  ∀ c : Cursor, c.loops = l → c.Comes before after (p c)

/-- A step that reads no `break`. -/
def Quiet (p : Reader α) : Prop := ∀ l before, Checks l p before fun _ => before

variable {l : Nat} {before : List Break} {after : α → List Break}

namespace Checks

theorem pure {a : α} (h : after a ⊆ before) : Checks l (Pure.pure a) before after :=
  fun c _ => (Cursor.Took.refl c).reads h

theorem throw (e : Halt) : Checks l (MonadExcept.throw e) before after :=
  fun c _ => (Cursor.Took.refl c).reads (List.Subset.refl _)

theorem bind {p : Reader α} {f : α → Reader β} {last : β → List Break}
    (hp : Checks l p before after) (hf : ∀ a, Checks l (f a) (after a) last) :
    Checks l (p >>= f) before last := by
  intro c hc
  have h := hp c hc
  simp only [Bind.bind, EStateM.bind]
  cases hpc : p c with
  | ok a d =>
    rw [hpc] at h
    have hreads : c.Reads before d (after a) := h
    exact hreads.comes (hf a d (hreads.loops.trans hc))
  | error e d =>
    rw [hpc] at h
    exact h

theorem get {f : Cursor → Reader α} (h : ∀ c, c.loops = l → Checks l (f c) before after) :
    Checks l (MonadState.get >>= f) before after := fun c hc => h c hc c hc

theorem ite {P : Prop} [Decidable P] {p q : Reader α} (hp : P → Checks l p before after)
    (hq : ¬P → Checks l q before after) : Checks l (if P then p else q) before after := by
  split
  · exact hp ‹_›
  · exact hq ‹_›

end Checks

namespace Quiet

theorem pure (a : α) : Quiet (Pure.pure a : Reader α) :=
  fun _ _ => .pure (List.Subset.refl _)

theorem throw (e : Halt) : Quiet (MonadExcept.throw e : Reader α) := fun _ _ => .throw e

theorem bind {p : Reader α} {f : α → Reader β} (hp : Quiet p) (hf : ∀ a, Quiet (f a)) :
    Quiet (p >>= f) := fun l before => .bind (hp l before) fun a => hf a l before

theorem ite {P : Prop} [Decidable P] {p q : Reader α} (hp : Quiet p) (hq : Quiet q) :
    Quiet (if P then p else q) := fun l before => .ite (fun _ => hp l before) fun _ => hq l before

theorem get {f : Cursor → Reader α} (h : ∀ c, Quiet (f c)) : Quiet (MonadState.get >>= f) :=
  fun l before => .get fun c _ => h c l before

/-- Behind a step that reads no `break`. -/
theorem andThen {p : Reader α} {f : α → Reader β} {last : β → List Break} (hp : Quiet p)
    (hf : ∀ a, Checks l (f a) before last) : Checks l (p >>= f) before last :=
  .bind (hp l before) hf

end Quiet

/-! ## Single steps -/

theorem quiet_need (room : Nat) : Quiet (need room) := .ite (.throw _) (.pure ())

theorem quiet_current : Quiet current := .get fun _ => .pure _

theorem quiet_atEnd : Quiet atEnd := .get fun _ => .pure _

theorem quiet_check (kind : TokenKind) : Quiet (check kind) := .get fun _ => .pure _

theorem quiet_accept? (wanted : TokenKind → Bool) : Quiet (accept? wanted) := by
  intro l before c hc
  rw [accept?_apply]
  by_cases htaken : (!c.atEnd && wanted c.current.kind) = true
  · have hend : c.atEnd = false := by
      rw [Bool.and_eq_true] at htaken
      simpa using htaken.1
    rw [if_pos htaken]
    exact (c.took_current hend).reads (List.Subset.refl _)
  · rw [if_neg htaken]
    exact (Cursor.Took.refl c).reads (List.Subset.refl _)

theorem quiet_accept (kind : TokenKind) : Quiet (accept kind) :=
  .bind (quiet_accept? _) fun _ => .pure _

theorem quiet_blame (t : Token) {f : Fault} (hf : f ≠ .strayBreak) : Quiet (blame t f) :=
  fun _ _ c _ => (c.took_blame t hf).reads (List.Subset.refl _)

theorem quiet_fail {f : Fault} (hf : f ≠ .strayBreak) : Quiet (fail f : Reader α) :=
  .bind quiet_current fun t => .bind (quiet_blame t hf) fun _ => .throw _

theorem quiet_expect (kind : TokenKind) (what : String) : Quiet (expect kind what) := by
  refine .bind (quiet_accept? _) fun t => ?_
  cases t with
  | none => exact quiet_fail nofun
  | some t => exact .pure t

theorem quiet_behind? {p : Reader α} (kind : TokenKind) (h : Quiet p) :
    Quiet (behind? kind p) :=
  .bind (quiet_accept kind) fun _ => .ite (.bind h fun _ => .pure _) (.pure none)

theorem quiet_unless? {p : Reader α} (kind : TokenKind) (h : Quiet p) :
    Quiet (unless? kind p) :=
  .bind (quiet_check kind) fun _ => .ite (.pure none) (.bind h fun _ => .pure _)

theorem quiet_commaList {item : Reader α} (what : String) (h : Quiet item) :
    ∀ n done, Quiet (commaList what item n done) := by
  intro n
  induction n with
  | zero => exact fun done => .pure _
  | succ n ih =>
    intro done
    have hrest : Quiet (do
        let x ← item
        if ← accept .comma then commaList what item n (x :: done)
        else return (x :: done).reverse) :=
      .bind h fun x => .bind (quiet_accept _) fun _ => .ite (ih _) (.pure _)
    have hother : Fault.tooMany what ≠ .strayBreak := by simp
    unfold commaList
    exact .ite (.bind quiet_current fun t => .bind (quiet_blame t hother) fun _ => hrest) hrest

theorem checks_behind? {p : Reader α} {breaks : α → List Break} (kind : TokenKind)
    (h : Checks l p before fun a => breaks a ++ before) :
    Checks l (behind? kind p) before fun a => a.elim [] breaks ++ before :=
  (quiet_accept kind).andThen fun _ => .ite
    (fun _ => .bind h fun _ => .pure (List.Subset.refl _)) fun _ => .pure (List.Subset.refl _)

/-- The count of loops is what it was, also when reading is cut off. -/
theorem checks_withLoops {p : Reader α} (count : Nat → Nat)
    (h : Checks (count l) p before after) : Checks l (withLoops count p) before after := by
  intro c hc
  have hp := h { c with loops := count c.loops } (congrArg count hc)
  have hback : ∀ {d after}, ({ c with loops := count c.loops } : Cursor).Reads before d after →
      c.Reads before { d with loops := c.loops } after := by
    rintro d after ⟨used, ds, htook, hjudged⟩
    exact ⟨used, ds, { htook with loops := rfl }, hjudged⟩
  unfold withLoops
  cases hpc : p { c with loops := count c.loops } with
  | ok a d =>
    rw [hpc] at hp
    exact hback hp
  | error e d =>
    rw [hpc] at hp
    exact hback hp

/-- What is cut off comes to nothing, and reading resumes. -/
theorem checks_orResume {p : Reader α} (breaks : α → List Break)
    (h : Checks l p before fun a => breaks a ++ before) :
    Checks l (orResume p) before fun a => a.elim [] breaks ++ before := by
  intro c hc
  have hp := h c hc
  cases hpc : p c with
  | ok a d =>
    rw [hpc] at hp
    rw [orResume_ok hpc]
    exact hp
  | error e d =>
    rw [hpc] at hp
    cases e with
    | fault =>
      obtain ⟨used, htook⟩ := d.took_recover
      rw [orResume_fault hpc]
      exact hp.trans (htook.reads (List.Subset.refl _))
    | tooDeep =>
      rw [orResume_tooDeep hpc]
      exact hp

theorem checks_orGiveUp {p : Reader (Option α)} {after : Option α → List Break}
    (h : Checks l p before after) (hnone : after none ⊆ before) :
    Checks l (orGiveUp p) before after := by
  intro c hc
  have hp := h c hc
  cases hpc : p c with
  | ok a d =>
    rw [hpc] at hp
    rw [orGiveUp_ok hpc]
    exact hp
  | error e d =>
    rw [hpc] at hp
    cases e with
    | fault =>
      rw [orGiveUp_fault hpc]
      exact hp
    | tooDeep =>
      obtain ⟨used, htook⟩ := (d.blame d.current .tooDeep).took_recover
      have hgiven := (d.took_blame d.current (f := .tooDeep) nofun).trans htook
      rw [orGiveUp_tooDeep hpc]
      exact hp.trans (hgiven.reads hnone)

/-! ## Expressions -/

theorem quiet_chain (operators : TokenKind → Bool) {operand : Reader Expr}
    (node : Expr → Token → Expr → Expr) (h : Quiet operand) :
    ∀ n left, Quiet (chain operators operand node n left) := by
  intro n
  induction n with
  | zero => exact fun left => .pure left
  | succ n ih =>
    intro left
    refine .bind (quiet_accept? _) fun op => ?_
    cases op with
    | none => exact .pure left
    | some op => exact .bind h fun right => ih _

theorem quiet_suffixes {argument : Reader Expr} (h : Quiet argument) (width : Nat) :
    ∀ n target, Quiet (suffixes width argument n target) := by
  have harguments : Quiet (arguments width argument) :=
    .bind (quiet_unless? _ (quiet_commaList _ h width [])) fun es => .pure _
  intro n
  induction n with
  | zero => exact fun target => .pure target
  | succ n ih =>
    intro target
    exact .bind (quiet_accept _) fun _ => .ite
      (.bind harguments fun _ => .bind (quiet_expect _ _) fun _ => ih _)
      (.bind (quiet_accept _) fun _ => .ite (.bind (quiet_expect _ _) fun _ => ih _)
        (.pure target))

/-- The rules for expressions read no `break`. -/
structure QuietRules (width room : Nat) : Prop where
  expression : Quiet (expression width room)
  conditional : Quiet (conditional width room)
  assignment : Quiet (assignment width room)
  binary : ∀ level, Quiet (binary width room level)
  unary : Quiet (unary width room)
  call : Quiet (call width room)
  primary : Quiet (primary width room)

namespace QuietRules

variable {width room : Nat}

theorem expression_succ (h : QuietRules width room) :
    Quiet (Grammar.expression width (room + 2)) :=
  .bind h.conditional fun first => quiet_chain _ _ h.conditional _ first

theorem conditional_succ (h : QuietRules width room) :
    Quiet (Grammar.conditional width (room + 2)) :=
  .bind h.assignment fun t => .bind (quiet_accept _) fun _ => .ite
    (.bind h.conditional fun _ => .bind (quiet_expect _ _) fun _ => .bind h.conditional fun _ =>
      .pure _)
    (.pure t)

theorem assignment_succ (h : QuietRules width room) :
    Quiet (Grammar.assignment width (room + 2)) := by
  refine .bind (h.binary _) fun target => .bind (quiet_accept? _) fun equals => ?_
  cases equals with
  | none => exact .pure target
  | some equals =>
    refine .bind h.conditional fun value => ?_
    cases assigned? value target with
    | some e => exact .pure e
    | none => exact .bind (quiet_blame _ nofun) fun _ => .pure target

theorem binary_succ (h : QuietRules width room) (level : Level) :
    Quiet (Grammar.binary width (room + 2) level) := by
  cases hnext : level.tighter? with
  | some next =>
    rw [binary_of_tighter hnext]
    exact .bind (h.binary next) fun first => quiet_chain _ _ (h.binary next) _ first
  | none =>
    rw [binary_of_tightest hnext]
    exact .bind h.unary fun first => quiet_chain _ _ h.unary _ first

theorem unary_succ (h : QuietRules width room) : Quiet (Grammar.unary width (room + 2)) := by
  refine .bind (quiet_need _) fun _ => .bind (quiet_accept? _) fun op => ?_
  cases op with
  | none => exact h.call
  | some op => exact .bind h.unary fun _ => .pure _

theorem call_succ (h : QuietRules width room) (h' : QuietRules width (room + 1)) :
    Quiet (Grammar.call width (room + 3)) :=
  .bind h'.primary fun target => quiet_suffixes h.conditional width _ target

theorem primary_succ (h : QuietRules width room) :
    Quiet (Grammar.primary width (room + 2)) := by
  refine .bind (quiet_need _) fun _ => .bind (quiet_accept? _) fun t => ?_
  cases t with
  | some t => exact .pure _
  | none =>
    refine .bind (quiet_accept? _) fun keyword => ?_
    cases keyword with
    | some keyword =>
      exact .bind (quiet_expect _ _) fun _ => .bind (quiet_expect _ _) fun _ => .pure _
    | none =>
      exact .bind (quiet_accept _) fun _ => .ite
        (.bind h.expression fun _ => .bind (quiet_expect _ _) fun _ => .pure _) (quiet_fail nofun)

end QuietRules

theorem quietRules (width room : Nat) : QuietRules width room := by
  induction room using Nat.strongRecOn with
  | ind room ih =>
    match room with
    | 0 | 1 => exact ⟨.throw _, .throw _, .throw _, fun _ => .throw _, .throw _, .throw _, .throw _⟩
    | room + 2 =>
      have h := ih room (by omega)
      refine ⟨h.expression_succ, h.conditional_succ, h.assignment_succ, h.binary_succ,
        h.unary_succ, ?_, h.primary_succ⟩
      cases room with
      | zero => exact .throw _
      | succ room => exact (ih room (by omega)).call_succ (ih (room + 1) (by omega))

theorem quiet_expression (width room : Nat) : Quiet (expression width room) :=
  (quietRules width room).expression

end Grammar
end LoxKit
