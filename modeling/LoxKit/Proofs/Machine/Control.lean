import LoxKit.Proofs.Machine.Signals

/-!
# The control of a run

The signals of a run drive an automaton, the control.  It knows the loops and calls that are
active, the innermost first, and whether the run goes on or is on the way out of them
(`Control`), and it refuses a signal that is out of place (`Control.Next`): nothing is evaluated
or executed on the way out, a `break` must come in a loop of the same call and a `return` in a
call, and a loop ends only by its test, by its own `break`, or by a `return` that passes it.

Signals that the control follows from rest to rest do not leak (`Control.Follows.contained`).
-/
namespace LoxKit

/-- A loop or a call that has begun and not yet ended. -/
inductive Active where
  | loop
  | call (f : FunDecl)

/-- What a run is about to do. -/
inductive Phase where
  /-- It goes on. -/
  | going
  /-- The test of the innermost loop failed. -/
  | over
  /-- It is on the way out of the innermost loop. -/
  | leaving
  /-- It is on the way out of the innermost call. -/
  | givingBack (v : Value FrameId)

/-- What a run is about to do behind a statement. -/
def Completion.phase : Completion FrameId → Phase
  | .normal => .going
  | .leave => .leaving
  | .giveBack v => .givingBack v

/-- **The control of a run.** -/
structure Control where
  active : List Active
  phase : Phase

namespace Control

/-- **A signal leads to the next state** of the control. -/
inductive Next : Control → Signal → Control → Prop where
  | evaluated {st : List Active} (e : Expr) : Next ⟨st, .going⟩ (.evaluated e) ⟨st, .going⟩
  | executed {st : List Active} (s : Stmt) : Next ⟨st, .going⟩ (.executed s) ⟨st, .going⟩
  | loopBegun {st : List Active} : Next ⟨st, .going⟩ .loopBegun ⟨.loop :: st, .going⟩
  | tested {st : List Active} (v : Value FrameId) :
    Next ⟨.loop :: st, .going⟩ (.tested v) ⟨.loop :: st, if v.truthy then .going else .over⟩
  | loopOver {st : List Active} : Next ⟨.loop :: st, .over⟩ (.loopEnded .normal) ⟨st, .going⟩
  | loopLeft {st : List Active} : Next ⟨.loop :: st, .leaving⟩ (.loopEnded .normal) ⟨st, .going⟩
  | loopPassed {st : List Active} (v : Value FrameId) :
    Next ⟨.loop :: st, .givingBack v⟩ (.loopEnded (.giveBack v)) ⟨st, .givingBack v⟩
  | callBegun {st : List Active} (f : FunDecl) :
    Next ⟨st, .going⟩ (.callBegun f) ⟨.call f :: st, .going⟩
  | callOver {st : List Active} (f : FunDecl) :
    Next ⟨.call f :: st, .going⟩ (.callEnded f .normal) ⟨st, .going⟩
  | callLeft {st : List Active} (f : FunDecl) (v : Value FrameId) :
    Next ⟨.call f :: st, .givingBack v⟩ (.callEnded f (.giveBack v)) ⟨st, .going⟩
  | left {st : List Active} (k : Token) :
    Next ⟨.loop :: st, .going⟩ (.left k) ⟨.loop :: st, .leaving⟩
  | gaveBack {st : List Active} (k : Token) (v : Value FrameId) (h : ∃ f, .call f ∈ st) :
    Next ⟨st, .going⟩ (.gaveBack k v) ⟨st, .givingBack v⟩

/-- **The control follows signals** from one state to another. -/
inductive Follows : Control → List Signal → Control → Prop where
  | nil (k : Control) : Follows k [] k
  | cons {k k' k'' : Control} {e : Signal} {es : List Signal} :
    Next k e k' → Follows k' es k'' → Follows k (e :: es) k''

theorem Follows.append {k k' k'' : Control} {es es' : List Signal} (h : Follows k es k')
    (h' : Follows k' es' k'') : Follows k (es ++ es') k'' := by
  induction h with
  | nil k => exact h'
  | cons hnext _ ih => exact .cons hnext (ih h')

/-- What comes about a signal that the control has followed. -/
theorem Follows.at {k k'' : Control} {before after : List Signal} {e : Signal}
    (h : Follows k (before ++ e :: after) k'') :
    ∃ k₁ k₂, Follows k before k₁ ∧ Next k₁ e k₂ ∧ Follows k₂ after k'' := by
  induction before generalizing k with
  | nil =>
    cases h with
    | cons hnext hrest => exact ⟨k, _, .nil k, hnext, hrest⟩
  | cons b before ih =>
    cases h with
    | cons hnext hrest =>
      obtain ⟨k₁, k₂, hbefore, he, hafter⟩ := ih hrest
      exact ⟨k₁, k₂, .cons hnext hbefore, he, hafter⟩

end Control

/-! ## Signals that do not leak -/

namespace Signal

/-- What a signal makes of the loops and calls that are active, the innermost first. -/
def track : List Active → Signal → List Active
  | st, .loopBegun => .loop :: st
  | st, .callBegun f => .call f :: st
  | st, .loopEnded _ | st, .callEnded _ _ => st.tail
  | st, _ => st

/-- **The loops and calls that are active** behind the signals so far, the innermost first. -/
def activeAfter (es : List Signal) : List Active := es.foldl track []

/-- **Why the run is about to do something**, as the signals so far show. -/
def Reason : Phase → List Signal → Prop
  | .going, _ => True
  | .over, es => ∃ es' v, es = es' ++ [.tested v] ∧ v.truthy = false
  | .leaving, es => ∃ es' k, es = es' ++ [.left k]
  | .givingBack v, es =>
    ∃ es' k n, es = es' ++ .gaveBack k v :: List.replicate n (.loopEnded (.giveBack v))

/-- **The signals of a run do not leak.** -/
structure Contained (es : List Signal) : Prop where
  /-- A `break` is in a loop of the same call, and all it does is to end that loop, behind which
  the run goes on. -/
  left : ∀ before k after, es = before ++ .left k :: after →
    ∃ outer rest, activeAfter before = .loop :: outer ∧ after = .loopEnded .normal :: rest
  /-- A `return` is in a call, and all it does is to end the loops in the innermost call and
  that call, with the value. -/
  gaveBack : ∀ before k v after, es = before ++ .gaveBack k v :: after →
    ∃ n f outer rest, activeAfter before = List.replicate n .loop ++ .call f :: outer ∧
      after = List.replicate n (.loopEnded (.giveBack v)) ++
        .callEnded f (.giveBack v) :: rest
  /-- A loop that ends is the innermost of what is active.  It ends because its test failed, by
  a `break` right before, or by a `return` that has passed nothing but loops. -/
  loopEnded : ∀ before c after, es = before ++ .loopEnded c :: after →
    (∃ outer, activeAfter before = .loop :: outer) ∧
      (c = .normal ∧ (Reason .over before ∨ Reason .leaving before) ∨
        ∃ v, c = .giveBack v ∧ Reason (.givingBack v) before)
  /-- A call that ends is the innermost of what is active.  Its body does not end by a `break`,
  and if it ends by a `return`, then by one that has passed nothing but loops. -/
  callEnded : ∀ before f c after, es = before ++ .callEnded f c :: after →
    (∃ outer, activeAfter before = .call f :: outer) ∧
      c ≠ .leave ∧ ∀ v, c = .giveBack v → Reason (.givingBack v) before

end Signal

namespace Control

open Signal

/-- The control knows what is active. -/
theorem Next.active {k k' : Control} {e : Signal} (h : Next k e k') :
    k'.active = track k.active e := by
  cases h <;> rfl

theorem Follows.active {k k' : Control} {es : List Signal} (h : Follows k es k') :
    k'.active = es.foldl track k.active := by
  induction h with
  | nil k => rfl
  | cons hnext _ ih => rw [ih, hnext.active, List.foldl_cons]

/-- What the control is about to do has its reason in the signals. -/
theorem Next.reason {k k' : Control} {e : Signal} {es : List Signal} (h : Next k e k')
    (hk : Reason k.phase es) : Reason k'.phase (es ++ [e]) := by
  cases h with
  | tested v =>
    dsimp only
    split
    · trivial
    · rename_i hv
      exact ⟨es, v, rfl, (Bool.not_eq_true _).mp hv⟩
  | left k => exact ⟨es, k, rfl⟩
  | gaveBack k v h => exact ⟨es, k, 0, rfl⟩
  | loopPassed v =>
    -- one loop more is behind the `return`
    obtain ⟨es', k, n, rfl⟩ := hk
    refine ⟨es', k, n + 1, ?_⟩
    rw [List.replicate_succ', List.append_assoc, List.cons_append]
  | _ => trivial

theorem Follows.reason {k k' : Control} {es before : List Signal} (h : Follows k es k')
    (hk : Reason k.phase before) : Reason k'.phase (before ++ es) := by
  induction h generalizing before with
  | nil k => rwa [List.append_nil]
  | cons hnext _ ih =>
    rw [← List.singleton_append, ← List.append_assoc]
    exact ih (hnext.reason hk)

/-- **On the way out of a call**, the loops in it end and then the call, before anything
else. -/
theorem Follows.givingBack {v : Value FrameId} {st st' : List Active} {es : List Signal}
    (h : Follows ⟨st, .givingBack v⟩ es ⟨st', .going⟩) (hcall : ∃ f, .call f ∈ st) :
    ∃ n f outer rest, st = List.replicate n .loop ++ .call f :: outer ∧
      es = List.replicate n (.loopEnded (.giveBack v)) ++ .callEnded f (.giveBack v) :: rest := by
  -- what is on top of the active decides which one signal may come
  induction st generalizing es with
  | nil =>
    obtain ⟨f, hf⟩ := hcall
    cases hf
  | cons a st ih =>
    cases h with
    | @cons _ _ _ _ rest hnext hrest =>
      cases hnext with
      | loopPassed =>
        obtain ⟨n, f, outer, rest, rfl, rfl⟩ := ih hrest (by simpa using hcall)
        exact ⟨n + 1, f, outer, rest, rfl, rfl⟩
      | callLeft f => exact ⟨0, f, st, rest, rfl, rfl⟩

/-- **Signals do not leak** that the control follows from rest to a place where the run goes
on. -/
theorem Follows.contained {es : List Signal} {st : List Active}
    (h : Follows ⟨[], .going⟩ es ⟨st, .going⟩) : Contained es := by
  refine ⟨?_, ?_, ?_, ?_⟩
  · rintro before k after rfl
    obtain ⟨k₁, k₂, hbefore, hnext, hafter⟩ := h.at
    have hactive := hbefore.active
    cases hnext with
    | @left outer =>
      -- on the way out of a loop, the run does not stop and takes no other signal
      cases hafter with
      | @cons _ _ _ _ rest hnext _ =>
        cases hnext
        exact ⟨outer, rest, hactive.symm, rfl⟩
  · rintro before k v after rfl
    obtain ⟨k₁, k₂, hbefore, hnext, hafter⟩ := h.at
    have hactive := hbefore.active
    cases hnext with
    | gaveBack k v hcall =>
      obtain ⟨n, f, outer, rest, hst, hes⟩ := hafter.givingBack hcall
      exact ⟨n, f, outer, rest, hactive.symm.trans hst, hes⟩
  · rintro before c after rfl
    obtain ⟨k₁, k₂, hbefore, hnext, -⟩ := h.at
    have hactive := hbefore.active
    have hreason : Reason k₁.phase ([] ++ before) := hbefore.reason trivial
    cases hnext with
    | @loopOver outer => exact ⟨⟨outer, hactive.symm⟩, .inl ⟨rfl, .inl hreason⟩⟩
    | @loopLeft outer => exact ⟨⟨outer, hactive.symm⟩, .inl ⟨rfl, .inr hreason⟩⟩
    | @loopPassed outer v => exact ⟨⟨outer, hactive.symm⟩, .inr ⟨v, rfl, hreason⟩⟩
  · rintro before f c after rfl
    obtain ⟨k₁, k₂, hbefore, hnext, -⟩ := h.at
    have hactive := hbefore.active
    have hreason : Reason k₁.phase ([] ++ before) := hbefore.reason trivial
    cases hnext with
    | @callOver outer => exact ⟨⟨outer, hactive.symm⟩, nofun, nofun⟩
    | @callLeft outer f v =>
      refine ⟨⟨outer, hactive.symm⟩, nofun, ?_⟩
      rintro _ ⟨⟩
      exact hreason

end Control
end LoxKit
