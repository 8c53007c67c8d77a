import LoxKit.Proofs.Grammar.Steps

/-!
# Reading up to a stop

What a step of reading does can be told from the tokens up to a token that it does not pass: the
closing token of the list, or a semicolon if the step is one that takes none.  To say so, two
cursors are put side by side (`Sides`).  In front of the stop they have the same tokens; what
stands beyond it, and what has been recorded before, may be different.  Two steps **agree** if
they then yield the same or are cut off in the same way, in front of the same tokens
(`Sides.Agree`).

Agreement also counts.  It says how many tokens are left in front of the stop, so that a step is
seen to move on; it says when reading may be cut off for want of room; and it says that a syntax
error is recorded at the token which is ahead then.  The repetitions of two agreeing readers may
have different bounds, if both are greater than the number of the tokens ahead: so a bound that is
large enough has no part in what is read.
-/
namespace LoxKit
namespace Grammar

variable {α β σ : Type}

/-- **Two surroundings of the same tokens.** -/
structure Sides where
  /-- The token that is not passed. -/
  stop : Token
  /-- The kinds of the tokens in front of the stop. -/
  inside : TokenKind → Prop
  not_end : ¬inside .endOfInput
  not_stop : ¬inside stop.kind
  stops : stop.isEnd ∨ stop.kind = .semicolon
  /-- What stands beyond the stop, on either side. -/
  beyond : List Token
  beyond' : List Token
  /-- What has been recorded before, on either side. -/
  before : List Diagnostic
  before' : List Diagnostic

namespace Sides

variable (S : Sides)

/-- The cursor of the one side in front of some tokens. -/
def left (us : List Token) (l : Nat) (ds : List Diagnostic) : Cursor :=
  { rest := us ++ S.stop :: S.beyond, loops := l, diagnostics := S.before ++ ds }

/-- The cursor of the other side in front of the same tokens. -/
def right (us : List Token) (l : Nat) (ds : List Diagnostic) : Cursor :=
  { rest := us ++ S.stop :: S.beyond', loops := l, diagnostics := S.before' ++ ds }

/-- All tokens are of kinds that may stand in front of the stop. -/
def Inside (us : List Token) : Prop := ∀ t ∈ us, S.inside t.kind

/-- **How reading is cut off** in front of some tokens, with what is recorded by then: by a
syntax error at the token ahead, or where nesting may be too `deep`. -/
def Cut (deep : Prop) (us : List Token) (ds : List Diagnostic) : Halt → Prop
  | .fault => ∃ what ds₀,
      ds = ds₀ ++ [.atToken (ahead us S.stop) (Fault.expected what).message]
  | .tooDeep => deep

/-- **Two steps agree** in front of `n` tokens.  What they yield, and how many tokens are left
then, is as it should be. -/
def Agree (n : Nat) (deep : Prop) (p q : Reader α) (Q : α → Nat → Prop) : Prop :=
  ∀ us l ds, S.Inside us → us.length = n → ∃ vs ds', vs <:+ us ∧
    ((∃ a, p (S.left us l ds) = .ok a (S.left vs l ds') ∧
        q (S.right us l ds) = .ok a (S.right vs l ds') ∧ Q a vs.length) ∨
      ∃ e, p (S.left us l ds) = .error e (S.left vs l ds') ∧
        q (S.right us l ds) = .error e (S.right vs l ds') ∧ S.Cut deep vs ds' e)

/-- The two sides exchanged. -/
def flip : Sides :=
  { S with beyond := S.beyond', beyond' := S.beyond, before := S.before', before' := S.before }

/-- The surroundings of the tokens in front of a closing token. -/
def closing {z : Token} (hz : z.isEnd) (beyond beyond' : List Token)
    (before before' : List Diagnostic) : Sides where
  stop := z
  inside := (· ≠ .endOfInput)
  not_end := fun h => h rfl
  not_stop := fun h => h (beq_iff_eq.mp hz)
  stops := .inl hz
  beyond := beyond
  beyond' := beyond'
  before := before
  before' := before'

theorem closing_inside {z : Token} {hz : z.isEnd} {beyond beyond' : List Token}
    {before before' : List Diagnostic} {us : List Token} (hus : ∀ t ∈ us, t.isEnd = false) :
    (closing hz beyond beyond' before before').Inside us :=
  fun t ht => beq_eq_false_iff_ne.mp (hus t ht)

variable {S} {n : Nat} {deep deep' : Prop} {us : List Token} {l : Nat} {ds : List Diagnostic}

/-! ## The cursor of one side -/

theorem Inside.of_suffix {vs : List Token} (h : S.Inside us) (hvs : vs <:+ us) : S.Inside vs :=
  fun t ht => h t (hvs.subset ht)

theorem Inside.isEnd {t : Token} (h : S.Inside us) (ht : t ∈ us) : t.isEnd = false := by
  refine beq_eq_false_iff_ne.mpr fun hend => S.not_end ?_
  rw [← hend]
  exact h t ht

@[simp] theorem left_current : (S.left us l ds).current = ahead us S.stop := by
  cases us <;> rfl

@[simp] theorem right_current : (S.right us l ds).current = ahead us S.stop := by
  cases us <;> rfl

theorem left_advance {t : Token} (ht : t.isEnd = false) :
    (S.left (t :: us) l ds).advance = S.left us l ds := by
  have hend : (S.left (t :: us) l ds).atEnd = false := ht
  unfold Cursor.advance
  rw [hend]
  rfl

theorem left_blame (t : Token) (f : Fault) :
    (S.left us l ds).blame t f = S.left us l (ds ++ [.atToken t f.message]) := by
  simp [left, Cursor.blame]

theorem right_blame (t : Token) (f : Fault) :
    (S.right us l ds).blame t f = S.right us l (ds ++ [.atToken t f.message]) :=
  left_blame (S := S.flip) t f

/-! ## Tokens that are taken -/

/-- **A choice of tokens spares the stop**: it closes the list, or it is not wanted. -/
def Spares (S : Sides) (wanted : TokenKind → Bool) : Prop :=
  S.stop.isEnd ∨ wanted S.stop.kind = false

/-- What takes no semicolon spares every stop. -/
theorem spares {wanted : TokenKind → Bool} (h : wanted .semicolon = false) : S.Spares wanted := by
  rcases S.stops with hend | hkind
  · exact .inl hend
  · refine .inr ?_
    rw [hkind, h]

theorem spares_kind {kind : TokenKind} (h : kind ≠ .semicolon) : S.Spares (· == kind) :=
  spares (beq_false_of_ne h.symm)

/-- What `accept?` makes of one side. -/
theorem accept?_left {wanted : TokenKind → Bool} (hspares : S.Spares wanted) (hus : S.Inside us)
    (l : Nat) (ds : List Diagnostic) :
    (∃ t vs, us = t :: vs ∧ wanted t.kind ∧
        Grammar.accept? wanted (S.left us l ds) = .ok (some t) (S.left vs l ds)) ∨
      ((∀ t vs, us = t :: vs → wanted t.kind = false) ∧
        Grammar.accept? wanted (S.left us l ds) = .ok none (S.left us l ds)) := by
  rw [accept?_apply, left_current]
  cases us with
  | nil =>
    refine .inr ⟨nofun, if_neg ?_⟩
    rintro htaken
    obtain ⟨hend, hwanted⟩ := Bool.and_eq_true_iff.mp htaken
    rcases hspares with hclosing | hnot
    · rw [Cursor.atEnd, left_current, ahead_nil, hclosing] at hend
      cases hend
    · rw [ahead_nil, hnot] at hwanted
      cases hwanted
  | cons t vs =>
    have ht : t.isEnd = false := hus.isEnd List.mem_cons_self
    have hend : (S.left (t :: vs) l ds).atEnd = false := ht
    rw [hend, ahead_cons]
    by_cases hwanted : wanted t.kind = true
    · refine .inl ⟨t, vs, rfl, hwanted, ?_⟩
      rw [hwanted, left_advance ht]
      rfl
    · rw [Bool.not_eq_true] at hwanted
      refine .inr ⟨?_, ?_⟩
      · rintro _ _ ⟨⟩
        exact hwanted
      · rw [hwanted]
        rfl

/-! ## Where reading resumes -/

/-- Where reading resumes does not depend on what is beyond the closing token. -/
theorem resumeBehind_closing {z : Token} (hz : z.isEnd) :
    ∀ (previous : Token) (us : List Token), ∃ vs, vs <:+ us ∧
      ∀ beyond, resumeBehind previous (us ++ z :: beyond) = vs ++ z :: beyond := by
  intro previous us
  induction us generalizing previous with
  | nil =>
    refine ⟨[], List.suffix_refl _, fun beyond => ?_⟩
    rw [List.nil_append, resumeBehind, hz]
    rfl
  | cons t us ih =>
    by_cases hhere : (t.isEnd || previous.kind == .semicolon || t.kind.startsStatement) = true
    · refine ⟨t :: us, List.suffix_refl _, fun beyond => ?_⟩
      rw [List.cons_append, resumeBehind, if_pos hhere]
    · obtain ⟨vs, hvs, hrun⟩ := ih t
      refine ⟨vs, hvs.trans (List.suffix_cons t us), fun beyond => ?_⟩
      rw [List.cons_append, resumeBehind, if_neg hhere, hrun]

/-- At least one token is given up, if any is left. -/
theorem resume_closing {z : Token} (hz : z.isEnd) (hus : ∀ t ∈ us, t.isEnd = false) :
    ∃ vs, vs <:+ us ∧ vs.length ≤ us.length - 1 ∧
      ∀ beyond, resume (us ++ z :: beyond) = vs ++ z :: beyond := by
  cases us with
  | nil =>
    refine ⟨[], List.suffix_refl _, Nat.le_refl _, fun beyond => ?_⟩
    rw [List.nil_append, resume, if_pos hz]
  | cons t us =>
    obtain ⟨vs, hvs, hrun⟩ := resumeBehind_closing hz t us
    refine ⟨vs, hvs.trans (List.suffix_cons t us), hvs.length_le, fun beyond => ?_⟩
    rw [List.cons_append, resume, hus t List.mem_cons_self, if_neg Bool.false_ne_true, hrun]

/-- Recovery on either side gives up the same tokens. -/
theorem recover_left (hend : S.stop.isEnd) (hus : S.Inside us) (l : Nat) (ds : List Diagnostic) :
    ∃ vs, vs <:+ us ∧ vs.length ≤ us.length - 1 ∧
      (S.left us l ds).recover = S.left vs l ds ∧ (S.right us l ds).recover = S.right vs l ds := by
  obtain ⟨vs, hvs, hlen, hresume⟩ := resume_closing hend fun t => hus.isEnd
  refine ⟨vs, hvs, hlen, ?_, ?_⟩
  · exact congrArg (fun ts => { S.left us l ds with rest := ts }) (hresume S.beyond)
  · exact congrArg (fun ts => { S.right us l ds with rest := ts }) (hresume S.beyond')

namespace Agree

variable {p q : Reader α} {Q R : α → Nat → Prop}

/-! ## Rules for any steps -/

theorem mono (h : S.Agree n deep p q Q) (hdeep : deep → deep') (hQR : ∀ a m, Q a m → R a m) :
    S.Agree n deep' p q R := by
  intro us l ds hus hn
  obtain ⟨vs, ds', hvs, ⟨a, hp, hq, hQ⟩ | ⟨e, hp, hq, he⟩⟩ := h us l ds hus hn
  · exact ⟨vs, ds', hvs, .inl ⟨a, hp, hq, hQR a _ hQ⟩⟩
  · refine ⟨vs, ds', hvs, .inr ⟨e, hp, hq, ?_⟩⟩
    cases e with
    | fault => exact he
    | tooDeep => exact hdeep he

/-- One step behind the other. -/
theorem bind {f g : α → Reader β} {R : β → Nat → Prop} (hp : S.Agree n deep p q Q)
    (hf : ∀ a m, m ≤ n → Q a m → S.Agree m deep (f a) (g a) R) :
    S.Agree n deep (p >>= f) (q >>= g) R := by
  intro us l ds hus hn
  obtain ⟨vs, ds', hvs, ⟨a, hpa, hqa, hQ⟩ | ⟨e, hpe, hqe, he⟩⟩ := hp us l ds hus hn
  · have hlen : vs.length ≤ n := by
      rw [← hn]
      exact hvs.length_le
    rw [bind_ok hpa, bind_ok hqa]
    obtain ⟨ws, ds'', hws, hboth⟩ := hf a vs.length hlen hQ vs l ds' (hus.of_suffix hvs) rfl
    exact ⟨ws, ds'', hws.trans hvs, hboth⟩
  · exact ⟨vs, ds', hvs, .inr ⟨e, bind_error hpe, bind_error hqe, he⟩⟩

theorem pure {a : α} (h : Q a n) : S.Agree n deep (Pure.pure a) (Pure.pure a) Q := by
  rintro us l ds - rfl
  exact ⟨us, ds, List.suffix_refl us, .inl ⟨a, rfl, rfl, h⟩⟩

theorem tooDeep (h : deep) :
    S.Agree n deep (MonadExcept.throw Halt.tooDeep) (MonadExcept.throw Halt.tooDeep) Q := by
  rintro us l ds - rfl
  exact ⟨us, ds, List.suffix_refl us, .inr ⟨.tooDeep, rfl, rfl, h⟩⟩

theorem ite {P : Prop} [Decidable P] {p' q' : Reader α} (hp : P → S.Agree n deep p q Q)
    (hq : ¬P → S.Agree n deep p' q' Q) :
    S.Agree n deep (if P then p else p') (if P then q else q') Q := by
  by_cases h : P
  · rw [if_pos h, if_pos h]
    exact hp h
  · rw [if_neg h, if_neg h]
    exact hq h

/-- What is done may depend on the count of enclosing loops. -/
theorem get {f g : Cursor → Reader α} (hg : ∀ c d : Cursor, c.loops = d.loops → g c = g d)
    (h : ∀ c, S.Agree n deep (f c) (g c) Q) :
    S.Agree n deep (MonadState.get >>= f) (MonadState.get >>= g) Q := by
  intro us l ds hus hn
  have hboth := h (S.left us l ds) us l ds hus hn
  rw [hg (S.left us l ds) (S.right us l ds) rfl] at hboth
  exact hboth

/-! ## Single steps -/

theorem need {room : Nat} (h : room < lookRoom → deep) :
    S.Agree n deep (Grammar.need room) (Grammar.need room) fun _ m => m = n :=
  .ite (fun hroom => .tooDeep (h hroom)) fun _ => .pure rfl

theorem current : S.Agree n deep Grammar.current Grammar.current fun _ m => m = n := by
  rintro us l ds - rfl
  refine ⟨us, ds, List.suffix_refl us, .inl ⟨ahead us S.stop, ?_, ?_, rfl⟩⟩
  · exact congrArg (EStateM.Result.ok · (S.left us l ds)) left_current
  · exact congrArg (EStateM.Result.ok · (S.right us l ds)) right_current

/-- Where the stop closes the list, tokens are left unless reading is at its end. -/
theorem atEnd (hend : S.stop.isEnd) :
    S.Agree n deep Grammar.atEnd Grammar.atEnd fun b m => m = n ∧ (b = true ↔ n = 0) := by
  rintro us l ds hus rfl
  refine ⟨us, ds, List.suffix_refl us, .inl ⟨(ahead us S.stop).isEnd, ?_, ?_, rfl, ?_⟩⟩
  · exact congrArg (fun t => EStateM.Result.ok (Token.isEnd t) (S.left us l ds)) left_current
  · exact congrArg (fun t => EStateM.Result.ok (Token.isEnd t) (S.right us l ds)) right_current
  · cases us with
    | nil => simpa using hend
    | cons t us => simp [hus.isEnd List.mem_cons_self]

theorem check (kind : TokenKind) :
    S.Agree n deep (Grammar.check kind) (Grammar.check kind) fun _ m => m = n := by
  rintro us l ds - rfl
  let b := !(ahead us S.stop).isEnd && (ahead us S.stop).kind == kind
  refine ⟨us, ds, List.suffix_refl us, .inl ⟨b, ?_, ?_, rfl⟩⟩
  · exact congrArg (fun t : Token => EStateM.Result.ok (!t.isEnd && t.kind == kind)
      (S.left us l ds)) left_current
  · exact congrArg (fun t : Token => EStateM.Result.ok (!t.isEnd && t.kind == kind)
      (S.right us l ds)) right_current

theorem accept? {wanted : TokenKind → Bool} (hspares : S.Spares wanted) :
    S.Agree n deep (Grammar.accept? wanted) (Grammar.accept? wanted) fun o m =>
      m ≤ n ∧ ∀ t ∈ o, m < n ∧ wanted t.kind ∧ S.inside t.kind := by
  rintro us l ds hus rfl
  have hleft := accept?_left hspares hus l ds
  have hright := accept?_left (S := S.flip) hspares hus l ds
  rcases hleft with ⟨t, vs, rfl, ht, hleft⟩ | ⟨hnot, hleft⟩
  · rcases hright with ⟨_, _, ⟨⟩, -, hright⟩ | ⟨hnot, -⟩
    · refine ⟨vs, ds, List.suffix_cons t vs, .inl ⟨some t, hleft, hright, by simp, ?_⟩⟩
      rintro _ ⟨⟩
      exact ⟨by simp, ht, hus t List.mem_cons_self⟩
    · rw [hnot t vs rfl] at ht
      cases ht
  · rcases hright with ⟨t, vs, rfl, ht, -⟩ | ⟨-, hright⟩
    · rw [hnot t vs rfl] at ht
      cases ht
    · exact ⟨us, ds, List.suffix_refl us, .inl ⟨none, hleft, hright, Nat.le_refl _, nofun⟩⟩

theorem accept {kind : TokenKind} (hspares : S.Spares (· == kind)) :
    S.Agree n deep (Grammar.accept kind) (Grammar.accept kind) fun b m =>
      m ≤ n ∧ (b = true → m < n) := by
  refine (Agree.accept? hspares).bind fun o m _ ho => .pure ⟨ho.1, fun hsome => ?_⟩
  obtain ⟨t, ht⟩ := Option.isSome_iff_exists.mp hsome
  exact (ho.2 t ht).1

theorem blame (t : Token) (f : Fault) :
    S.Agree n deep (Grammar.blame t f) (Grammar.blame t f) fun _ m => m = n := by
  rintro us l ds - rfl
  refine ⟨us, ds ++ [.atToken t f.message], List.suffix_refl us, .inl ⟨(), ?_, ?_, rfl⟩⟩
  · exact congrArg (EStateM.Result.ok ()) (left_blame t f)
  · exact congrArg (EStateM.Result.ok ()) (right_blame t f)

theorem fail (what : String) :
    S.Agree n deep (Grammar.fail (.expected what)) (Grammar.fail (.expected what)) Q := by
  rintro us l ds - rfl
  refine ⟨us, ds ++ [.atToken (ahead us S.stop) (Fault.expected what).message],
    List.suffix_refl us, .inr ⟨.fault, ?_, ?_, what, ds, rfl⟩⟩
  · show EStateM.Result.error _ ((S.left us l ds).blame (S.left us l ds).current _) = _
    rw [left_current, left_blame]
  · show EStateM.Result.error _ ((S.right us l ds).blame (S.right us l ds).current _) = _
    rw [right_current, right_blame]

theorem expect {kind : TokenKind} (hspares : S.Spares (· == kind)) (what : String) :
    S.Agree n deep (Grammar.expect kind what) (Grammar.expect kind what) fun _ m => m < n := by
  refine (Agree.accept? hspares).bind fun o m _ ho => ?_
  cases o with
  | none => exact .fail what
  | some t => exact .pure (ho.2 t rfl).1

/-- What may not stand in front of the stop is not found there. -/
theorem expect_absent {kind : TokenKind} (hspares : S.Spares (· == kind)) (h : ¬S.inside kind)
    (what : String) :
    S.Agree n deep (Grammar.expect kind what) (Grammar.expect kind what) fun _ _ => False := by
  refine (Agree.accept? hspares).bind fun o m _ ho => ?_
  cases o with
  | none => exact .fail what
  | some t =>
    obtain ⟨-, hkind, hinside⟩ := ho.2 t rfl
    rw [beq_iff_eq.mp hkind] at hinside
    exact absurd hinside h

theorem behind? {kind : TokenKind} (hspares : S.Spares (· == kind))
    (h : ∀ m < n, S.Agree m deep p q fun _ k => k ≤ m) :
    S.Agree n deep (Grammar.behind? kind p) (Grammar.behind? kind q) fun _ m => m ≤ n := by
  refine (Agree.accept hspares).bind fun b m hm hb => .ite (fun htaken => ?_) fun _ => .pure hb.1
  exact (h m (hb.2 htaken)).bind fun _ k _ hk => .pure (by omega)

theorem unless? (kind : TokenKind) (h : S.Agree n deep p q fun _ m => m ≤ n) :
    S.Agree n deep (Grammar.unless? kind p) (Grammar.unless? kind q) fun _ m => m ≤ n := by
  refine (Agree.check kind).bind ?_
  rintro _ _ - rfl
  exact .ite (fun _ => .pure (Nat.le_refl _)) fun _ => h.bind fun _ _ _ hm => .pure hm

/-- Reading inside another count of loops. -/
theorem withLoops (count : Nat → Nat) (h : S.Agree n deep p q Q) :
    S.Agree n deep (Grammar.withLoops count p) (Grammar.withLoops count q) Q := by
  intro us l ds hus hn
  obtain ⟨vs, ds', hvs, ⟨a, hp, hq, hQ⟩ | ⟨e, hp, hq, he⟩⟩ := h us (count l) ds hus hn
  · exact ⟨vs, ds', hvs, .inl ⟨a, withLoops_ok (c := S.left us l ds) hp,
      withLoops_ok (c := S.right us l ds) hq, hQ⟩⟩
  · exact ⟨vs, ds', hvs, .inr ⟨e, withLoops_error (c := S.left us l ds) hp,
      withLoops_error (c := S.right us l ds) hq, he⟩⟩

/-! ## Recovery, in front of the closing token -/

section Recovery

variable (hend : S.stop.isEnd)
include hend

theorem orResume (h : S.Agree n deep p q fun _ m => m < n) :
    S.Agree n deep (Grammar.orResume p) (Grammar.orResume q) fun _ m => m ≤ n - 1 := by
  intro us l ds hus hn
  obtain ⟨vs, ds', hvs, ⟨a, hp, hq, hlt⟩ | ⟨e, hp, hq, he⟩⟩ := h us l ds hus hn
  · exact ⟨vs, ds', hvs, .inl ⟨some a, orResume_ok hp, orResume_ok hq,
      Nat.le_sub_one_of_lt hlt⟩⟩
  · cases e with
    | tooDeep =>
      exact ⟨vs, ds', hvs, .inr ⟨.tooDeep, orResume_tooDeep hp, orResume_tooDeep hq, he⟩⟩
    | fault =>
      obtain ⟨ws, hws, hlen, hleft, hright⟩ := recover_left hend (hus.of_suffix hvs) l ds'
      have hle := Nat.le_trans hlen (Nat.sub_le_sub_right (hn ▸ hvs.length_le) 1)
      refine ⟨ws, ds', hws.trans hvs, .inl ⟨none, ?_, ?_, hle⟩⟩
      · rw [orResume_fault hp, hleft]
      · rw [orResume_fault hq, hright]

/-- Where nesting is too deep, reading goes on too. -/
theorem orGiveUp {p q : Reader (Option α)} (h : S.Agree n deep p q fun _ m => m ≤ n - 1) :
    S.Agree n False (Grammar.orGiveUp p) (Grammar.orGiveUp q) fun _ m => m ≤ n - 1 := by
  intro us l ds hus hn
  obtain ⟨vs, ds', hvs, ⟨a, hp, hq, hle⟩ | ⟨e, hp, hq, he⟩⟩ := h us l ds hus hn
  · exact ⟨vs, ds', hvs, .inl ⟨a, orGiveUp_ok hp, orGiveUp_ok hq, hle⟩⟩
  · cases e with
    | fault => exact ⟨vs, ds', hvs, .inr ⟨.fault, orGiveUp_fault hp, orGiveUp_fault hq, he⟩⟩
    | tooDeep =>
      let ds'' := ds' ++ [.atToken (ahead vs S.stop) Fault.tooDeep.message]
      obtain ⟨ws, hws, hlen, hleft, hright⟩ := recover_left hend (hus.of_suffix hvs) l ds''
      have hle := Nat.le_trans hlen (Nat.sub_le_sub_right (hn ▸ hvs.length_le) 1)
      refine ⟨ws, ds'', hws.trans hvs, .inl ⟨none, ?_, ?_, hle⟩⟩
      · rw [orGiveUp_tooDeep hp, left_current, left_blame, hleft]
      · rw [orGiveUp_tooDeep hq, right_current, right_blame, hright]

end Recovery

end Agree

/-! ## Loops -/

/-- **What is left of a turn** of two loops, in front of `m` tokens; it began in front of `n`.
Either both loops end in it, whatever their bounds, and agree, or both go over to the next turn,
with fewer tokens ahead. -/
def Turns (S : Sides) (n : Nat) (deep : Prop) (loop loop' : Nat → σ → Reader β)
    (Q : β → Nat → Prop) (m : Nat) (f g : Nat → Reader β) : Prop :=
  ∀ us l ds, S.Inside us → us.length = m → ∃ vs ds', vs <:+ us ∧
    ((∃ a, (∀ k, f k (S.left us l ds) = .ok a (S.left vs l ds')) ∧
        (∀ k, g k (S.right us l ds) = .ok a (S.right vs l ds')) ∧ Q a vs.length) ∨
      (∃ e, (∀ k, f k (S.left us l ds) = .error e (S.left vs l ds')) ∧
        (∀ k, g k (S.right us l ds) = .error e (S.right vs l ds')) ∧ S.Cut deep vs ds' e) ∨
      ∃ s, vs.length < n ∧ (∀ k, f k (S.left us l ds) = loop k s (S.left vs l ds')) ∧
        ∀ k, g k (S.right us l ds) = loop' k s (S.right vs l ds'))

/-- **Two loops agree turn by turn** from in front of `n` tokens. -/
def LoopsAgree (S : Sides) (n : Nat) (deep : Prop) (loop loop' : Nat → σ → Reader β)
    (Q : β → Nat → Prop) : Prop :=
  ∀ s, S.Turns n deep loop loop' Q n (fun k => loop (k + 1) s) fun k => loop' (k + 1) s

namespace Turns

variable {loop loop' : Nat → σ → Reader β} {Q : β → Nat → Prop} {m : Nat} {f g : Nat → Reader β}

theorem ends {p q : Reader β} (h : S.Agree m deep p q Q) :
    S.Turns n deep loop loop' Q m (fun _ => p) fun _ => q := by
  intro us l ds hus hm
  obtain ⟨vs, ds', hvs, ⟨a, hp, hq, hQ⟩ | ⟨e, hp, hq, he⟩⟩ := h us l ds hus hm
  · exact ⟨vs, ds', hvs, .inl ⟨a, fun _ => hp, fun _ => hq, hQ⟩⟩
  · exact ⟨vs, ds', hvs, .inr (.inl ⟨e, fun _ => hp, fun _ => hq, he⟩)⟩

theorem again (s : σ) (h : m < n) :
    S.Turns n deep loop loop' Q m (fun k => loop k s) fun k => loop' k s := by
  rintro us l ds - rfl
  exact ⟨us, ds, List.suffix_refl us, .inr (.inr ⟨s, h, fun _ => rfl, fun _ => rfl⟩)⟩

theorem bind {p q : Reader α} {P : α → Nat → Prop} {f g : Nat → α → Reader β}
    (hp : S.Agree m deep p q P) (hf : ∀ a k, k ≤ m → P a k →
      S.Turns n deep loop loop' Q k (fun i => f i a) fun i => g i a) :
    S.Turns n deep loop loop' Q m (fun k => p >>= f k) fun k => q >>= g k := by
  intro us l ds hus hm
  obtain ⟨vs, ds', hvs, ⟨a, hpa, hqa, hP⟩ | ⟨e, hpe, hqe, he⟩⟩ := hp us l ds hus hm
  · have hlen : vs.length ≤ m := by
      rw [← hm]
      exact hvs.length_le
    simp only [bind_ok hpa, bind_ok hqa]
    obtain ⟨ws, ds'', hws, hboth⟩ := hf a vs.length hlen hP vs l ds' (hus.of_suffix hvs) rfl
    exact ⟨ws, ds'', hws.trans hvs, hboth⟩
  · exact ⟨vs, ds', hvs, .inr (.inl ⟨e, fun _ => bind_error hpe, fun _ => bind_error hqe, he⟩)⟩

theorem ite {P : Prop} [Decidable P] {f' g' : Nat → Reader β}
    (hf : P → S.Turns n deep loop loop' Q m f g) (hg : ¬P → S.Turns n deep loop loop' Q m f' g') :
    S.Turns n deep loop loop' Q m (fun k => if P then f k else f' k)
      fun k => if P then g k else g' k := by
  by_cases h : P
  · simp only [if_pos h]
    exact hf h
  · simp only [if_neg h]
    exact hg h

end Turns

/-- **Loops that agree turn by turn agree**, within any bounds that are greater than the number of
the tokens ahead. -/
theorem LoopsAgree.agree {loop loop' : Nat → σ → Reader β} (Q : Nat → β → Nat → Prop)
    (hQ : ∀ i m a k, i < m → Q i a k → Q m a k)
    (h : ∀ m ≤ n, S.LoopsAgree m deep loop loop' (Q m)) :
    ∀ w w' s, ∀ m ≤ n, m < w → m < w' → S.Agree m deep (loop w s) (loop' w' s) (Q m) := by
  intro w
  -- each turn takes one from both bounds and at least one of the tokens ahead
  induction w with
  | zero => exact fun _ _ m _ hw => absurd hw (Nat.not_lt_zero m)
  | succ w ih =>
    intro w' s m hm hw hw' us l ds hus hn
    obtain ⟨w', rfl⟩ := Nat.exists_eq_add_one_of_ne_zero (Nat.ne_zero_of_lt hw')
    obtain ⟨vs, ds', hvs, ⟨a, hp, hq, ha⟩ | ⟨e, hp, hq, he⟩ | ⟨s', hlt, hp, hq⟩⟩ :=
      h m hm s us l ds hus hn
    · exact ⟨vs, ds', hvs, .inl ⟨a, hp w, hq w', ha⟩⟩
    · exact ⟨vs, ds', hvs, .inr ⟨e, hp w, hq w', he⟩⟩
    · have hrest := (ih w' s' vs.length (by omega) (by omega) (by omega)).mono id
        fun a k => hQ vs.length m a k hlt
      obtain ⟨ws, ds'', hws, hboth⟩ := hrest vs l ds' (hus.of_suffix hvs) rfl
      rw [← hp w, ← hq w'] at hboth
      exact ⟨ws, ds'', hws.trans hvs, hboth⟩

/-! ## The loops of the grammar -/

section Lists

variable {w w' : Nat}

theorem chain_loopsAgree {operators : TokenKind → Bool} (hspares : S.Spares operators)
    {operand operand' : Reader Expr} (node : Expr → Token → Expr → Expr)
    (hoperand : ∀ k ≤ n, S.Agree k deep operand operand' fun _ i => i < k) :
    S.LoopsAgree n deep (chain operators operand node) (chain operators operand' node)
      fun _ k => k ≤ n := by
  intro left
  refine .bind (.accept? hspares) fun op k _ hk => ?_
  cases op with
  | none => exact .ends (.pure hk.1)
  | some op =>
    have hlt := (hk.2 op rfl).1
    exact .bind (hoperand k (by omega)) fun right i _ hi => .again _ (by omega)

theorem Agree.chain {operators : TokenKind → Bool} (hspares : S.Spares operators)
    {operand operand' : Reader Expr} (node : Expr → Token → Expr → Expr)
    (hoperand : ∀ k ≤ n, S.Agree k deep operand operand' fun _ i => i < k) :
    ∀ (w w' : Nat) (left : Expr), ∀ m ≤ n, m < w → m < w' →
      S.Agree m deep (chain operators operand node w left) (chain operators operand' node w' left)
        fun _ k => k ≤ m :=
  LoopsAgree.agree (fun m _ k => k ≤ m) (fun _ _ _ _ hlt hle => by omega) fun m hm =>
    chain_loopsAgree hspares node fun k hk => hoperand k (by omega)

theorem commaList_loopsAgree (what : String) {p q : Reader α}
    (hitem : S.Agree n deep p q fun _ k => k < n) :
    S.LoopsAgree n deep (commaList what p) (commaList what q) fun _ k => k < n := by
  intro done
  have hrest : S.Turns n deep (commaList what p) (commaList what q) (fun _ k => k < n) n
      (fun w => do
        let x ← p
        if ← accept .comma then commaList what p w (x :: done) else return (x :: done).reverse)
      (fun w => do
        let x ← q
        if ← accept .comma then commaList what q w (x :: done) else return (x :: done).reverse) :=
    .bind hitem fun x k _ hk => .bind (.accept (spares_kind (by decide))) fun more i _ hi =>
      .ite (fun _ => .again _ (by omega)) fun _ => .ends (.pure (by omega))
  unfold commaList
  refine .ite (fun _ => ?_) fun _ => hrest
  refine .bind .current ?_
  rintro t _ - rfl
  refine .bind (.blame t _) ?_
  rintro _ _ - rfl
  exact hrest

theorem Agree.commaList (what : String) {p q : Reader α}
    (hitem : ∀ m ≤ n, S.Agree m deep p q fun _ k => k < m) :
    ∀ (w w' : Nat) (done : List α), ∀ m ≤ n, m < w → m < w' →
      S.Agree m deep (commaList what p w done) (commaList what q w' done) fun _ k => k < m :=
  LoopsAgree.agree (fun m _ k => k < m) (fun _ _ _ _ hlt hlt' => by omega) fun m hm =>
    commaList_loopsAgree what (hitem m hm)

theorem Agree.arguments {argument argument' : Reader Expr}
    (h : ∀ m ≤ n, S.Agree m deep argument argument' fun _ k => k < m) (hw : n < w) (hw' : n < w') :
    S.Agree n deep (arguments w argument) (arguments w' argument') fun _ k => k ≤ n := by
  have hlist := Agree.commaList "arguments" h w w' [] n (Nat.le_refl n) hw hw'
  exact (Agree.unless? .rightParen (hlist.mono id fun _ _ hk => Nat.le_of_lt hk)).bind
    fun _ _ _ hk => .pure hk

theorem suffixes_loopsAgree {argument argument' : Reader Expr}
    (h : ∀ m < n, S.Agree m deep argument argument' fun _ k => k < m) (hw : n < w) (hw' : n < w') :
    S.LoopsAgree n deep (suffixes w argument) (suffixes w' argument') fun _ k => k ≤ n := by
  intro target
  refine .bind (.accept (spares_kind (by decide))) fun isCall i _ hi =>
    .ite (fun hcall => ?_) fun _ => ?_
  · -- the arguments of a call
    have hlt := hi.2 hcall
    refine .bind (.arguments (fun k hk => h k (by omega)) (by omega) (by omega))
      fun args j _ hj => ?_
    exact .bind (.expect (spares_kind (by decide)) _) fun paren k _ hk => .again _ (by omega)
  · refine .bind (.accept (spares_kind (by decide))) fun isGet j _ hj =>
      .ite (fun _ => ?_) fun _ => .ends (.pure (by omega))
    exact .bind (.expect (spares_kind (by decide)) _) fun property k _ hk => .again _ (by omega)

theorem Agree.suffixes {argument argument' : Reader Expr}
    (h : ∀ m < n, S.Agree m deep argument argument' fun _ k => k < m) (hw : n < w) (hw' : n < w') :
    ∀ (k k' : Nat) (target : Expr), ∀ m ≤ n, m < k → m < k' →
      S.Agree m deep (suffixes w argument k target) (suffixes w' argument' k' target)
        fun _ i => i ≤ m :=
  LoopsAgree.agree (fun m _ k => k ≤ m) (fun _ _ _ _ hlt hle => by omega) fun m hm =>
    suffixes_loopsAgree (fun k hk => h k (by omega)) (by omega) (by omega)

variable (hend : S.stop.isEnd)
include hend

theorem untilBrace_loopsAgree {p q : Reader (Option α)}
    (hitem : S.Agree n deep p q fun _ k => k ≤ n - 1) :
    S.LoopsAgree n deep (untilBrace p) (untilBrace q) fun _ k => k ≤ n := by
  intro done
  refine .bind (.check .rightBrace) ?_
  rintro brace n - rfl
  refine .bind (.atEnd hend) ?_
  rintro closed n - ⟨rfl, hclosed⟩
  refine .ite (fun _ => .ends (.pure (Nat.le_refl _))) fun hmore => ?_
  have hpos : 0 < n := by
    rw [Bool.not_eq_true, Bool.or_eq_false_iff] at hmore
    exact Nat.pos_of_ne_zero fun hzero => absurd (hclosed.mpr hzero) (by rw [hmore.2]; decide)
  refine .bind hitem fun x k _ hk => ?_
  cases x with
  | none => exact .again _ (by omega)
  | some x => exact .again _ (by omega)

theorem Agree.untilBrace {p q : Reader (Option α)}
    (hitem : ∀ m ≤ n, S.Agree m deep p q fun _ k => k ≤ m - 1) :
    ∀ (w w' : Nat) (done : List α), ∀ m ≤ n, m < w → m < w' →
      S.Agree m deep (untilBrace p w done) (untilBrace q w' done) fun _ k => k ≤ m :=
  LoopsAgree.agree (fun m _ k => k ≤ m) (fun _ _ _ _ hlt hle => by omega) fun m hm =>
    untilBrace_loopsAgree hend (hitem m hm)

end Lists
end Sides
end Grammar
end LoxKit
