import LoxKit.Proofs.Grammar.Steps

/-!
# What a step of reading takes

A step of reading that finds nothing wrong consumes some tokens, and what it yields can be told
from them and from the token that is ahead then (`Takes`).  Reading goes on behind a fault, so a
step promises something only if nothing has been recorded by its end.  A syntax error is always
recorded before it cuts reading off.

Repetitions are bounded by the width of the whole token list.  A step that comes to its bound
has consumed as many tokens, so nothing is promised of steps that consume so many.
-/
namespace LoxKit
namespace Grammar

variable {α β : Type} {w l : Nat}

/-- **What a step takes if it finds nothing wrong**: the tokens, fewer than `w`, and the one
ahead behind them.  It starts inside `l` loops, and is inside as many afterwards. -/
def Takes (w l : Nat) (p : Reader α) (Q : α → List Token → Token → Prop) : Prop :=
  ∀ c : Cursor, c.loops = l →
    match p c with
    | .ok a d => d.loops = l ∧ ∃ ds, d.diagnostics = c.diagnostics ++ ds ∧
        (ds = [] → ∃ ts, c.rest = ts ++ d.rest ∧ (∀ t ∈ ts, t.isEnd = false) ∧
          (ts.length < w → Q a ts d.current))
    | .error e d => d.loops = l ∧ ∃ ds, d.diagnostics = c.diagnostics ++ ds ∧ (e = .fault → ds ≠ [])

namespace Takes

/-- Only what is promised of fewer tokens than there are need be weakened. -/
theorem mono_of_lt {p : Reader α} {Q R : α → List Token → Token → Prop} (h : Takes w l p Q)
    (hQR : ∀ a ts next, ts.length < w → Q a ts next → R a ts next) : Takes w l p R := by
  intro c hc
  have hp := h c hc
  cases hpc : p c with
  | error e d =>
    rw [hpc] at hp
    exact hp
  | ok a d =>
    rw [hpc] at hp
    obtain ⟨hl, ds, hds, htaken⟩ := hp
    refine ⟨hl, ds, hds, fun hnil => ?_⟩
    obtain ⟨ts, hts, hend, hQ⟩ := htaken hnil
    exact ⟨ts, hts, hend, fun hlen => hQR a ts _ hlen (hQ hlen)⟩

theorem mono {p : Reader α} {Q R : α → List Token → Token → Prop} (h : Takes w l p Q)
    (hQR : ∀ a ts next, Q a ts next → R a ts next) : Takes w l p R :=
  h.mono_of_lt fun a ts next _ => hQR a ts next

/-- Nothing is promised of a step that consumes as many tokens as there are. -/
theorem of_bounded {p : Reader α} {Q : α → List Token → Token → Prop}
    (h : Takes w l p fun a ts next => Q a ts next ∨ w ≤ ts.length) : Takes w l p Q :=
  h.mono_of_lt fun _ _ _ hlen hQ => hQ.resolve_right (Nat.not_le.mpr hlen)

/-- Two steps take what the one takes and then the other. -/
theorem bind {p : Reader α} {f : α → Reader β} {Q : α → List Token → Token → Prop}
    {R : α → β → List Token → Token → Prop} (hp : Takes w l p Q) (hf : ∀ a, Takes w l (f a) (R a)) :
    Takes w l (p >>= f) fun b ts next => ∃ a us vs, ts = us ++ vs ∧ Q a us (ahead vs next) ∧
      R a b vs next := by
  intro c hc
  have h := hp c hc
  simp only [Bind.bind, EStateM.bind]
  cases hpc : p c with
  | error e d =>
    rw [hpc] at h
    exact h
  | ok a c₁ =>
    rw [hpc] at h
    obtain ⟨hl₁, ds₁, hds₁, htaken₁⟩ := h
    have h₂ := hf a c₁ hl₁
    cases hfa : f a c₁ with
    | error e d =>
      rw [hfa] at h₂
      simp only [hfa]
      obtain ⟨hl₂, ds₂, hds₂, hfault⟩ := h₂
      refine ⟨hl₂, ds₁ ++ ds₂, by rw [hds₂, hds₁, List.append_assoc], fun he => ?_⟩
      simp [hfault he]
    | ok b d =>
      rw [hfa] at h₂
      simp only [hfa]
      obtain ⟨hl₂, ds₂, hds₂, htaken₂⟩ := h₂
      refine ⟨hl₂, ds₁ ++ ds₂, by rw [hds₂, hds₁, List.append_assoc], fun hnil => ?_⟩
      obtain ⟨rfl, rfl⟩ := List.append_eq_nil_iff.mp hnil
      obtain ⟨us, hus, hend₁, hQ⟩ := htaken₁ rfl
      obtain ⟨vs, hvs, hend₂, hR⟩ := htaken₂ rfl
      refine ⟨us ++ vs, by rw [hus, hvs, List.append_assoc],
        List.forall_mem_append.mpr ⟨hend₁, hend₂⟩, fun hlen => ?_⟩
      rw [List.length_append] at hlen
      refine ⟨a, us, vs, rfl, ?_, hR (by omega)⟩
      rw [← Cursor.current_append hvs]
      exact hQ (by omega)

theorem pure (a : α) : Takes w l (Pure.pure a) fun b ts _ => b = a ∧ ts = [] :=
  fun _ hc => ⟨hc, [], (List.append_nil _).symm, fun _ => ⟨[], rfl, nofun, fun _ => ⟨rfl, rfl⟩⟩⟩

theorem tooDeep (Q : α → List Token → Token → Prop) :
    Takes w l (MonadExcept.throw Halt.tooDeep) Q :=
  fun _ hc => ⟨hc, [], (List.append_nil _).symm, nofun⟩

theorem get : Takes w l MonadState.get fun c ts next => ts = [] ∧ c.current = next ∧ c.loops = l :=
  fun _ hc => ⟨hc, [], (List.append_nil _).symm, fun _ => ⟨[], rfl, nofun, fun _ => ⟨rfl, rfl, hc⟩⟩⟩

theorem ite {P : Prop} [Decidable P] {p q : Reader α} {Q R : α → List Token → Token → Prop}
    (hp : Takes w l p Q) (hq : Takes w l q R) :
    Takes w l (if P then p else q) fun a ts next => (P ∧ Q a ts next) ∨ (¬P ∧ R a ts next) := by
  split
  · rename_i h
    exact hp.mono fun _ _ _ hQ => .inl ⟨h, hQ⟩
  · rename_i h
    exact hq.mono fun _ _ _ hR => .inr ⟨h, hR⟩

/-! ## Single steps -/

theorem need (room : Nat) : Takes w l (Grammar.need room) fun _ ts _ => ts = [] ∧ 4 ≤ room := by
  unfold Grammar.need
  split
  · exact .tooDeep _
  · rename_i h
    exact (Takes.pure ()).mono fun _ _ _ hts => ⟨hts.2, Nat.not_lt.mp h⟩

theorem current : Takes w l Grammar.current fun t ts next => ts = [] ∧ t = next := by
  refine (Takes.get.bind fun _ => .pure _).mono ?_
  rintro _ _ _ ⟨c, us, vs, rfl, ⟨rfl, hc, -⟩, rfl, rfl⟩
  exact ⟨rfl, hc⟩

theorem atEnd : Takes w l Grammar.atEnd fun b ts next => ts = [] ∧ b = next.isEnd := by
  refine (Takes.get.bind fun _ => .pure _).mono ?_
  rintro _ _ _ ⟨c, us, vs, rfl, ⟨rfl, hc, -⟩, rfl, rfl⟩
  exact ⟨rfl, congrArg Token.isEnd hc⟩

theorem check {kind : TokenKind} (hkind : kind ≠ .endOfInput) :
    Takes w l (Grammar.check kind) fun b ts next => ts = [] ∧ (b = true ↔ next.kind = kind) := by
  refine (Takes.get.bind fun _ => .pure _).mono ?_
  rintro _ _ next ⟨c, us, vs, rfl, ⟨rfl, hc, -⟩, rfl, rfl⟩
  rw [ahead_nil] at hc
  subst hc
  refine ⟨rfl, ?_⟩
  simp only [Bool.and_eq_true, Bool.not_eq_true', beq_iff_eq, and_iff_right_iff_imp]
  rintro rfl
  exact beq_false_of_ne hkind

theorem accept? (wanted : TokenKind → Bool) :
    Takes w l (Grammar.accept? wanted) fun o ts next =>
      (∃ t, o = some t ∧ ts = [t] ∧ wanted t.kind) ∨
        (o = none ∧ ts = [] ∧ (next.isEnd ∨ wanted next.kind = false)) := by
  intro c hc
  rw [accept?_apply]
  by_cases htaken : (!c.atEnd && wanted c.current.kind) = true
  · rw [if_pos htaken]
    obtain ⟨hend, hwanted⟩ : c.atEnd = false ∧ wanted c.current.kind := by simpa using htaken
    have hadvance : c.advance = { c with rest := c.rest.tail } := by
      rw [Cursor.advance, hend]
      rfl
    rw [hadvance]
    refine ⟨hc, [], (List.append_nil _).symm, fun _ => ⟨[c.current], ?_, ?_, fun _ => .inl ?_⟩⟩
    · -- a cursor without tokens is at its end
      rcases hrest : c.rest with - | ⟨t, rest⟩
      · simp [Cursor.atEnd, Cursor.current, hrest, Token.endAt, Token.isEnd] at hend
      · simp [Cursor.current, hrest]
    · rintro t ⟨⟩
      · exact hend
      · contradiction
    · exact ⟨c.current, rfl, rfl, hwanted⟩
  · rw [if_neg htaken]
    refine ⟨hc, [], (List.append_nil _).symm, fun _ =>
      ⟨[], rfl, nofun, fun _ => .inr ⟨rfl, rfl, ?_⟩⟩⟩
    by_cases hend : c.atEnd = true
    · exact .inl hend
    · exact .inr (by simpa [hend] using htaken)

theorem accept {kind : TokenKind} (hkind : kind ≠ .endOfInput) :
    Takes w l (Grammar.accept kind) fun b ts next =>
      (b = true ∧ ∃ t, ts = [t] ∧ t.kind = kind) ∨ (b = false ∧ ts = [] ∧ next.kind ≠ kind) := by
  refine ((Takes.accept? _).bind fun _ => .pure _).mono ?_
  rintro _ _ next ⟨o, us, vs, rfl, h, rfl, rfl⟩
  rcases h with ⟨t, rfl, rfl, ht⟩ | ⟨rfl, rfl, hnext⟩
  · exact .inl ⟨rfl, t, rfl, beq_iff_eq.mp ht⟩
  · refine .inr ⟨rfl, rfl, ?_⟩
    rintro rfl
    rcases hnext with hend | hnot
    · exact hkind (beq_iff_eq.mp hend)
    · exact absurd rfl (beq_eq_false_iff_ne.mp hnot)

theorem blame (t : Token) (f : Fault) : Takes w l (Grammar.blame t f) fun _ _ _ => False :=
  fun _ hc => ⟨hc, [_], rfl, fun h => by cases h⟩

theorem fail (f : Fault) (Q : α → List Token → Token → Prop) : Takes w l (Grammar.fail f) Q :=
  fun _ hc => ⟨hc, [_], rfl, fun _ h => by cases h⟩

theorem expect (kind : TokenKind) (what : String) :
    Takes w l (Grammar.expect kind what) fun t ts _ => ts = [t] ∧ t.kind = kind := by
  refine ((Takes.accept? _).bind (R := fun o t ts _ => o = some t ∧ ts = []) fun o => ?_).mono ?_
  · cases o with
    | none => exact .fail _ _
    | some t => exact (Takes.pure t).mono fun _ _ _ h => ⟨by rw [h.1], h.2⟩
  · rintro t _ next ⟨o, us, vs, rfl, h, rfl, rfl⟩
    rcases h with ⟨t', ht', rfl, hkind⟩ | ⟨hnone, -⟩
    · cases ht'
      exact ⟨rfl, beq_iff_eq.mp hkind⟩
    · cases hnone

/-- Two ways to go on, the one behind a token that is as wanted. -/
theorem onAccept? {wanted : TokenKind → Bool} {f : Option Token → Reader α}
    {Q : Token → α → List Token → Token → Prop} {R : α → List Token → Token → Prop}
    (hf : ∀ t, Takes w l (f (some t)) (Q t)) (hnone : Takes w l (f none) R) :
    Takes w l (Grammar.accept? wanted >>= f) fun a ts next =>
      (∃ t us, ts = t :: us ∧ wanted t.kind ∧ Q t a us next) ∨
        (((ahead ts next).isEnd ∨ wanted (ahead ts next).kind = false) ∧ R a ts next) := by
  have hboth : ∀ o, Takes w l (f o) fun a ts next =>
      (∃ t, o = some t ∧ Q t a ts next) ∨ (o = none ∧ R a ts next) := by
    rintro (_ | t)
    · exact hnone.mono fun _ _ _ h => .inr ⟨rfl, h⟩
    · exact (hf t).mono fun _ _ _ h => .inl ⟨t, rfl, h⟩
  refine ((Takes.accept? wanted).bind hboth).mono ?_
  rintro a _ next ⟨o, us, vs, rfl, haccept, hread⟩
  rcases haccept with ⟨t, rfl, rfl, ht⟩ | ⟨rfl, rfl, hnext⟩
  · rcases hread with ⟨_, ⟨⟩, hQ⟩ | ⟨hnone, -⟩
    · exact .inl ⟨t, vs, rfl, ht, hQ⟩
    · cases hnone
  · rcases hread with ⟨_, hsome, -⟩ | ⟨-, hR⟩
    · cases hsome
    · exact .inr ⟨hnext, hR⟩

theorem onAccept {kind : TokenKind} (hkind : kind ≠ .endOfInput) {p q : Reader α}
    {Q R : α → List Token → Token → Prop} (hp : Takes w l p Q) (hq : Takes w l q R) :
    Takes w l (do if ← Grammar.accept kind then p else q) fun a ts next =>
      (∃ t us, ts = t :: us ∧ t.kind = kind ∧ Q a us next) ∨
        ((ahead ts next).kind ≠ kind ∧ R a ts next) := by
  refine ((Takes.accept hkind).bind fun _ => .ite hp hq).mono ?_
  rintro a _ next ⟨b, us, vs, rfl, haccept, hread⟩
  rcases haccept with ⟨rfl, t, rfl, ht⟩ | ⟨rfl, rfl, hnext⟩
  · rcases hread with ⟨-, hQ⟩ | ⟨hnot, -⟩
    · exact .inl ⟨t, vs, rfl, ht, hQ⟩
    · exact absurd rfl hnot
  · rcases hread with ⟨hfalse, -⟩ | ⟨-, hR⟩
    · cases hfalse
    · exact .inr ⟨hnext, hR⟩

theorem behind? {kind : TokenKind} (hkind : kind ≠ .endOfInput) {p : Reader α}
    {Q : α → List Token → Token → Prop} (hp : Takes w l p Q) :
    Takes w l (Grammar.behind? kind p) fun o ts next =>
      (∃ t us a, ts = t :: us ∧ t.kind = kind ∧ o = some a ∧ Q a us next) ∨
        (o = none ∧ ts = [] ∧ next.kind ≠ kind) := by
  refine (Takes.onAccept hkind (hp.bind fun _ => .pure _) (.pure _)).mono ?_
  rintro _ _ next (⟨t, _, rfl, ht, a, us, vs, rfl, hQ, rfl, rfl⟩ | ⟨hnext, rfl, rfl⟩)
  · exact .inl ⟨t, us, a, by simp, ht, rfl, hQ⟩
  · exact .inr ⟨rfl, rfl, hnext⟩

theorem unless? {kind : TokenKind} (hkind : kind ≠ .endOfInput) {p : Reader α}
    {Q : α → List Token → Token → Prop} (hp : Takes w l p Q) :
    Takes w l (Grammar.unless? kind p) fun o ts next =>
      (o = none ∧ ts = []) ∨ ∃ a, o = some a ∧ Q a ts next := by
  refine ((Takes.check hkind).bind fun _ => .ite (.pure _) (hp.bind fun _ => .pure _)).mono ?_
  rintro _ _ next ⟨b, us, vs, rfl, ⟨rfl, -⟩, hread⟩
  rcases hread with ⟨-, rfl, rfl⟩ | ⟨-, a, us', vs', rfl, hQ, rfl, rfl⟩
  · exact .inl ⟨rfl, rfl⟩
  · exact .inr ⟨a, rfl, by simpa using hQ⟩

/-! ## Loops and recovery -/

theorem withLoops {count : Nat → Nat} {p : Reader α} {Q : α → List Token → Token → Prop}
    (hp : Takes w (count l) p Q) : Takes w l (Grammar.withLoops count p) Q := by
  intro c hc
  have h := hp { c with loops := count c.loops } (by rw [hc])
  unfold Grammar.withLoops
  cases hpc : p { c with loops := count c.loops } with
  | ok a d =>
    rw [hpc] at h
    exact ⟨hc, h.2⟩
  | error e d =>
    rw [hpc] at h
    exact ⟨hc, h.2⟩

/-- What comes to nothing has been recorded. -/
theorem orResume {p : Reader α} {Q : α → List Token → Token → Prop} (hp : Takes w l p Q) :
    Takes w l (Grammar.orResume p) fun o ts next => ∃ a, o = some a ∧ Q a ts next := by
  intro c hc
  have h := hp c hc
  unfold Grammar.orResume
  cases hpc : p c with
  | ok a d =>
    rw [hpc] at h
    obtain ⟨hl, ds, hds, htaken⟩ := h
    refine ⟨hl, ds, hds, fun hnil => ?_⟩
    obtain ⟨ts, hts, hend, hQ⟩ := htaken hnil
    exact ⟨ts, hts, hend, fun hlen => ⟨a, rfl, hQ hlen⟩⟩
  | error e d =>
    rw [hpc] at h
    obtain ⟨hl, ds, hds, hfault⟩ := h
    cases e with
    | fault => exact ⟨hl, ds, hds, fun hnil => absurd hnil (hfault rfl)⟩
    | tooDeep => exact ⟨hl, ds, hds, nofun⟩

theorem orGiveUp {p : Reader (Option α)} {Q : Option α → List Token → Token → Prop}
    (hp : Takes w l p Q) : Takes w l (Grammar.orGiveUp p) Q := by
  intro c hc
  have h := hp c hc
  unfold Grammar.orGiveUp
  cases hpc : p c with
  | ok a d =>
    rw [hpc] at h
    exact h
  | error e d =>
    rw [hpc] at h
    cases e with
    | fault => exact h
    | tooDeep =>
      obtain ⟨hl, ds, hds, -⟩ := h
      refine ⟨hl, ds ++ [.atToken d.current Fault.tooDeep.message], ?_, fun hnil => by simp at hnil⟩
      rw [← List.append_assoc, ← hds]
      rfl

/-! ## Lists -/

end Takes

/-- **Items with a comma between any two**, at least one. -/
inductive CommaList (P : α → List Token → Prop) : List α → List Token → Prop where
  | one {a : α} {ts : List Token} : P a ts → CommaList P [a] ts
  | more {a : α} {as : List α} {comma : Token} {ts us : List Token} :
    P a ts → comma.kind = .comma → CommaList P as us →
    CommaList P (a :: as) (ts ++ comma :: us)

theorem CommaList.imp {P Q : α → List Token → Prop} (hPQ : ∀ a ts, P a ts → Q a ts)
    {as : List α} {ts : List Token} (h : CommaList P as ts) : CommaList Q as ts := by
  induction h with
  | one ha => exact .one (hPQ _ _ ha)
  | more ha hcomma _ ih => exact .more (hPQ _ _ ha) hcomma ih

/-- Between any two items there is a token. -/
theorem CommaList.length_le {P : α → List Token → Prop} {as : List α} {ts : List Token}
    (h : CommaList P as ts) : as.length ≤ ts.length + 1 := by
  induction h with
  | one _ => exact Nat.le_add_left 1 _
  | more _ _ _ ih =>
    simp only [List.length_cons, List.length_append]
    omega

namespace Takes

/-- A comma list that is read to its end has no more items than the limit.  If it comes to its
bound, there is a token for each unit of it. -/
theorem commaList {what : String} {item : Reader α} {P : α → List Token → Prop}
    (hitem : Takes w l item fun a ts _ => P a ts) : ∀ (n : Nat) (done : List α),
      Takes w l (Grammar.commaList what item n done) fun as ts _ =>
        (∃ new, as = done.reverse ++ new ∧ CommaList P new ts ∧
          (done.length ≤ listLimit → as.length ≤ listLimit)) ∨ n ≤ ts.length := by
  intro n
  induction n with
  | zero => exact fun done => (Takes.pure _).mono fun _ _ _ _ => .inr (Nat.zero_le _)
  | succ n ih =>
    intro done
    have hrest : Takes w l (do
        let x ← item
        if ← Grammar.accept .comma then Grammar.commaList what item n (x :: done)
        else return (x :: done).reverse) fun as ts _ =>
          (∃ new, as = done.reverse ++ new ∧ CommaList P new ts ∧
            (done.length < listLimit → as.length ≤ listLimit)) ∨ n + 1 ≤ ts.length := by
      refine (hitem.bind fun x => (Takes.accept (by decide)).bind fun _ =>
        .ite (ih (x :: done)) (.pure _)).mono ?_
      rintro as _ next ⟨x, us, _, rfl, hx, more, vs, ws, rfl, hcomma, hmore⟩
      rcases hmore with ⟨rfl, hmore⟩ | ⟨hmore, rfl, rfl⟩
      · rcases hcomma with ⟨-, comma, rfl, hcomma⟩ | ⟨hfalse, -⟩
        · rcases hmore with ⟨new, has, hnew, hlen⟩ | hbound
          · refine .inl ⟨x :: new, by simp [has], by simpa using .more hx hcomma hnew, ?_⟩
            exact fun hdone => hlen hdone
          · exact .inr (by simp; omega)
        · cases hfalse
      · rcases hcomma with ⟨rfl, -⟩ | ⟨-, rfl, -⟩
        · exact absurd rfl hmore
        · exact .inl ⟨[x], by simp, by simpa using .one hx, fun hdone => by simp; omega⟩
    unfold Grammar.commaList
    split
    · refine (Takes.current.bind fun t => (Takes.blame t _).bind fun _ => hrest).mono ?_
      rintro _ _ _ ⟨_, _, _, -, -, _, _, _, -, hfalse, -⟩
      exact hfalse.elim
    · rename_i hlimit
      refine hrest.mono fun as ts next h => ?_
      rcases h with ⟨new, has, hnew, hlen⟩ | hbound
      · exact .inl ⟨new, has, hnew, fun _ => hlen (by omega)⟩
      · exact .inr hbound

end Takes

/-- **Items one after the other**, each of at least one token. -/
inductive Series (P : α → List Token → Prop) : List α → List Token → Prop where
  | nil : Series P [] []
  | cons {a : α} {as : List α} {ts us : List Token} :
    P a ts → ts ≠ [] → Series P as us → Series P (a :: as) (ts ++ us)

namespace Series

variable {P Q : α → List Token → Prop} {as : List α} {ts : List Token}

theorem imp (hPQ : ∀ a ts, P a ts → Q a ts) (h : Series P as ts) : Series Q as ts := by
  induction h with
  | nil => exact .nil
  | cons ha hne _ ih => exact .cons (hPQ _ _ ha) hne ih

/-- There is a token for each item. -/
theorem length_le (h : Series P as ts) : as.length ≤ ts.length := by
  induction h with
  | nil => exact Nat.le_refl 0
  | cons _ hne _ ih =>
    have hpos := List.length_pos_iff.mpr hne
    rw [List.length_cons, List.length_append]
    omega

end Series

namespace Takes

/-- Items up to a brace.  If there are as many as the bound, there is a token for each unit of
it. -/
theorem untilBrace {item : Reader (Option α)} {P : α → List Token → Prop}
    (hitem : Takes w l item fun o ts _ => ∃ a, o = some a ∧ P a ts ∧ ts ≠ []) :
    ∀ (n : Nat) (done : List α), Takes w l (Grammar.untilBrace item n done) fun as ts _ =>
      (∃ new, as = done.reverse ++ new ∧ Series P new ts) ∨ n ≤ ts.length := by
  intro n
  induction n with
  | zero => exact fun done => (Takes.pure _).mono fun _ _ _ _ => .inr (Nat.zero_le _)
  | succ n ih =>
    intro done
    unfold Grammar.untilBrace
    refine Takes.mono (.bind (.check (by decide)) fun _ => .bind .atEnd fun _ =>
      .ite (.pure _) (.bind (R := fun o as ts _ => ∀ a, o = some a →
        (∃ new, as = done.reverse ++ a :: new ∧ Series P new ts) ∨ n ≤ ts.length)
        hitem fun o => ?_)) ?_
    · cases o with
      | none => exact (ih done).mono fun _ _ _ _ => nofun
      | some a =>
        refine (ih (a :: done)).mono fun as ts _ h => ?_
        rintro _ ⟨⟩
        simpa using h
    · rintro as _ next ⟨b, us, _, rfl, ⟨rfl, -⟩, b', us', vs, rfl, ⟨rfl, -⟩, ⟨-, rfl, rfl⟩ |
        ⟨-, o, ts, us, rfl, ⟨a, rfl, ha, hne⟩, hread⟩⟩
      · exact .inl ⟨[], by simp, .nil⟩
      · rcases hread a rfl with ⟨new, rfl, hnew⟩ | hbound
        · exact .inl ⟨a :: new, rfl, by simpa using Series.cons ha hne hnew⟩
        · have hpos := List.length_pos_iff.mpr hne
          exact .inr (by simp only [List.length_append, List.length_nil]; omega)

/-! ## A whole token list -/

/-- What is consumed stands in front of the closing token. -/
theorem consumed_of_closing {ts us rest beyond : List Token} {z : Token}
    (h : ts ++ z :: beyond = us ++ rest) (hz : z.isEnd) (hus : ∀ t ∈ us, t.isEnd = false) :
    ∃ vs, ts = us ++ vs ∧ rest = vs ++ z :: beyond := by
  rcases List.append_eq_append_iff.mp h with ⟨vs, rfl, hvs⟩ | hvs
  · rcases vs with - | ⟨v, vs⟩
    · exact ⟨[], by simp, by simpa using hvs.symm⟩
    · have hzv : z = v := (List.cons.inj hvs).1
      have hv := hus v (by simp)
      rw [← hzv, hz] at hv
      cases hv
  · exact hvs

/-- What a step takes of a whole token list, if it comes to its end with nothing recorded. -/
theorem whole {p : Reader α} {Q : α → List Token → Prop} {ts beyond : List Token} {z : Token}
    {a : α} {d : Cursor} (hp : Takes w 0 p fun a ts next => Q a ts ∧ next.isEnd)
    (hlen : ts.length < w) (hz : z.isEnd) (hts : ∀ t ∈ ts, t.isEnd = false)
    (hrun : p { rest := ts ++ z :: beyond } = .ok a d) (hnil : d.diagnostics = []) : Q a ts := by
  have h := hp { rest := ts ++ z :: beyond } rfl
  rw [hrun] at h
  obtain ⟨-, ds, hds, htaken⟩ := h
  rw [hnil] at hds
  obtain ⟨us, hus, hend, hQ⟩ := htaken (List.append_eq_nil_iff.mp hds.symm).2
  obtain ⟨vs, rfl, hrest⟩ := consumed_of_closing hus hz hend
  rw [List.length_append] at hlen
  obtain ⟨hQ, hnext⟩ := hQ (by omega)
  rcases vs with - | ⟨v, vs⟩
  · rwa [List.append_nil]
  · have hv := hts v (by simp)
    rw [Cursor.current, hrest, List.cons_append, List.headD_cons, hv] at hnext
    cases hnext

end Takes
end Grammar
end LoxKit
