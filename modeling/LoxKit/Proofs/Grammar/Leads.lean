import LoxKit.Proofs.Grammar.Takes

/-!
# Where reading leads

Reading behind some tokens goes on as another reader does there (`Leads`), if the token ahead
is as it should be.  A reader that yields something behind the tokens is led to `pure`.
-/
namespace LoxKit
namespace Grammar

variable {α β : Type} {l : Nat} {ts us : List Token} {P Q : Token → Prop}

/-- **Reading leads over some tokens to another reader**, if the token ahead behind them is as
it should be, inside `l` loops and whatever has been recorded. -/
def Leads (l : Nat) (p : Reader α) (ts : List Token) (q : Reader α) (P : Token → Prop) : Prop :=
  ∀ rest ds, P (ahead rest (.endAt 0)) →
    p { rest := ts ++ rest, loops := l, diagnostics := ds } =
      q { rest := rest, loops := l, diagnostics := ds }

namespace Leads

variable {p q r : Reader α} {f : α → Reader β} {a : α}

theorem refl (p : Reader α) (P : Token → Prop) : Leads l p [] p P :=
  fun _ _ _ => rfl

theorem weaken (h : Leads l p ts q P) (hPQ : ∀ next, Q next → P next) : Leads l p ts q Q :=
  fun rest ds hQ => h rest ds (hPQ _ hQ)

theorem trans (h : Leads l p ts q P) (h' : Leads l q us r Q)
    (hQP : ∀ next, Q next → P (ahead us next)) : Leads l p (ts ++ us) r Q := by
  intro rest ds hQ
  rw [List.append_assoc, h _ ds, h' rest ds hQ]
  rw [ahead_append]
  exact hQP _ hQ

/-- Behind a step that yields something, reading goes on with it. -/
theorem step (h : Leads l p ts (Pure.pure a) P) : Leads l (p >>= f) ts (f a) P :=
  fun rest ds hP => bind_ok (h rest ds hP)

theorem bind {q : Reader β} (h : Leads l p ts (Pure.pure a) P) (h' : Leads l (f a) us q Q)
    (hQP : ∀ next, Q next → P (ahead us next)) : Leads l (p >>= f) (ts ++ us) q Q :=
  h.step.trans h' hQP

/-- Behind a step that does not move, reading goes on with what it yields. -/
theorem stay {q : Reader β} (h : Leads l p [] (Pure.pure a) P) (h' : Leads l (f a) us q Q)
    (hQP : ∀ next, Q next → P (ahead us next)) : Leads l (p >>= f) us q Q :=
  h.bind h' hQP

/-- Behind the last step that moves, reading goes on where it is. -/
theorem last {q : Reader β} (h : Leads l p ts (Pure.pure a) P) (h' : Leads l (f a) [] q Q)
    (hQP : ∀ next, Q next → P next) : Leads l (p >>= f) ts q Q := by
  have hboth := h.bind h' hQP
  rwa [List.append_nil] at hboth

/-! ## Single steps -/

theorem need {room : Nat} {f : Unit → Reader β} {q : Reader β} (hroom : lookRoom ≤ room)
    (h : Leads l (f ()) ts q P) : Leads l (Grammar.need room >>= f) ts q P := by
  intro rest ds hP
  rw [bind_ok (need_ok hroom _)]
  exact h rest ds hP

variable {wanted : TokenKind → Bool} {t : Token} {kind : TokenKind}

/-- Behind a token as wanted reading goes on with it. -/
theorem accept? {f : Option Token → Reader β} {q : Reader β} (hend : wanted .endOfInput = false)
    (ht : wanted t.kind) (h : Leads l (f (some t)) ts q P) :
    Leads l (Grammar.accept? wanted >>= f) (t :: ts) q P := by
  intro rest ds hP
  have hclosing : t.isEnd = false := by
    refine beq_eq_false_iff_ne.mpr fun hkind => ?_
    rw [hkind, hend] at ht
    cases ht
  let c : Cursor := { rest := t :: (ts ++ rest), loops := l, diagnostics := ds }
  have hadvance : c.advance = { rest := ts ++ rest, loops := l, diagnostics := ds } :=
    if_neg (by rw [show c.atEnd = false from hclosing]; exact Bool.false_ne_true)
  have haccept : Grammar.accept? wanted c = .ok (some t) c.advance := accept?_some hclosing ht
  rw [hadvance] at haccept
  show (Grammar.accept? wanted >>= f) c = _
  rw [bind_ok haccept]
  exact h rest ds hP

/-- In front of another token reading goes on without it. -/
theorem decline? {f : Option Token → Reader β} {q : Reader β}
    (hP : ∀ next, P next → wanted (ahead ts next).kind = false) (h : Leads l (f none) ts q P) :
    Leads l (Grammar.accept? wanted >>= f) ts q P := by
  intro rest ds hnext
  have hnot : wanted (ahead (ts ++ rest) (.endAt 0)).kind = false := by
    rw [ahead_append]
    exact hP _ hnext
  rw [bind_ok (accept?_none hnot)]
  exact h rest ds hnext

theorem accept (ht : t.kind = kind) (hend : kind ≠ .endOfInput) (h : Leads l p ts q P) :
    Leads l (do if ← Grammar.accept kind then p else r) (t :: ts) q P := by
  have hrun : Leads l (Grammar.accept? (· == kind) >>= fun o => if o.isSome then p else r)
      (t :: ts) q P := accept? (beq_false_of_ne hend.symm) (beq_iff_eq.mpr ht) h
  simpa [Grammar.accept] using hrun

theorem decline (hP : ∀ next, P next → (ahead ts next).kind ≠ kind) (h : Leads l r ts q P) :
    Leads l (do if ← Grammar.accept kind then p else r) ts q P := by
  have hrun : Leads l (Grammar.accept? (· == kind) >>= fun o => if o.isSome then p else r)
      ts q P := decline? (fun next hnext => beq_false_of_ne (hP next hnext)) h
  simpa [Grammar.accept] using hrun

theorem expect {what : String} {f : Token → Reader β} {q : Reader β} (ht : t.kind = kind)
    (hend : kind ≠ .endOfInput) (h : Leads l (f t) ts q P) :
    Leads l (Grammar.expect kind what >>= f) (t :: ts) q P := by
  rw [Grammar.expect, bind_assoc]
  exact accept? (beq_false_of_ne hend.symm) (beq_iff_eq.mpr ht) h

theorem check {P : Token → Prop} (hend : kind ≠ .endOfInput) {b : Bool}
    (hP : ∀ next, P next → (next.kind == kind) = b) :
    Leads l (Grammar.check kind) [] (Pure.pure b) P := by
  intro rest ds hnext
  have hb := hP _ hnext
  refine congrArg (EStateM.Result.ok · _) ?_
  show (!(ahead rest (.endAt 0)).isEnd && (ahead rest (.endAt 0)).kind == kind) = b
  rw [hb]
  cases b with
  | false => exact Bool.and_false _
  | true =>
    rw [Token.isEnd, beq_iff_eq.mp hb, beq_false_of_ne hend]
    rfl

/-- Whether there is anything left can be told from the token ahead. -/
theorem atEnd (b : Bool) : Leads l Grammar.atEnd [] (Pure.pure b) fun next => next.isEnd = b := by
  intro rest ds hnext
  exact congrArg (EStateM.Result.ok · _) hnext

/-- In front of the token something optional is left out. -/
theorem unlessNone (hend : kind ≠ .endOfInput) :
    Leads l (Grammar.unless? kind p) [] (Pure.pure none) fun next => next.kind = kind :=
  (check hend fun _ hnext => beq_iff_eq.mpr hnext).step

theorem unlessSome (hend : kind ≠ .endOfInput) (h : Leads l p ts (Pure.pure a) P)
    (hP : ∀ next, P next → (ahead ts next).kind ≠ kind) :
    Leads l (Grammar.unless? kind p) ts (Pure.pure (some a)) P := by
  have hcheck : Leads l (Grammar.check kind) [] (Pure.pure false) fun next => next.kind ≠ kind :=
    check hend fun _ hnext => beq_false_of_ne hnext
  exact hcheck.bind h.step hP

/-! ## Loops and recovery -/

theorem get {f : Cursor → Reader β} {q : Reader β}
    (h : ∀ c : Cursor, c.loops = l → Leads l (f c) ts q P) :
    Leads l (MonadState.get >>= f) ts q P :=
  fun rest ds hP => h { rest := ts ++ rest, loops := l, diagnostics := ds } rfl rest ds hP

theorem withLoops {count : Nat → Nat} (h : Leads (count l) p ts (Pure.pure a) P) :
    Leads l (Grammar.withLoops count p) ts (Pure.pure a) P := by
  intro rest ds hP
  have hrun := h rest ds hP
  unfold Grammar.withLoops
  dsimp only
  rw [hrun]
  rfl

theorem orResume (h : Leads l p ts (Pure.pure a) P) :
    Leads l (Grammar.orResume p) ts (Pure.pure (some a)) P := by
  intro rest ds hP
  unfold Grammar.orResume
  rw [h rest ds hP]
  rfl

theorem orGiveUp {p : Reader (Option α)} {a : Option α} (h : Leads l p ts (Pure.pure a) P) :
    Leads l (Grammar.orGiveUp p) ts (Pure.pure a) P := by
  intro rest ds hP
  unfold Grammar.orGiveUp
  rw [h rest ds hP]
  rfl

/-- Behind its token something optional is read. -/
theorem behindSome (ht : t.kind = kind) (hend : kind ≠ .endOfInput)
    (h : Leads l p ts (Pure.pure a) P) :
    Leads l (Grammar.behind? kind p) (t :: ts) (Pure.pure (some a)) P :=
  .accept ht hend h.step

/-- In front of another token something optional is left out. -/
theorem behindNone : Leads l (Grammar.behind? kind p) [] (Pure.pure none) fun next =>
    next.kind ≠ kind :=
  .decline (fun _ hnext => hnext) (.refl _ _)

/-! ## Lists -/

/-- A comma list is read in front of a token that is no comma. -/
theorem commaList {what : String} {as : List α} (hcomma : ∀ t : Token, t.kind = .comma → Q t)
    (hP : ∀ t, P t → Q t ∧ t.kind ≠ .comma)
    (h : CommaList (fun a ts => Leads l p ts (Pure.pure a) Q) as ts) :
    ∀ n done, as.length ≤ n → done.length + as.length ≤ listLimit →
      Leads l (Grammar.commaList what p n done) ts (Pure.pure (done.reverse ++ as)) P := by
  induction h with
  | one ha =>
    intro n done hn hlimit
    obtain ⟨n, rfl⟩ : ∃ m, n = m + 1 := ⟨n - 1, (Nat.sub_add_cancel hn).symm⟩
    have hbelow : ¬listLimit ≤ done.length := Nat.not_le.mpr hlimit
    unfold Grammar.commaList
    rw [if_neg hbelow, ← List.reverse_cons]
    exact .last ha (.decline (fun next hnext => (hP next hnext).2) (.refl _ _))
      fun next hnext => (hP next hnext).1
  | @more a as comma ts us ha hkind _ ih =>
    intro n done hn hlimit
    rw [List.length_cons] at hn hlimit
    obtain ⟨n, rfl⟩ : ∃ m, n = m + 1 := ⟨n - 1, by omega⟩
    have hread := ih n (a :: done) (by omega) (by rw [List.length_cons]; omega)
    rw [List.reverse_cons, List.append_assoc, List.singleton_append] at hread
    have hbelow : ¬listLimit ≤ done.length := by omega
    unfold Grammar.commaList
    rw [if_neg hbelow]
    exact .bind ha (.accept hkind (by decide) hread) fun _ _ => hcomma comma hkind

/-- A repetition of items goes on in front of what an item begins with. -/
theorem untilBrace {item : Reader (Option α)} {as : List α}
    (hQ : ∀ t, Q t → P t ∧ t.kind ≠ .rightBrace ∧ t.isEnd = false)
    (hP : ∀ t : Token, t.kind = .rightBrace → P t)
    (h : Series (fun a ts => Leads l item ts (Pure.pure (some a)) P ∧ ∀ z, Q (ahead ts z)) as ts) :
    ∀ n done, as.length ≤ n →
      Leads l (Grammar.untilBrace item n done) ts (Pure.pure (done.reverse ++ as))
        fun next => next.kind = .rightBrace := by
  induction h with
  | nil =>
    intro n done _
    rw [List.append_nil]
    cases n with
    | zero => exact .refl _ _
    | succ n =>
      have hend (next : Token) (hnext : next.kind = .rightBrace) : next.isEnd = false := by
        rw [Token.isEnd, hnext]
        rfl
      unfold Grammar.untilBrace
      exact .stay (.check (b := true) (by decide) fun _ hnext => beq_iff_eq.mpr hnext)
        (.stay (.atEnd false) (.refl _ _) hend) fun _ hnext => hnext
  | @cons a as ts us ha hne hrest ih =>
    intro n done hn
    obtain ⟨n, rfl⟩ : ∃ m, n = m + 1 := ⟨n - 1, (Nat.sub_add_cancel (Nat.zero_lt_of_lt hn)).symm⟩
    have hread := ih n (a :: done) (Nat.le_of_succ_le_succ hn)
    rw [List.reverse_cons, List.append_assoc, List.singleton_append] at hread
    have hhead (next : Token) : Q (ahead (ts ++ us) next) := by
      rw [ahead_append]
      exact ha.2 _
    have hnext (next : Token) (hbrace : next.kind = .rightBrace) : P (ahead us next) := by
      cases hrest with
      | nil => exact hP next hbrace
      | cons hb =>
        rw [ahead_append]
        exact (hQ _ (hb.2 _)).1
    unfold Grammar.untilBrace
    refine .stay (.check (b := false) (by decide) fun _ hnot => beq_false_of_ne hnot)
      (.stay (.atEnd false) (.bind ha.1 hread hnext) fun next _ => ?_) fun next _ => ?_
    · exact (hQ _ (hhead next)).2.2
    · exact (hQ _ (hhead next)).2.1

end Leads
end Grammar
end LoxKit
