import Mathlib.Order.Bounds.Defs
import LoxKit.Proofs.Grammar.RuleAgreement

/-!
# Where a declaration that was cut off is left

A declaration that a syntax error cuts off comes to nothing, and reading resumes further on in the
list.  It should resume at the first statement boundary (`Boundary`) that is not in front of the
token at which the error was found.  It resumes at the first boundary behind that token
(`declaration_resumes`): the token is given up without being looked at, unless it closes the list.
So the two differ exactly if the token is itself a word that begins a statement, as the second
`print` of `print 1 print 2;` is; then the statement it begins is passed over as well.
-/
namespace LoxKit
namespace Grammar

variable {tokens : List Token} {p q : Nat} {t : Token}

/-- **A place to resume** after a fault at another: the list ends there, a statement begins
there, or one that ends behind the fault has just ended. -/
def Boundary (tokens : List Token) (p q : Nat) : Prop :=
  (∃ t, tokens[q]? = some t ∧ (t.isEnd ∨ t.kind.startsStatement)) ∨
    p < q ∧ ∃ t, tokens[q - 1]? = some t ∧ t.kind = .semicolon

theorem boundary_self_iff (ht : tokens[p]? = some t) :
    Boundary tokens p p ↔ t.isEnd ∨ t.kind.startsStatement := by
  unfold Boundary
  rw [ht]
  simp

/-- Behind a token, the first boundary is found. -/
theorem resumeBehind_least {previous : Token} {rest : List Token} (hpq : p < q)
    (hprevious : tokens[q - 1]? = some previous) (hrest : tokens.drop q = rest)
    (hclosing : ∃ t ∈ rest, t.isEnd) :
    ∃ r, resumeBehind previous rest = tokens.drop r ∧
      IsLeast {k | q ≤ k ∧ Boundary tokens p k} r := by
  induction rest generalizing previous q with
  | nil =>
    obtain ⟨t, ht, -⟩ := hclosing
    cases ht
  | cons t rest ih =>
    have ht : tokens[q]? = some t := by
      rw [← List.head?_drop, hrest]
      rfl
    by_cases hhere : (t.isEnd || previous.kind == .semicolon || t.kind.startsStatement) = true
    · refine ⟨q, ?_, ⟨Nat.le_refl q, ?_⟩, fun k hk => hk.1⟩
      · rw [resumeBehind, if_pos hhere, hrest]
      · rw [Bool.or_eq_true, Bool.or_eq_true, beq_iff_eq] at hhere
        rcases hhere with (hend | hsemicolon) | hstarts
        · exact .inl ⟨t, ht, .inl hend⟩
        · exact .inr ⟨hpq, previous, hprevious, hsemicolon⟩
        · exact .inl ⟨t, ht, .inr hstarts⟩
    · have hnot : ¬Boundary tokens p q := by
        rintro (⟨_, hsome, hends⟩ | ⟨-, _, hsome, hsemicolon⟩)
        · rw [ht] at hsome
          cases hsome
          rcases hends with hend | hstarts
          · exact hhere (by rw [hend]; rfl)
          · exact hhere (by rw [hstarts, Bool.or_true])
        · rw [hprevious] at hsome
          cases hsome
          exact hhere (by simp [hsemicolon])
      -- a closing token would be a boundary, so the one ahead is further on
      have hmore : ∃ u ∈ rest, u.isEnd := by
        obtain ⟨u, hu, huend⟩ := hclosing
        rcases List.mem_cons.mp hu with rfl | hu
        · exact absurd (by rw [huend]; rfl) hhere
        · exact ⟨u, hu, huend⟩
      have hdrop : tokens.drop (q + 1) = rest := by
        rw [← List.tail_drop, hrest]
        rfl
      obtain ⟨r, hr, ⟨hle, hboundary⟩, hleast⟩ := ih (Nat.lt_succ_of_lt hpq) ht hdrop hmore
      refine ⟨r, ?_, ⟨Nat.le_of_succ_le hle, hboundary⟩, ?_⟩
      · rw [resumeBehind, if_neg hhere, hr]
      · rintro k ⟨hk, hat⟩
        apply hleast
        refine ⟨Nat.lt_of_le_of_ne hk ?_, hat⟩
        rintro rfl
        exact hnot hat

/-- **Reading resumes at the first boundary behind the token at which it was cut off**, or where
it is if that token closes the list. -/
theorem resume_least (ht : tokens[p]? = some t) (hclosing : ∃ u ∈ tokens.drop p, u.isEnd) :
    ∃ q, resume (tokens.drop p) = tokens.drop q ∧
      IsLeast {k | (p < k ∨ p = k ∧ t.isEnd) ∧ Boundary tokens p k} q := by
  have hdrop : tokens.drop p = t :: tokens.drop (p + 1) := by
    obtain ⟨hp, rfl⟩ := List.getElem?_eq_some_iff.mp ht
    exact List.drop_eq_getElem_cons hp
  by_cases hend : t.isEnd = true
  · refine ⟨p, ?_, ⟨.inr ⟨rfl, hend⟩, (boundary_self_iff ht).mpr (.inl hend)⟩, ?_⟩
    · rw [hdrop, resume, if_pos hend]
    · rintro k ⟨hlt | ⟨rfl, -⟩, -⟩
      · exact Nat.le_of_lt hlt
      · exact Nat.le_refl _
  · have hmore : ∃ u ∈ tokens.drop (p + 1), u.isEnd := by
      obtain ⟨u, hu, huend⟩ := hclosing
      rw [hdrop] at hu
      rcases List.mem_cons.mp hu with rfl | hu
      · exact absurd huend hend
      · exact ⟨u, hu, huend⟩
    obtain ⟨q, hq, ⟨hle, hboundary⟩, hleast⟩ :=
      resumeBehind_least (Nat.lt_succ_self p) ht rfl hmore
    refine ⟨q, ?_, ⟨.inl hle, hboundary⟩, ?_⟩
    · rw [hdrop, resume, if_neg hend, hq]
    · rintro k ⟨hlt | ⟨-, hclosed⟩, hat⟩
      · exact hleast ⟨hlt, hat⟩
      · exact absurd hclosed hend

/-- The first boundary behind a token is the first that is not in front of it, unless the token
begins a statement. -/
theorem least_boundary_iff (ht : tokens[p]? = some t)
    (hq : IsLeast {k | (p < k ∨ p = k ∧ t.isEnd) ∧ Boundary tokens p k} q) :
    IsLeast {k | p ≤ k ∧ Boundary tokens p k} q ↔ t.kind.startsStatement = false := by
  obtain ⟨⟨hbehind, hboundary⟩, hleast⟩ := hq
  constructor
  · intro h
    refine Bool.eq_false_iff.mpr fun hstarts => ?_
    have hle : q ≤ p := h.2 ⟨Nat.le_refl p, (boundary_self_iff ht).mpr (.inr hstarts)⟩
    rcases hbehind with hlt | ⟨-, hend⟩
    · exact absurd hlt (Nat.not_lt.mpr hle)
    · rw [beq_iff_eq.mp hend] at hstarts
      cases hstarts
  · intro hnot
    refine ⟨⟨?_, hboundary⟩, ?_⟩
    · rcases hbehind with hlt | ⟨rfl, -⟩
      · exact Nat.le_of_lt hlt
      · exact Nat.le_refl _
    · rintro k ⟨hle, hat⟩
      apply hleast
      refine ⟨?_, hat⟩
      rcases Nat.lt_or_eq_of_le hle with hlt | rfl
      · exact .inl hlt
      · rcases (boundary_self_iff ht).mp hat with hend | hstarts
        · exact .inr ⟨rfl, hend⟩
        · rw [hnot] at hstarts
          cases hstarts

/-! ## A declaration that is cut off -/

/-- **A fault has cut reading off at a position.**  It has been recorded at the token there, behind
what was found wrong before. -/
structure CutOff (tokens : List Token) (c e : Cursor) (p : Nat) (t : Token) : Prop where
  rest : e.rest = tokens.drop p
  ahead : tokens[p]? = some t
  reported : ∃ ds what,
    e.diagnostics = c.diagnostics ++ ds ++ [.atToken t (Fault.expected what).message]
  loops : e.loops = c.loops

/-- What comes to nothing has been cut off by a fault. -/
theorem orResume_none {α : Type} {read : Reader α} {c d : Cursor}
    (h : orResume read c = .ok none d) : ∃ e, read c = .error .fault e ∧ d = e.recover := by
  unfold orResume at h
  cases hread : read c with
  | ok a d' =>
    rw [hread] at h
    cases h
  | error halt e =>
    rw [hread] at h
    cases halt with
    | fault =>
      cases h
      exact ⟨e, rfl, rfl⟩
    | tooDeep => cases h

/-- A fault in a declaration is found at a token that is not in front of it and not behind the
closing one. -/
theorem declared_cutOff {width room i : Nat} {ts beyond : List Token} {z : Token} {c e : Cursor}
    (hz : z.isEnd) (hts : ∀ t ∈ ts, t.isEnd = false) (hwidth : ts.length < width)
    (hi : i ≤ ts.length) (hc : c.rest = (ts ++ z :: beyond).drop i)
    (h : declared width room c = .error .fault e) :
    ∃ p t, i ≤ p ∧ p ≤ ts.length ∧ CutOff (ts ++ z :: beyond) c e p t := by
  let S := Sides.closing hz beyond beyond c.diagnostics c.diagnostics
  have hleft : S.left (ts.drop i) c.loops [] = c := by
    unfold Sides.left
    rw [List.append_nil, show S.stop :: S.beyond = z :: beyond from rfl,
      ← List.drop_append_of_le_length hi, ← hc]
    rfl
  have hinside : S.Inside (ts.drop i) :=
    Sides.closing_inside fun t ht => hts t (List.mem_of_mem_drop ht)
  obtain ⟨vs, ds, ⟨us, hus⟩, hread⟩ := Sides.declaredAgrees (S := S) hz hwidth hwidth room
    (ts.drop i).length (by rw [List.length_drop]; omega) (ts.drop i) c.loops [] hinside rfl
  rw [hleft, h] at hread
  obtain ⟨_, ⟨⟩, -⟩ | ⟨_, ⟨rfl, rfl⟩, -, what, ds₀, rfl⟩ := hread
  -- the position is that of what is left
  have hvs : ts.drop (i + us.length) = vs := by
    rw [← List.drop_drop, ← hus, List.drop_left]
  have hp : i + us.length ≤ ts.length := by
    have hlen := congrArg List.length hus
    rw [List.length_append, List.length_drop] at hlen
    omega
  have hdrop : (ts ++ z :: beyond).drop (i + us.length) = vs ++ z :: beyond := by
    rw [List.drop_append_of_le_length hp, hvs]
  refine ⟨i + us.length, ahead vs z, Nat.le_add_right _ _, hp, hdrop.symm, ?_, ?_, rfl⟩
  · rw [← List.head?_drop, hdrop]
    cases vs <;> rfl
  · exact ⟨ds₀, what, (List.append_assoc _ _ _).symm⟩

/-- **Where a declaration that was cut off is left.**  Reading resumes at the first boundary
behind the token at which the fault was found.  That is the first boundary that is not in front of
the token exactly if the token begins no statement. -/
theorem declaration_resumes {width room i : Nat} {ts beyond : List Token} {z : Token}
    {c d : Cursor} (hz : z.isEnd) (hts : ∀ t ∈ ts, t.isEnd = false) (hwidth : ts.length < width)
    (hi : i ≤ ts.length) (hc : c.rest = (ts ++ z :: beyond).drop i)
    (hcaught : declaration width room c = .ok none d) :
    ∃ r e p q t, room = r + 5 ∧ declared width r c = .error .fault e ∧ i ≤ p ∧
      CutOff (ts ++ z :: beyond) c e p t ∧ d = { e with rest := (ts ++ z :: beyond).drop q } ∧
      IsLeast {k | (p < k ∨ p = k ∧ t.isEnd) ∧ Boundary (ts ++ z :: beyond) p k} q ∧
      (IsLeast {k | p ≤ k ∧ Boundary (ts ++ z :: beyond) p k} q ↔
        t.kind.startsStatement = false) := by
  obtain ⟨r, rfl⟩ : ∃ r, room = r + 5 := by
    match room with
    | 0 | 1 | 2 | 3 | 4 => cases hcaught
    | r + 5 => exact ⟨r, rfl⟩
  rw [declaration_eq] at hcaught
  obtain ⟨e, he, rfl⟩ := orResume_none hcaught
  obtain ⟨p, t, hip, hp, hcut⟩ := declared_cutOff hz hts hwidth hi hc he
  have hclosing : ∃ u ∈ (ts ++ z :: beyond).drop p, u.isEnd := by
    rw [List.drop_append_of_le_length hp]
    exact ⟨z, List.mem_append_right _ List.mem_cons_self, hz⟩
  obtain ⟨q, hq, hleast⟩ := resume_least hcut.ahead hclosing
  refine ⟨r, e, p, q, t, rfl, he, hip, hcut, ?_, hleast, least_boundary_iff hcut.ahead hleast⟩
  unfold Cursor.recover
  rw [hcut.rest, hq]

/-- The tokens of `print 1 print 2;`, up to the closing one. -/
def unendedPrint : List Token :=
  [⟨.printWord, "print", 1⟩, ⟨.number, "1", 1⟩, ⟨.printWord, "print", 1⟩, ⟨.number, "2", 1⟩,
    ⟨.semicolon, ";", 1⟩]

/-- The second `print` is where the fault is found, and the statement it begins is lost: reading
resumes at the end of the list. -/
theorem declaration_resumes_of_unendedPrint :
    ∃ e d, declaration 6 40 { rest := unendedPrint ++ [.endAt 1] } = .ok none d ∧
      CutOff (unendedPrint ++ [.endAt 1]) { rest := unendedPrint ++ [.endAt 1] } e 2
        ⟨.printWord, "print", 1⟩ ∧
      d = { e with rest := [.endAt 1] } ∧
      ¬IsLeast {k | 2 ≤ k ∧ Boundary (unendedPrint ++ [.endAt 1]) 2 k} 5 := by
  let tokens := unendedPrint ++ [.endAt 1]
  let found : Diagnostic := .atToken ⟨.printWord, "print", 1⟩ "Expect ';' after value."
  have hfault : declared 6 35 { rest := tokens } =
      .error .fault { rest := tokens.drop 2, diagnostics := [found] } := by rfl
  have hcaught : declaration 6 40 { rest := tokens } =
      .ok none { rest := [.endAt 1], diagnostics := [found] } := by rfl
  have hts : ∀ t ∈ unendedPrint, t.isEnd = false := by decide
  have hstart : tokens = (unendedPrint ++ Token.endAt 1 :: []).drop 0 := rfl
  obtain ⟨r, e, p, q, t, hr, he, -, hcut, hd, -, hiff⟩ :=
    declaration_resumes rfl hts (by decide) (Nat.zero_le _) hstart hcaught
  obtain rfl : r = 35 := by omega
  rw [hfault] at he
  cases he
  obtain rfl : p = 2 := by
    have hlen : 4 = 6 - p := (congrArg List.length hcut.rest).trans List.length_drop
    omega
  obtain rfl : q = 5 := by
    have hlen : 1 = 6 - q :=
      (congrArg (fun d : Cursor => d.rest.length) hd).trans List.length_drop
    omega
  obtain rfl : ⟨.printWord, "print", 1⟩ = t := Option.some.inj hcut.ahead
  exact ⟨_, _, hcaught, hcut, rfl, fun hleast => absurd (hiff.mp hleast) (by decide)⟩

end Grammar
end LoxKit
