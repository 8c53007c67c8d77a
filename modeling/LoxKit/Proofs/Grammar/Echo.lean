import LoxKit.Proofs.Grammar.Steps

/-!
# Reading an expression in front of a semicolon

An expression that is read up to the end of a token list is read in the same way in front of a
semicolon, with as much as is passed over on the way, if there is room for it (`Echoes`).  The
room that the rules for expressions need grows with the number of tokens: between two tokens
no rule nests deeper than by `nestingRoom`.
-/
namespace LoxKit

/-- **A fault that reading an expression passes over.** -/
def Diagnostic.PassedOver (x : Diagnostic) : Prop :=
  x.runtime = false ∧ (x.message = Grammar.Fault.invalidTarget.message ∨
    x.message = (Grammar.Fault.tooMany "arguments").message)

namespace Grammar

variable {α β : Type} {n : Nat}

/-- A fault of the sort that reading an expression passes over. -/
def Fault.PassedOver (f : Fault) : Prop := f = .invalidTarget ∨ f = .tooMany "arguments"

theorem Fault.PassedOver.atToken {f : Fault} (h : f.PassedOver) (t : Token) :
    (Diagnostic.atToken t f.message).PassedOver := by
  rcases h with rfl | rfl
  · exact ⟨rfl, .inl rfl⟩
  · exact ⟨rfl, .inr rfl⟩

/-! ## Steps that echo each other -/

/-- **Two cursors in front of the same tokens**, at most so many.  Behind them the one is at the
end of its list, and the other in front of a semicolon and the end. -/
structure Alike (n : Nat) (c d : Cursor) : Prop where
  tokens : ∃ (ts : List Token) (z s z' : Token), z.isEnd ∧ s.kind = .semicolon ∧ z'.isEnd ∧
    (∀ t ∈ ts, t.isEnd = false) ∧ ts.length ≤ n ∧ c.rest = ts ++ [z] ∧ d.rest = ts ++ [s, z']
  diagnostics : d.diagnostics = c.diagnostics
  passed : ∀ x ∈ c.diagnostics, x.PassedOver

/-- **A step of reading echoes another**: it yields whatever the other yields. -/
def Echoes (n : Nat) (p q : Reader α) (Q : α → Nat → Prop) : Prop :=
  ∀ c d, Alike n c d → ∀ a c', p c = .ok a c' →
    ∃ d' m, q d = .ok a d' ∧ Alike m c' d' ∧ Q a m

namespace Echoes

theorem mono {p q : Reader α} {Q R : α → Nat → Prop} (h : Echoes n p q Q)
    (hQR : ∀ a m, Q a m → R a m) : Echoes n p q R := by
  intro c d hcd a c' hp
  obtain ⟨d', m, hq, hcd', hQ⟩ := h c d hcd a c' hp
  exact ⟨d', m, hq, hcd', hQR a m hQ⟩

theorem bind {p q : Reader α} {f g : α → Reader β} {Q : α → Nat → Prop} {R : β → Nat → Prop}
    (hp : Echoes n p q Q) (hf : ∀ a m, Q a m → Echoes m (f a) (g a) R) :
    Echoes n (p >>= f) (q >>= g) R := by
  intro c d hcd b c'' h
  simp only [Bind.bind, EStateM.bind] at h ⊢
  cases hpc : p c with
  | error e c' =>
    rw [hpc] at h
    cases h
  | ok a c' =>
    rw [hpc] at h
    obtain ⟨d', m, hq, hcd', hQ⟩ := hp c d hcd a c' hpc
    rw [hq]
    exact hf a m hQ c' d' hcd' b c'' h

theorem pure {a : α} {Q : α → Nat → Prop} (h : Q a n) :
    Echoes n (Pure.pure a) (Pure.pure a) Q := by
  rintro c d hcd _ _ ⟨rfl, rfl⟩
  exact ⟨d, n, rfl, hcd, h⟩

/-- What yields nothing is echoed by anything. -/
theorem throw (e : Halt) (q : Reader α) (Q : α → Nat → Prop) :
    Echoes n (MonadExcept.throw e) q Q := by
  intro c d _ a c' h
  cases h

theorem fail (f : Fault) (q : Reader α) (Q : α → Nat → Prop) :
    Echoes n (Grammar.fail f) q Q := by
  intro c d _ a c' h
  cases h

/-- The echo has room to look at a token. -/
theorem need (room : Nat) {room' : Nat} (h : lookRoom ≤ room') :
    Echoes n (Grammar.need room) (Grammar.need room') fun _ m => m = n := by
  intro c d hcd a c' hp
  have hneed : Grammar.need room' = Pure.pure () := by
    unfold Grammar.need
    rw [if_neg (Nat.not_lt.mpr h)]
  unfold Grammar.need at hp
  split at hp
  · cases hp
  · cases hp
    exact ⟨d, n, by rw [hneed]; rfl, hcd, rfl⟩

theorem ite {P : Prop} [Decidable P] {p p' q q' : Reader α} {Q : α → Nat → Prop}
    (hp : P → Echoes n p q Q) (hq : ¬P → Echoes n p' q' Q) :
    Echoes n (if P then p else p') (if P then q else q') Q := by
  split
  · exact hp ‹_›
  · exact hq ‹_›

end Echoes
/-! ## Single steps -/

/-- Two alike cursors are both in front of the same token, or the one is at its end and the
other in front of the semicolon. -/
theorem Alike.current {c d : Cursor} (h : Alike n c d) :
    (c.atEnd = true ∧ d.atEnd = false ∧ d.current.kind = .semicolon) ∨
      (c.atEnd = false ∧ d.atEnd = false ∧ d.current = c.current ∧
        ∃ m < n, Alike m c.advance d.advance) := by
  obtain ⟨⟨ts, z, s, z', hz, hs, hz', hts, hlen, hc, hd⟩, hdiag, hpassed⟩ := h
  rcases ts with - | ⟨t, ts⟩
  · have hsemicolon : d.current = s := by simp [Cursor.current, hd]
    refine .inl ⟨?_, ?_, ?_⟩
    · simpa [Cursor.atEnd, Cursor.current, hc] using hz
    · rw [Cursor.atEnd, hsemicolon, Token.isEnd, hs]
      rfl
    · rw [hsemicolon, hs]
  · have ht := hts t List.mem_cons_self
    have hcurrent : c.current = t := by simp [Cursor.current, hc]
    have hcurrent' : d.current = t := by simp [Cursor.current, hd]
    have hend : c.atEnd = false := by rw [Cursor.atEnd, hcurrent, ht]
    have hend' : d.atEnd = false := by rw [Cursor.atEnd, hcurrent', ht]
    refine .inr ⟨hend, hend', hcurrent'.trans hcurrent.symm, ts.length, hlen, ?_⟩
    have hadvance : c.advance = { c with rest := c.rest.tail } := by
      rw [Cursor.advance, hend]
      rfl
    have hadvance' : d.advance = { d with rest := d.rest.tail } := by
      rw [Cursor.advance, hend']
      rfl
    rw [hadvance, hadvance']
    refine ⟨⟨ts, z, s, z', hz, hs, hz', ?_, Nat.le_refl _, ?_, ?_⟩, hdiag, hpassed⟩
    · exact fun t' ht' => hts t' (List.mem_cons_of_mem _ ht')
    · rw [hc]
      rfl
    · rw [hd]
      rfl

theorem echoes_accept? {wanted : TokenKind → Bool} (hwanted : wanted .semicolon = false) :
    Echoes n (accept? wanted) (accept? wanted) fun t m => m ≤ n ∧ (t.isSome → m < n) := by
  intro c d hcd a c' h
  rw [accept?_apply] at h ⊢
  rcases hcd.current with ⟨hend, hend', hkind⟩ | ⟨hend, hend', hcurrent, m, hm, hadvance⟩
  · rw [hend] at h
    cases h
    rw [hkind, hwanted, Bool.and_false]
    exact ⟨d, n, rfl, hcd, Nat.le_refl _, nofun⟩
  · rw [hend] at h
    rw [hend', hcurrent]
    by_cases hw : wanted c.current.kind
    · rw [hw] at h ⊢
      cases h
      exact ⟨d.advance, m, rfl, hadvance, Nat.le_of_lt hm, fun _ => hm⟩
    · rw [Bool.not_eq_true] at hw
      rw [hw] at h ⊢
      cases h
      exact ⟨d, n, rfl, hcd, Nat.le_refl _, nofun⟩

theorem echoes_accept {kind : TokenKind} (hkind : kind ≠ .semicolon) :
    Echoes n (accept kind) (accept kind) fun b m => m ≤ n ∧ (b → m < n) :=
  .bind (echoes_accept? (beq_false_of_ne hkind.symm)) fun _ _ h => .pure h

theorem echoes_expect {kind : TokenKind} (hkind : kind ≠ .semicolon) (what : String) :
    Echoes n (expect kind what) (expect kind what) fun _ m => m < n := by
  refine .bind (echoes_accept? (beq_false_of_ne hkind.symm)) fun t m h => ?_
  cases t with
  | none => exact .fail _ _ _
  | some t => exact .pure (h.2 rfl)

theorem echoes_check {kind : TokenKind} (hkind : kind ≠ .semicolon) :
    Echoes n (check kind) (check kind) fun _ m => m = n := by
  rintro c d hcd _ _ ⟨rfl, rfl⟩
  refine ⟨d, n, ?_, hcd, rfl⟩
  show EStateM.Result.ok (!d.atEnd && d.current.kind == kind) d =
    .ok (!c.atEnd && c.current.kind == kind) d
  rcases hcd.current with ⟨hend, hend', hsemicolon⟩ | ⟨hend, hend', hcurrent, -⟩
  · rw [hend, hend', hsemicolon, beq_false_of_ne hkind.symm]
    rfl
  · rw [hend, hend', hcurrent]

theorem echoes_unless? {kind : TokenKind} (hkind : kind ≠ .semicolon) {p q : Reader α}
    (h : Echoes n p q fun _ m => m < n) :
    Echoes n (unless? kind p) (unless? kind q) fun _ m => m ≤ n := by
  refine .bind (echoes_check hkind) ?_
  rintro _ _ rfl
  exact .ite (fun _ => .pure (Nat.le_refl _)) fun _ => .bind h fun _ _ hm =>
    .pure (Nat.le_of_lt hm)

theorem echoes_blame {f : Fault} (hf : f.PassedOver) (t : Token) :
    Echoes n (blame t f) (blame t f) fun _ m => m = n := by
  rintro c d hcd _ _ ⟨rfl, rfl⟩
  refine ⟨d.blame t f, n, rfl, ⟨hcd.tokens, ?_, ?_⟩, rfl⟩
  · show d.diagnostics ++ [_] = c.diagnostics ++ [_]
    rw [hcd.diagnostics]
  · intro x hx
    rcases List.mem_append.mp hx with hx | hx
    · exact hcd.passed x hx
    · rw [List.mem_singleton.mp hx]
      exact hf.atToken t

/-- At the end of the one list no token is left in front of the semicolon of the other. -/
theorem Alike.of_atEnd {c d : Cursor} (h : Alike n c d) (hend : c.atEnd = true) :
    Alike 0 c d := by
  obtain ⟨⟨ts, z, s, z', hz, hs, hz', hts, -, hc, hd⟩, hdiag, hpassed⟩ := h
  rcases ts with - | ⟨t, ts⟩
  · exact ⟨⟨[], z, s, z', hz, hs, hz', hts, Nat.le_refl _, hc, hd⟩, hdiag, hpassed⟩
  · have ht := hts t List.mem_cons_self
    have hcurrent : c.current = t := by simp [Cursor.current, hc]
    rw [Cursor.atEnd, hcurrent, ht] at hend
    cases hend

/-- A fault at the token ahead, before something is read that takes at least one token. -/
theorem echoes_blame_current {f : Fault} (hf : f.PassedOver) {p q : Reader α}
    (hp : ∀ m ≤ n, Echoes m p q fun _ m' => m' < m) :
    Echoes n (do blame (← current) f; p) (do blame (← current) f; q) fun _ m => m < n := by
  intro c d hcd a c' h
  rcases hcd.current with ⟨hend, -⟩ | ⟨-, -, hcurrent, -⟩
  · -- the two blame different tokens, but then there is nothing left to read
    have hblamed : Alike 0 (c.blame c.current f) (d.blame c.current f) := by
      obtain ⟨d', _, hd', hd'', rfl⟩ :=
        echoes_blame hf c.current c d (hcd.of_atEnd hend) () _ rfl
      cases hd'
      exact hd''
    obtain ⟨_, m, _, _, hm⟩ := hp 0 (Nat.zero_le n) _ _ hblamed a c' h
    exact absurd hm (Nat.not_lt_zero m)
  · have hboth : Echoes n (do blame c.current f; p) (do blame c.current f; q) fun _ m => m < n :=
      .bind (echoes_blame hf c.current) (by rintro _ _ rfl; exact hp _ (Nat.le_refl _))
    obtain ⟨d', m, hq, hrest⟩ := hboth c d hcd a c' h
    refine ⟨d', m, ?_, hrest⟩
    rw [← hcurrent] at hq
    exact hq

/-! ## Lists and chains -/

section Loops

variable {w w' : Nat}

theorem echoes_commaList {what : String} (hwhat : (Fault.tooMany what).PassedOver)
    {item item' : Reader α} (hitem : ∀ m ≤ n, Echoes m item item' fun _ m' => m' < m) :
    ∀ (w w' : Nat) (done : List α), ∀ m ≤ n, m < w → m < w' →
      Echoes m (commaList what item w done) (commaList what item' w' done) fun _ m' => m' < m := by
  intro w
  induction w with
  | zero => exact fun _ _ m _ hw _ => absurd hw (Nat.not_lt_zero m)
  | succ w ih =>
    intro w' done m hm hw hw'
    obtain ⟨w', rfl⟩ := Nat.exists_eq_add_one_of_ne_zero (Nat.ne_zero_of_lt hw')
    have hrest : ∀ k ≤ m, Echoes k (do
        let x ← item
        if ← accept .comma then commaList what item w (x :: done)
        else return (x :: done).reverse) (do
        let x ← item'
        if ← accept .comma then commaList what item' w' (x :: done)
        else return (x :: done).reverse) fun _ k' => k' < k := by
      intro k hk
      refine .bind (hitem k (by omega)) fun x k₁ hk₁ => ?_
      refine .bind (echoes_accept (by decide)) fun more k₂ hk₂ => .ite (fun hmore => ?_) fun _ => ?_
      · have hlt := hk₂.2 hmore
        refine (ih w' (x :: done) k₂ (by omega) (by omega) (by omega)).mono fun _ k' hk' => ?_
        omega
      · exact .pure (by omega)
    unfold commaList
    split
    · exact echoes_blame_current hwhat hrest
    · exact hrest m (Nat.le_refl m)

theorem echoes_chain {operators : TokenKind → Bool} (hoperators : operators .semicolon = false)
    {operand operand' : Reader Expr}
    (hoperand : ∀ m ≤ n, Echoes m operand operand' fun _ m' => m' < m)
    (node : Expr → Token → Expr → Expr) :
    ∀ (w w' : Nat) (left : Expr), ∀ m ≤ n, m < w → m < w' →
      Echoes m (chain operators operand node w left) (chain operators operand' node w' left)
        fun _ m' => m' ≤ m := by
  intro w
  induction w with
  | zero => exact fun _ _ m _ hw _ => absurd hw (Nat.not_lt_zero m)
  | succ w ih =>
    intro w' left m hm hw hw'
    obtain ⟨w', rfl⟩ := Nat.exists_eq_add_one_of_ne_zero (Nat.ne_zero_of_lt hw')
    refine .bind (echoes_accept? hoperators) fun op k hk => ?_
    cases op with
    | none => exact .pure hk.1
    | some op =>
      have hlt := hk.2 rfl
      refine .bind (hoperand k (by omega)) fun right k' hk' => ?_
      refine (ih w' _ k' (by omega) (by omega) (by omega)).mono fun _ _ h => ?_
      omega

theorem echoes_arguments {argument argument' : Reader Expr}
    (h : ∀ m ≤ n, Echoes m argument argument' fun _ m' => m' < m) (hw : n < w) (hw' : n < w') :
    Echoes n (arguments w argument) (arguments w' argument') fun _ m => m ≤ n := by
  have hlist := echoes_commaList (.inr rfl) h w w' [] n (Nat.le_refl n) hw hw'
  exact .bind (echoes_unless? (by decide) hlist) fun _ _ hm => .pure hm

theorem echoes_suffixes {argument argument' : Reader Expr}
    (h : ∀ m < n, Echoes m argument argument' fun _ m' => m' < m) (hw : n < w) (hw' : n < w') :
    ∀ (k k' : Nat) (target : Expr), ∀ m ≤ n, m < k → m < k' →
      Echoes m (suffixes w argument k target) (suffixes w' argument' k' target)
        fun _ m' => m' ≤ m := by
  intro k
  induction k with
  | zero => exact fun _ _ m _ hk _ => absurd hk (Nat.not_lt_zero m)
  | succ k ih =>
    intro k' target m hm hk hk'
    obtain ⟨k', rfl⟩ := Nat.exists_eq_add_one_of_ne_zero (Nat.ne_zero_of_lt hk')
    refine .bind (echoes_accept (by decide)) fun isCall i hi => .ite (fun hcall => ?_) fun _ => ?_
    · -- the arguments of a call
      have hlt := hi.2 hcall
      have hargs := echoes_arguments (n := i) (fun j hj => h j (by omega))
        (Nat.lt_of_le_of_lt (by omega) hw) (Nat.lt_of_le_of_lt (by omega) hw')
      refine .bind hargs fun args j hj => .bind (echoes_expect (by decide) _) fun paren l hl => ?_
      exact (ih k' _ l (by omega) (by omega) (by omega)).mono fun _ _ _ => by omega
    · refine .bind (echoes_accept (by decide)) fun isGet j hj => .ite (fun hget => ?_) fun _ => ?_
      · have hlt := hj.2 hget
        refine .bind (echoes_expect (by decide) _) fun property l hl => ?_
        exact (ih k' _ l (by omega) (by omega) (by omega)).mono fun _ _ _ => by omega
      · exact .pure (Nat.le_trans hj.1 hi.1)

end Loops

/-! ## The rules for expressions -/

/-- **A rule that is echoed by itself** in other room: in `base` units of room, and 24 for each
token ahead, which is what rules nest in between two tokens.  It reads at least one token. -/
def RuleEchoes (most base : Nat) (p : Reader Expr) (q : Nat → Reader Expr) : Prop :=
  ∀ m ≤ most, ∀ room', 24 * m + base ≤ room' → Echoes m p (q room') fun _ m' => m' < m

theorem RuleEchoes.of_throw {most base : Nat} {e : Halt} {q : Nat → Reader Expr} :
    RuleEchoes most base (MonadExcept.throw e) q :=
  fun _ _ _ _ => .throw _ _ _

/-- The room in which an operand of a level is read, at the last token. -/
def Level.base : Level → Nat
  | either => 22
  | both => 20
  | equality => 18
  | comparison => 16
  | sum => 14
  | product => 12

/-- The rules for expressions are echoed. -/
structure EchoRules (w w' most room : Nat) : Prop where
  expression : RuleEchoes most 28 (expression w room) (expression w')
  conditional : RuleEchoes most 26 (conditional w room) (conditional w')
  assignment : RuleEchoes most 24 (assignment w room) (assignment w')
  binary : ∀ level : Level,
    RuleEchoes most level.base (binary w room level) fun room' => binary w' room' level
  unary : RuleEchoes most 10 (unary w room) (unary w')
  call : RuleEchoes most 8 (call w room) (call w')
  primary : RuleEchoes most 6 (primary w room) (primary w')

namespace EchoRules

variable {w w' most room : Nat}

theorem expression_succ (h : EchoRules w w' most room) (hw : most < w) (hw' : most < w') :
    RuleEchoes most 28 (Grammar.expression w (room + 2)) (Grammar.expression w') := by
  intro m hm room' hroom
  obtain ⟨room', rfl⟩ := Nat.exists_eq_add_of_le' (show 2 ≤ room' by omega)
  have hitem : ∀ k ≤ m, Echoes k (Grammar.conditional w room) (Grammar.conditional w' room')
      fun _ k' => k' < k := fun k hk => h.conditional k (by omega) room' (by omega)
  refine .bind (hitem m (Nat.le_refl m)) fun first k hk => ?_
  refine (echoes_chain rfl hitem .binary w w' first k (by omega) (by omega) (by omega)).mono ?_
  intro _ k' hk'
  omega

theorem conditional_succ (h : EchoRules w w' most room) :
    RuleEchoes most 26 (Grammar.conditional w (room + 2)) (Grammar.conditional w') := by
  intro m hm room' hroom
  obtain ⟨room', rfl⟩ := Nat.exists_eq_add_of_le' (show 2 ≤ room' by omega)
  refine .bind (h.assignment m hm room' (by omega)) fun test k hk => ?_
  refine .bind (echoes_accept (by decide)) fun isTernary i hi =>
    .ite (fun hternary => ?_) fun _ => ?_
  · have hlt := hi.2 hternary
    refine .bind (h.conditional i (by omega) room' (by omega)) fun yes j hj => ?_
    refine .bind (echoes_expect (by decide) _) fun _ l hl => ?_
    refine .bind (h.conditional l (by omega) room' (by omega)) fun no l' hl' => .pure ?_
    omega
  · exact .pure (by omega)

theorem assignment_succ (h : EchoRules w w' most room) :
    RuleEchoes most 24 (Grammar.assignment w (room + 2)) (Grammar.assignment w') := by
  intro m hm room' hroom
  obtain ⟨room', rfl⟩ := Nat.exists_eq_add_of_le' (show 2 ≤ room' by omega)
  refine .bind (h.binary .either m hm room' (show 24 * m + 22 ≤ room' by omega))
    fun target k hk => ?_
  refine .bind (echoes_accept? rfl) fun equals i hi => ?_
  cases equals with
  | none => exact .pure (by omega)
  | some equals =>
    have hlt := hi.2 rfl
    refine .bind (h.conditional i (by omega) room' (by omega)) fun value j hj => ?_
    cases assigned? value target with
    | some e => exact .pure (by omega)
    | none =>
      refine .bind (echoes_blame (.inl rfl) equals) ?_
      rintro _ _ rfl
      exact .pure (by omega)

theorem binary_succ (h : EchoRules w w' most room) (hw : most < w) (hw' : most < w')
    (level : Level) : RuleEchoes most level.base (Grammar.binary w (room + 2) level)
      fun room' => Grammar.binary w' room' level := by
  intro m hm room' hroom
  have hbase : 12 ≤ level.base := by cases level <;> decide
  obtain ⟨room', rfl⟩ := Nat.exists_eq_add_of_le' (show 2 ≤ room' by omega)
  have hoperators : level.operators .semicolon = false := by cases level <;> rfl
  have hlevel : ∀ p q : Reader Expr, (∀ k ≤ m, Echoes k p q fun _ k' => k' < k) →
      Echoes m (do
        let first ← p
        chain level.operators p level.node w first) (do
        let first ← q
        chain level.operators q level.node w' first) fun _ m' => m' < m := by
    intro p q hoperand
    refine .bind (hoperand m (Nat.le_refl m)) fun first k hk => ?_
    refine (echoes_chain hoperators hoperand level.node w w' first k (by omega) (by omega)
      (by omega)).mono ?_
    intro _ k' hk'
    omega
  show Echoes m (Grammar.binary w (room + 2) level) (Grammar.binary w' (room' + 2) level) _
  cases hnext : level.tighter? with
  | some next =>
    have hstep : level.base = next.base + 2 := by
      cases level <;> cases hnext <;> rfl
    rw [binary_of_tighter hnext, binary_of_tighter hnext]
    exact hlevel _ _ fun k hk => h.binary next k (by omega) room' (by omega)
  | none =>
    rw [binary_of_tightest hnext, binary_of_tightest hnext]
    exact hlevel _ _ fun k hk => h.unary k (by omega) room' (by omega)

theorem unary_succ (h : EchoRules w w' most room) :
    RuleEchoes most 10 (Grammar.unary w (room + 2)) (Grammar.unary w') := by
  intro m hm room' hroom
  obtain ⟨room', rfl⟩ := Nat.exists_eq_add_of_le' (show 2 ≤ room' by omega)
  refine .bind (.need room (show 4 ≤ room' by omega)) ?_
  rintro _ _ rfl
  refine .bind (echoes_accept? rfl) fun op i hi => ?_
  cases op with
  | none =>
    refine (h.call i (by omega) room' (by omega)).mono fun _ j hj => ?_
    omega
  | some op =>
    have hlt := hi.2 rfl
    refine .bind (h.unary i (by omega) room' (by omega)) fun operand j hj => .pure ?_
    omega

theorem call_succ (h : EchoRules w w' most room) (h' : EchoRules w w' most (room + 1))
    (hw : most < w) (hw' : most < w') :
    RuleEchoes most 8 (Grammar.call w (room + 3)) (Grammar.call w') := by
  intro m hm room' hroom
  obtain ⟨room', rfl⟩ := Nat.exists_eq_add_of_le' (show 3 ≤ room' by omega)
  refine .bind (h'.primary m hm (room' + 1) (by omega)) fun target k hk => ?_
  -- the arguments are behind at least one token more
  have hargument : ∀ i < m, Echoes i (Grammar.conditional w room) (Grammar.conditional w' room')
      fun _ i' => i' < i := fun i hi => h.conditional i (by omega) room' (by omega)
  refine (echoes_suffixes hargument (by omega) (by omega) w w' target k (by omega) (by omega)
    (by omega)).mono ?_
  intro _ k' hk'
  omega

theorem primary_succ (h : EchoRules w w' most room) :
    RuleEchoes most 6 (Grammar.primary w (room + 2)) (Grammar.primary w') := by
  intro m hm room' hroom
  obtain ⟨room', rfl⟩ := Nat.exists_eq_add_of_le' (show 2 ≤ room' by omega)
  refine .bind (.need room (show 4 ≤ room' by omega)) ?_
  rintro _ _ rfl
  refine .bind (echoes_accept? rfl) fun atom i hi => ?_
  cases atom with
  | some t => exact .pure (hi.2 rfl)
  | none =>
    refine .bind (echoes_accept? rfl) fun keyword j hj => ?_
    cases keyword with
    | some keyword =>
      have hlt := hj.2 rfl
      refine .bind (echoes_expect (by decide) _) fun _ l hl => ?_
      refine .bind (echoes_expect (by decide) _) fun method l' hl' => .pure ?_
      omega
    | none =>
      refine .bind (echoes_accept (by decide)) fun isGroup l hl => .ite (fun hgroup => ?_)
        fun _ => .fail _ _ _
      have hlt := hl.2 hgroup
      refine .bind (h.expression l (by omega) room' (by omega)) fun inner l' hl' => ?_
      refine .bind (echoes_expect (by decide) _) fun _ l'' hl'' => .pure ?_
      omega

end EchoRules

/-- **Every rule for expressions is echoed**, whatever room it has itself. -/
theorem echoRules {w w' most : Nat} (hw : most < w) (hw' : most < w') (room : Nat) :
    EchoRules w w' most room := by
  induction room using Nat.strongRecOn with
  | ind room ih =>
    match room with
    | 0 =>
      exact ⟨.of_throw, .of_throw, .of_throw, fun _ => .of_throw, .of_throw, .of_throw, .of_throw⟩
    | 1 =>
      exact ⟨.of_throw, .of_throw, .of_throw, fun _ => .of_throw, .of_throw, .of_throw, .of_throw⟩
    | room + 2 =>
      have h := ih room (by omega)
      refine ⟨h.expression_succ hw hw', h.conditional_succ, h.assignment_succ,
        h.binary_succ hw hw', h.unary_succ, ?_, h.primary_succ⟩
      cases room with
      | zero => exact .of_throw
      | succ room => exact (ih room (by omega)).call_succ (ih (room + 1) (by omega)) hw hw'

/-! ## A statement that prints -/

/-- **A statement that prints**, from what is read behind its word. -/
theorem statement_print {w room : Nat} {c c' : Cursor} {e : Expr} (hend : c.atEnd = false)
    (hkind : c.current.kind = .printWord) (hroom : 2 ≤ room)
    (he : expression w (room + 1) c.advance = .ok e c') (hend' : c'.atEnd = false)
    (hkind' : c'.current.kind = .semicolon) :
    statement w (room + 4) c = .ok (.print e) c'.advance := by
  have hneed : need (room + 2) c = .ok () c := need_ok (Nat.add_le_add_right hroom 2) c
  have hword : accept? isStatementWord c = .ok (some c.current) c.advance :=
    accept?_some hend (by rw [hkind]; rfl)
  have hsemicolon := expect_ok hend' hkind' "';' after value"
  unfold statement
  rw [bind_ok hneed, bind_ok hword]
  simp only [hkind]
  rw [bind_ok he, bind_ok hsemicolon]
  rfl

/-- A declaration that is such a statement. -/
theorem declaration_print {w room : Nat} {c c' : Cursor} {e : Expr} (hend : c.atEnd = false)
    (hkind : c.current.kind = .printWord) (hroom : 3 ≤ room)
    (he : expression w room c.advance = .ok e c') (hend' : c'.atEnd = false)
    (hkind' : c'.current.kind = .semicolon) :
    declaration w (room + 5) c = .ok (some (.print e)) c'.advance := by
  obtain ⟨room, rfl⟩ := Nat.exists_eq_add_of_le' (show 1 ≤ room by omega)
  have hneed : need (room + 1 + 3) c = .ok () c := need_ok (show 4 ≤ room + 1 + 3 by omega) c
  have hclass : accept .classWord c = .ok false c := accept_false (by rw [hkind]; decide)
  have hfun : accept .funWord c = .ok false c := accept_false (by rw [hkind]; decide)
  have hvar : accept .varWord c = .ok false c := accept_false (by rw [hkind]; decide)
  have hstatement := statement_print hend hkind (by omega) he hend' hkind'
  unfold declaration orResume
  rw [bind_ok hneed, bind_ok hclass, if_neg nofun, bind_ok hfun, if_neg nofun, bind_ok hvar,
    if_neg nofun, hstatement]

/-- A program of that statement alone. -/
theorem topLevels_print {w room n : Nat} {c c' : Cursor} {e : Expr} (hend : c.atEnd = false)
    (hkind : c.current.kind = .printWord) (hroom : 3 ≤ room)
    (he : expression w room c.advance = .ok e c') (hend' : c'.atEnd = false)
    (hkind' : c'.current.kind = .semicolon) (hclosed : c'.advance.atEnd = true) :
    topLevels w (room + 5) (n + 2) [] c = .ok [.print e] c'.advance := by
  have hdeclaration := declaration_print hend hkind hroom he hend' hkind'
  have htop : topLevel w (room + 5) c = .ok (some (.print e)) c'.advance := by
    unfold topLevel orGiveUp
    rw [hdeclaration]
  have hmore : atEnd c = .ok false c := by
    rw [← hend]
    rfl
  have hdone : atEnd c'.advance = .ok true c'.advance := by
    rw [← hclosed]
    rfl
  unfold topLevels
  rw [bind_ok hmore, if_neg nofun, bind_ok htop]
  dsimp only
  unfold topLevels
  rw [bind_ok hdone, if_pos rfl]
  rfl

end Grammar

open Grammar

/-- A token list that reads as one expression. -/
theorem Expr.ofTokens?_result {room : Nat} {tokens : List Token} {e : Expr}
    (h : (Expr.ofTokens? room tokens).result = some e) :
    ∃ c, expression tokens.length room { rest := tokens } = .ok e c ∧ c.atEnd = true ∧
      (Expr.ofTokens? room tokens).diagnostics = c.diagnostics := by
  have hclosed : ∀ c₀ : Cursor, closedExpression tokens.length room c₀ =
      match expression tokens.length room c₀ with
      | .ok e c => if c.atEnd then .ok e c else fail (.expected "end of expression") c
      | .error halt c => .error halt c := by
    intro c₀
    unfold closedExpression
    simp only [Bind.bind, EStateM.bind]
    cases expression tokens.length room c₀ with
    | error halt c => rfl
    | ok e c =>
      show (if c.atEnd then Pure.pure e else fail (.expected "end of expression") :
        Reader Expr) c = if c.atEnd then .ok e c else fail (.expected "end of expression") c
      split <;> rfl
  unfold Expr.ofTokens? soleExpression at h ⊢
  rw [hclosed] at h ⊢
  cases hread : expression tokens.length room { rest := tokens } with
  | error halt c =>
    rw [hread] at h
    cases halt <;> cases h
  | ok e' c =>
    rw [hread] at h
    dsimp only at h ⊢
    by_cases hend : c.atEnd = true
    · rw [if_pos hend] at h ⊢
      cases h
      exact ⟨c, rfl, hend, rfl⟩
    · rw [if_neg hend] at h
      cases h

/-- **A program that prints an expression** reads the expression as it is read by itself, and
passes over the same faults. -/
theorem Program.ofTokens_print {ts : List Token} {k z s z' : Token} {e : Expr}
    {room room' : Nat} (hts : ∀ t ∈ ts, t.isEnd = false) (hz : z.isEnd) (hz' : z'.isEnd)
    (hk : k.kind = .printWord) (hs : s.kind = .semicolon)
    (hroom : 24 * ts.length + 33 ≤ room')
    (h : (Expr.ofTokens? room (ts ++ [z])).result = some e) :
    Program.ofTokens room' (k :: (ts ++ [s, z'])) =
        ⟨[.print e], (Expr.ofTokens? room (ts ++ [z])).diagnostics⟩ ∧
      ∀ x ∈ (Expr.ofTokens? room (ts ++ [z])).diagnostics, x.PassedOver := by
  obtain ⟨c, hread, hend, hdiagnostics⟩ := Expr.ofTokens?_result h
  obtain ⟨room', rfl⟩ := Nat.exists_eq_add_of_le' (show 5 ≤ room' by omega)
  let start : Cursor := { rest := k :: (ts ++ [s, z']) }
  have hnot : k.isEnd = false := by rw [Token.isEnd, hk]; rfl
  have hstart : start.atEnd = false := hnot
  have hadvance : start.advance = { rest := ts ++ [s, z'] } := by
    unfold Cursor.advance
    rw [hstart]
    rfl
  have halike : Alike ts.length { rest := ts ++ [z] } start.advance := by
    rw [hadvance]
    exact ⟨⟨ts, z, s, z', hz, hs, hz', hts, Nat.le_refl _, rfl, rfl⟩, rfl, nofun⟩
  have hw : ts.length < (ts ++ [z]).length := by simp
  have hlength : (k :: (ts ++ [s, z'])).length = ts.length + 1 + 2 := by
    rw [List.length_cons, List.length_append]
    rfl
  have hw' : ts.length < (k :: (ts ++ [s, z'])).length := by omega
  obtain ⟨d, m, hd, hcd, -⟩ := (echoRules hw hw' room).expression ts.length (Nat.le_refl _) room'
    (by omega) _ _ halike e c hread
  obtain ⟨⟨us, y, t, y', hy, ht, hy', -, hlen, -, hrest⟩, hpassed, hall⟩ := hcd.of_atEnd hend
  obtain rfl := List.eq_nil_of_length_eq_zero (Nat.le_zero.mp hlen)
  have hcurrent : d.current = t := by rw [Cursor.current, hrest]; rfl
  have hend' : d.atEnd = false := by rw [Cursor.atEnd, hcurrent, Token.isEnd, ht]; rfl
  have hclosed : d.advance.atEnd = true := by
    have hlast : d.advance.current = y' := by
      rw [Cursor.advance, hend', Cursor.current]
      show d.rest.tail.headD _ = y'
      rw [hrest]
      rfl
    rw [Cursor.atEnd, hlast, hy']
  have hprogram : topLevels (k :: (ts ++ [s, z'])).length (room' + 5) (ts.length + 1 + 2) [] start =
      .ok [.print e] d.advance :=
    topLevels_print hstart hk (by omega) hd hend' (by rw [hcurrent, ht]) hclosed
  have hpassed' : d.advance.diagnostics = c.diagnostics := by
    rw [Cursor.advance, hend', ← hpassed]
    rfl
  rw [hdiagnostics]
  refine ⟨?_, hall⟩
  unfold Program.ofTokens
  rw [hlength] at hprogram ⊢
  dsimp only
  rw [hprogram, ← hpassed']

end LoxKit
