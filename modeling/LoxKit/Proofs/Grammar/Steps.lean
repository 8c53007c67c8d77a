import LoxKit.Grammar.Statement

/-!
# Single steps of reading

What the smallest steps of reading do at a cursor, and which token is ahead behind others.
-/
namespace LoxKit
namespace Grammar

variable {α β : Type}

theorem bind_ok {p : Reader α} {f : α → Reader β} {c c' : Cursor} {a : α}
    (h : p c = .ok a c') : (p >>= f) c = f a c' := by
  simp only [Bind.bind, EStateM.bind, h]

theorem bind_error {p : Reader α} {f : α → Reader β} {c c' : Cursor} {e : Halt}
    (h : p c = .error e c') : (p >>= f) c = .error e c' := by
  simp only [Bind.bind, EStateM.bind, h]

theorem need_ok {room : Nat} (h : lookRoom ≤ room) (c : Cursor) : need room c = .ok () c := by
  unfold need
  rw [if_neg (Nat.not_lt.mpr h)]
  rfl

theorem accept?_apply (wanted : TokenKind → Bool) (c : Cursor) :
    accept? wanted c =
      if !c.atEnd && wanted c.current.kind then .ok (some c.current) c.advance
      else .ok none c := by
  show (if !c.atEnd && wanted c.current.kind then _ else _ : Reader (Option Token)) c = _
  split <;> rfl

theorem accept?_none {wanted : TokenKind → Bool} {c : Cursor} (h : wanted c.current.kind = false) :
    accept? wanted c = .ok none c := by
  rw [accept?_apply, h, Bool.and_false]
  rfl

theorem accept?_some {wanted : TokenKind → Bool} {c : Cursor} (hend : c.atEnd = false)
    (h : wanted c.current.kind = true) : accept? wanted c = .ok (some c.current) c.advance := by
  rw [accept?_apply, hend, h]
  rfl

theorem accept_false {kind : TokenKind} {c : Cursor} (h : c.current.kind ≠ kind) :
    accept kind c = .ok false c := by
  have hnone : accept? (· == kind) c = .ok none c := accept?_none (beq_false_of_ne h)
  exact bind_ok hnone

theorem expect_ok {kind : TokenKind} {c : Cursor} (hend : c.atEnd = false)
    (hkind : c.current.kind = kind) (what : String) :
    expect kind what c = .ok c.current c.advance := by
  have hsome : accept? (· == kind) c = .ok (some c.current) c.advance :=
    accept?_some hend (beq_iff_eq.mpr hkind)
  exact bind_ok hsome

theorem withLoops_ok {count : Nat → Nat} {p : Reader α} {c d : Cursor} {a : α}
    (h : p { c with loops := count c.loops } = .ok a d) :
    withLoops count p c = .ok a { d with loops := c.loops } := by
  unfold withLoops
  rw [h]

theorem withLoops_error {count : Nat → Nat} {p : Reader α} {c d : Cursor} {e : Halt}
    (h : p { c with loops := count c.loops } = .error e d) :
    withLoops count p c = .error e { d with loops := c.loops } := by
  unfold withLoops
  rw [h]

/-! ## Recovery -/

theorem orResume_ok {p : Reader α} {c d : Cursor} {a : α} (h : p c = .ok a d) :
    orResume p c = .ok (some a) d := by
  unfold orResume
  rw [h]

theorem orResume_fault {p : Reader α} {c d : Cursor} (h : p c = .error .fault d) :
    orResume p c = .ok none d.recover := by
  unfold orResume
  rw [h]

theorem orResume_tooDeep {p : Reader α} {c d : Cursor} (h : p c = .error .tooDeep d) :
    orResume p c = .error .tooDeep d := by
  unfold orResume
  rw [h]

theorem orGiveUp_ok {p : Reader (Option α)} {c d : Cursor} {a : Option α} (h : p c = .ok a d) :
    orGiveUp p c = .ok a d := by
  unfold orGiveUp
  rw [h]

theorem orGiveUp_fault {p : Reader (Option α)} {c d : Cursor} (h : p c = .error .fault d) :
    orGiveUp p c = .error .fault d := by
  unfold orGiveUp
  rw [h]

theorem orGiveUp_tooDeep {p : Reader (Option α)} {c d : Cursor} (h : p c = .error .tooDeep d) :
    orGiveUp p c = .ok none (d.blame d.current .tooDeep).recover := by
  unfold orGiveUp
  rw [h]

/-! ## The token ahead -/

/-- The token ahead of some tokens with another behind them. -/
def ahead (ts : List Token) (next : Token) : Token := ts.headD next

@[simp] theorem ahead_nil (next : Token) : ahead [] next = next := rfl

@[simp] theorem ahead_cons (t : Token) (ts : List Token) (next : Token) :
    ahead (t :: ts) next = t := rfl

theorem ahead_append (ts us : List Token) (next : Token) :
    ahead (ts ++ us) next = ahead ts (ahead us next) := by
  cases ts <;> rfl

theorem Cursor.current_append {c d : Cursor} {ts : List Token} (h : c.rest = ts ++ d.rest) :
    c.current = ahead ts d.current := by
  show ahead c.rest _ = _
  rw [h, ahead_append]
  rfl

end Grammar

open Grammar

/-- A program is what its top-level declarations are read as. -/
theorem Program.ofTokens_of_topLevels {room : Nat} {tokens : List Token} {p : Program} {d : Cursor}
    (h : topLevels tokens.length room tokens.length [] { rest := tokens } = .ok p d) :
    Program.ofTokens room tokens = ⟨p, d.diagnostics⟩ := by
  unfold Program.ofTokens
  dsimp only
  rw [h]

end LoxKit
