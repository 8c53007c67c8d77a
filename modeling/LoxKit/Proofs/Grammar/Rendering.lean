import LoxKit.Limits
import LoxKit.Proofs.Grammar.Relined
import LoxKit.Proofs.Grammar.StatementLeads
import LoxKit.Proofs.Grammar.Stratified
import LoxKit.Proofs.Tree.Rendering

/-!
# Reading what was rendered

The rendering of what was read is read as the same again.  An expression is even written in the
same room.  A `for` statement is rendered as the blocks and the `while` loop it stands for, which
nest deeper, but never more than four times as deep (`Passage.Written.rendered`).

A passage that was open may be rendered closed, since the turn of a loop with an increment is a
block.  The converse does not occur, so an `else` behind a rendered branch is still its own.
-/
namespace LoxKit
namespace Grammar

/-- **Numerals that read back**: whatever number a numeral denotes, it is written in a way that
denotes it. -/
def ReadsBack (numeral : Float → String) : Prop :=
  ∀ text, readNumeral (numeral (readNumeral text)) = readNumeral text

/-- A number can be written as it was. -/
theorem exists_readsBack : ∃ numeral, ReadsBack numeral := by
  classical
  refine ⟨fun x => if h : ∃ text, readNumeral text = x then h.choose else "", fun text => ?_⟩
  have h : ∃ text', readNumeral text' = readNumeral text := ⟨text, rfl⟩
  simp only [h, dite_true]
  exact h.choose_spec

variable {numeral : Float → String}

/-! ## Expressions -/

/-- The tokens of a phrase. -/
def Phrase.tokens (numeral : Float → String) : Phrase → List Token
  | .expr _ e => e.tokens numeral
  | .arguments es => Expr.tokensOfList numeral es

/-- A literal that a token stands for is that of its rendering. -/
theorem atom?_token (hnumeral : ReadsBack numeral) {t : Token} {v : Literal}
    (h : atom? t = some (.literal v)) : atom? (v.token numeral) = some (.literal v) := by
  unfold atom? Literal.ofToken? at h
  cases hkind : t.kind <;> rw [hkind] at h <;> cases h
  case string => simp [Literal.token, Token.mark, atom?, Literal.ofToken?]
  case number => simp [Literal.token, Token.mark, atom?, Literal.ofToken?, hnumeral _]
  all_goals rfl

/-- **What was read as an expression is written by its rendering**, in the same room. -/
theorem Written.rendered (hnumeral : ReadsBack numeral) {φ : Phrase} {room : Nat} {ts : List Token}
    (h : Written φ room ts) : Written φ room (φ.tokens numeral) := by
  induction h with
  | tighter ht _ ih => exact .tighter ht ih
  | comma _ hop _ ihl ihr => exact .comma ihl hop ihr
  | conditional _ _ _ _ _ iht ihy ihn => exact .conditional iht rfl ihy rfl ihn
  | @assign target value e _ room _ _ htarget _ _ he iht ihv =>
    cases target <;> cases he
    · exact .assign iht rfl ihv rfl
    · have hset : Written _ _ (_ ++ .mark .equal "=" :: _) := .assign iht rfl ihv rfl
      simpa [Phrase.tokens, Expr.tokens] using hset
  | @operator level _ _ _ _ _ _ _ hop _ ihl ihr => cases level <;> exact .operator ihl hop ihr
  | prefixed hop _ ih => exact .prefixed hop ih
  | callNone _ _ hparen ih => exact .callNone ih rfl hparen
  | call _ _ _ hlen hparen ihf iha => exact .call ihf rfl iha hlen hparen
  | get _ _ hname ih => exact .get ih rfl hname
  | atom he =>
    rcases atom?_cases he with ⟨v, rfl⟩ | ⟨-, rfl⟩ | ⟨-, rfl⟩
    · exact .atom (atom?_token hnumeral he)
    · exact .atom he
    · exact .atom he
  | super hkeyword _ hmethod => exact .super hkeyword rfl hmethod
  | group _ _ _ ih => exact .group rfl ih rfl
  | argument _ ih =>
    have hone := Written.argument ih
    rwa [← List.append_nil (Phrase.tokens numeral _)] at hone
  | moreArguments _ _ hrest ihe ihs =>
    have hmore : Written _ _ (_ ++ .mark .comma "," :: _) := .moreArguments ihe rfl ihs
    cases hrest <;> exact hmore

/-! ## Parts of statements -/

theorem ClauseWritten.rendered (hnumeral : ReadsBack numeral) {room : Nat} {e : Option Expr}
    {ts : List Token} (h : ClauseWritten room e ts) :
    ClauseWritten room e (Expr.tokensOfClause numeral e) := by
  cases e with
  | none => rfl
  | some e => exact Grammar.Written.rendered hnumeral h

theorem InitialWritten.rendered (hnumeral : ReadsBack numeral) {room : Nat} {e : Option Expr}
    {ts : List Token} (h : InitialWritten room e ts) :
    InitialWritten room e (Expr.tokensOfInitial numeral e) := by
  cases e with
  | none => rfl
  | some e =>
    obtain ⟨_, us, _, he, -⟩ := h
    exact ⟨_, _, rfl, he.rendered hnumeral, rfl⟩

theorem VariableWritten.rendered (hnumeral : ReadsBack numeral) {room : Nat} {s : Stmt}
    {ts : List Token} (h : VariableWritten room s ts) :
    ∃ us, s.tokens numeral = .mark .varWord "var" :: us ∧ VariableWritten room s us := by
  cases h with
  | mk hroom hname hinitial _ =>
    exact ⟨_, by rw [Stmt.tokens], .mk hroom hname (hinitial.rendered hnumeral) rfl⟩

theorem ParamsWritten.rendered {params ts : List Token} (h : ParamsWritten params ts) :
    ParamsWritten params (params.intersperse (.mark .comma ",")) := by
  rcases h with ⟨rfl, -⟩ | ⟨hparams, hlen⟩
  · exact .inl ⟨rfl, rfl⟩
  · refine .inr ⟨?_, hlen⟩
    clear hlen
    induction hparams with
    | one hp => exact .one ⟨rfl, hp.2⟩
    | more hp _ hrest ih =>
      have hmore : CommaList (fun (p : Token) ts => ts = [p] ∧ p.kind = .identifier) _
          ([_] ++ .mark .comma "," :: _) := .more ⟨rfl, hp.2⟩ rfl ih
      cases hrest <;> exact hmore

theorem SuperclassWritten.rendered {r : Option Reference} {ts : List Token}
    (h : SuperclassWritten r ts) :
    SuperclassWritten r (Reference.tokensOfSuperclass r) := by
  cases r with
  | none => rfl
  | some r =>
    obtain ⟨_, name, _, hname, rfl, -⟩ := h
    exact ⟨_, name, rfl, hname, rfl, rfl⟩

/-! ## Statements -/

namespace Passage

/-- The tokens of a passage. -/
def tokens (numeral : Float → String) : Passage → List Token
  | .statement s _ | .declaration s _ => s.tokens numeral
  | .declarations ss => Stmt.tokensOfList numeral ss
  | .body ss => Stmt.tokensOfList numeral ss ++ [.mark .rightBrace "\x7d"]
  | .function d => d.tokens numeral
  | .methods ds => FunDecl.tokensOfList numeral ds

/-- The tokens write a passage, which is not open unless it is said to be. -/
def WrittenClosed (l room : Nat) (ts : List Token) : Passage → Prop
  | .statement s isOpen =>
    ∃ isOpen' : Bool, (isOpen' → isOpen) ∧ Written (.statement s isOpen') l room ts
  | .declaration s isOpen =>
    ∃ isOpen' : Bool, (isOpen' → isOpen) ∧ Written (.declaration s isOpen') l room ts
  | φ => φ.Written l room ts

/-- **The rendering of a passage writes it** in some room. -/
abbrev Rendered (numeral : Float → String) (l room : Nat) (φ : Passage) : Prop :=
  φ.WrittenClosed l room (φ.tokens numeral)

theorem WrittenClosed.mono {φ : Passage} {l room room' : Nat} {ts : List Token}
    (h : φ.WrittenClosed l room ts) (hroom : room ≤ room') : φ.WrittenClosed l room' ts := by
  cases φ with
  | statement | declaration =>
    obtain ⟨isOpen', hopen, hs⟩ := h
    exact ⟨isOpen', hopen, hs.mono hroom⟩
  | _ => exact Written.mono h hroom

namespace Written

variable {l room : Nat}

/-- A statement is a declaration. -/
theorem declared {s : Stmt} {isOpen : Bool} {ts : List Token}
    (h : Written (.statement s isOpen) l room ts) :
    Written (.declaration s isOpen) l (room + 2) ts := by
  have hroom := h.six_le rfl
  obtain ⟨r, rfl⟩ : ∃ r, room = r + 3 := ⟨room - 3, by omega⟩
  exact ofStatement h

/-- A block of two declarations. -/
theorem pair {s s' : Stmt} {isOpen isOpen' : Bool}
    (hs : Written (.declaration s isOpen) l room (s.tokens numeral))
    (hs' : Written (.declaration s' isOpen') l room (s'.tokens numeral)) :
    Written (.statement (.block [s, s']) false) l (room + 4)
      ((Stmt.block [s, s']).tokens numeral) := by
  have hroom := hs.six_le rfl
  exact block rfl (body (by omega) (moreDeclarations hs (moreDeclarations hs' noDeclarations)) rfl)

end Written

/-- **Room stretched far enough**: fourfold, or at all if the tokens have no `for` among them. -/
def Stretched (k : Nat) (ts : List Token) : Prop :=
  4 ≤ k ∨ 1 ≤ k ∧ ∀ t ∈ ts, t.kind ≠ .forWord

namespace Stretched

variable {k : Nat} {ts us : List Token}

theorem pos (h : Stretched k ts) : 1 ≤ k := by
  rcases h with h | ⟨h, -⟩ <;> omega

theorem part (h : Stretched k ts) (hus : ∀ t ∈ us, t ∈ ts) : Stretched k us :=
  h.imp_right fun h => ⟨h.1, fun t ht => h.2 t (hus t ht)⟩

theorem le_mul (h : Stretched k ts) (room : Nat) : room ≤ k * room :=
  Nat.le_mul_of_pos_left room h.pos

/-- What a step takes is stretched with the room: a part that had more room than is left of the
whole still does. -/
theorem inner (h : Stretched k ts) (room : Nat) {m n : Nat} (hmn : m ≤ n) :
    ∃ r, k * (room + m) = r + m ∧ r + n ≤ k * (room + n) := by
  have hm := h.le_mul m
  refine ⟨k * room + (k * m - m), by rw [Nat.mul_add]; omega, ?_⟩
  have hmore := h.le_mul (n - m)
  rw [Nat.mul_sub] at hmore
  rw [Nat.mul_add]
  have := Nat.mul_le_mul_left k hmn
  omega

theorem add_le (h : Stretched k ts) (room n : Nat) : k * room + n ≤ k * (room + n) := by
  rw [Nat.mul_add]
  exact Nat.add_le_add_left (h.le_mul n) _

end Stretched

namespace Written

/-! ### The loop that a `for` statement stands for -/

section
variable (hnumeral : ReadsBack numeral) {l room r : Nat} {ts : List Token}
include hnumeral

/-- Where a condition is left out, `true` stands for it. -/
theorem rendered_test {test : Option Expr} (h : ClauseWritten (room + 1) test ts)
    (hroom : 6 ≤ room) (hr : 4 * room ≤ r) :
    Grammar.Written (.expr .expression (test.getD (.literal (.bool true)))) (r + 7)
      ((test.getD (.literal (.bool true))).tokens numeral) := by
  cases test with
  | some e => exact (Grammar.Written.rendered hnumeral h).mono (by omega)
  | none =>
    have htrue : Grammar.Written (.expr .expression (.literal (.bool true))) 28
        [.mark .trueWord "true"] :=
      .tighter rfl <| .tighter rfl <| .tighter rfl <| .tighter rfl <| .tighter rfl <|
        .tighter rfl <| .tighter rfl <| .tighter rfl <| .tighter rfl <| .tighter rfl <|
        .tighter rfl <| .atom rfl
    exact htrue.mono (by omega)

/-- One turn of the loop: the body, and the increment in a block with it. -/
theorem rendered_turn {increment : Option Expr} {body : Stmt} {isOpen : Bool}
    (h : ClauseWritten (room + 1) increment ts) (hroom : 6 ≤ room) (hr : 4 * room ≤ r)
    (hbody : (Passage.statement body isOpen).Rendered numeral l r) :
    (Passage.statement (increment.elim body fun e => .block [body, .expression e])
      isOpen).Rendered numeral l (r + 6) := by
  obtain ⟨isOpen', hopen, hbody⟩ := hbody
  cases increment with
  | none => exact ⟨isOpen', hopen, hbody.mono (Nat.le_add_right _ _)⟩
  | some e =>
    have he : Written (.statement (.expression e) false) l (room + 4)
        ((Stmt.expression e).tokens numeral) :=
      expression (Grammar.Written.rendered hnumeral h) rfl
    exact ⟨false, nofun, pair hbody.declared (he.mono (by omega)).declared⟩

/-- The first clause is a declaration. -/
theorem rendered_first {s : Stmt} (h : FirstWritten room (some s) ts) (hr : room + 6 ≤ r) :
    Written (.declaration s false) l r (s.tokens numeral) := by
  cases h with
  | var _ hs =>
    obtain ⟨us, hus, hs⟩ := hs.rendered hnumeral
    rw [hus]
    have hvar : Written (.declaration s false) l (room + 5) (.mark .varWord "var" :: us) :=
      var rfl (hs.mono (Nat.le_add_right room 2))
    exact hvar.mono (by omega)
  | @expression e _ _ he _ =>
    have he : Written (.statement (.expression e) false) l (room + 4)
        ((Stmt.expression e).tokens numeral) :=
      expression ((he.rendered hnumeral).mono (Nat.le_succ _)) rfl
    exact he.declared.mono hr

/-- **The loop that a `for` statement stands for** nests sixteen units deep around its body. -/
theorem rendered_forLoop {initial : Option Stmt} {test increment : Option Expr} {body : Stmt}
    {isOpen : Bool} {us vs : List Token} (hfirst : FirstWritten room initial ts)
    (htest : ClauseWritten (room + 1) test us) (hincrement : ClauseWritten (room + 1) increment vs)
    (hroom : 6 ≤ room) (hr : 4 * room ≤ r)
    (hbody : (Passage.statement body isOpen).Rendered numeral (l + 1) r) :
    (Passage.statement (.forLoop initial test increment body) isOpen).Rendered numeral l
      (r + 16) := by
  obtain ⟨isOpen', hopen, hturn⟩ := rendered_turn hnumeral hincrement hroom hr hbody
  have htest := rendered_test hnumeral htest hroom hr
  have hloop : Written (.statement (.forLoop none test increment body) isOpen') l (r + 10)
      ((Stmt.forLoop none test increment body).tokens numeral) := by
    cases increment <;> exact loop rfl rfl htest rfl hturn
  cases initial with
  | none => exact ⟨isOpen', hopen, hloop.mono (by omega)⟩
  | some s => exact ⟨false, nofun, pair (rendered_first hnumeral hfirst (by omega)) hloop.declared⟩

end
end Written

/-- **The rendering of what was read writes it**, in room stretched far enough. -/
theorem Written.rendered (hnumeral : ReadsBack numeral) {φ : Passage} {l room k : Nat}
    {ts : List Token} (h : φ.Written l room ts) (hk : Stretched k ts) :
    φ.Rendered numeral l (k * room) := by
  induction h with
  | @expression _ _ _ room _ he hsemicolon =>
    have he := (he.rendered hnumeral).mono (Nat.add_le_add_right (hk.le_mul room) 1)
    exact ⟨false, nofun, (expression he rfl).mono (hk.add_le _ _)⟩
  | @print _ _ _ _ room _ _ he _ =>
    have he := (he.rendered hnumeral).mono (Nat.add_le_add_right (hk.le_mul room) 1)
    exact ⟨false, nofun, (print rfl he rfl).mono (hk.add_le _ _)⟩
  | leave hkeyword hl _ => exact ⟨false, nofun, (leave hkeyword hl rfl).mono (hk.add_le _ _)⟩
  | @giveBack _ _ _ _ room _ hkeyword he _ =>
    have he := (he.rendered hnumeral).mono (Nat.add_le_add_right (hk.le_mul room) 4)
    exact ⟨false, nofun, (giveBack hkeyword he rfl).mono (hk.add_le _ _)⟩
  | @loop _ _ _ _ _ _ _ room _ _ _ _ htest _ _ ih =>
    obtain ⟨isOpen, hopen, hbody⟩ := ih (hk.part fun t ht => by simp [ht])
    have htest := (htest.rendered hnumeral).mono (Nat.add_le_add_right (hk.le_mul room) 1)
    exact ⟨isOpen, hopen, (loop rfl rfl htest rfl hbody).mono (hk.add_le _ _)⟩
  | @branch _ _ _ _ _ _ _ room _ _ _ _ htest _ _ ih =>
    obtain ⟨isOpen, -, hyes⟩ := ih (hk.part fun t ht => by simp [ht])
    obtain ⟨r, hr, hle⟩ := hk.inner room (m := 1) (n := 4) (by decide)
    rw [hr] at hyes
    have htest := (htest.rendered hnumeral).mono (hr ▸ hk.le_mul (room + 1))
    exact ⟨true, fun _ => rfl, (branch rfl rfl htest rfl hyes).mono hle⟩
  | @branchElse _ _ _ _ _ _ _ _ _ room _ _ _ _ _ htest _ _ _ _ ihy ihn =>
    obtain ⟨isOpen, hclosed, hyes⟩ := ihy (hk.part fun t ht => by simp [ht])
    cases isOpen with
    | true => exact absurd (hclosed rfl) Bool.false_ne_true
    | false =>
      obtain ⟨isOpen, hopen, hno⟩ := ihn (hk.part fun t ht => by simp [ht])
      obtain ⟨r, hr, hle⟩ := hk.inner room (m := 1) (n := 4) (by decide)
      rw [hr] at hyes hno
      have htest := (htest.rendered hnumeral).mono (hr ▸ hk.le_mul (room + 1))
      exact ⟨isOpen, hopen, (branchElse rfl rfl htest rfl hyes rfl hno).mono hle⟩
  | @forLoop _ _ _ _ _ _ _ _ _ _ room _ _ _ _ hkeyword _ hfirst htest _ hincrement _ hbody ih =>
    have hfour : 4 ≤ k := hk.resolve_right fun h => h.2 _ (by simp) hkeyword
    have hroom := hbody.six_le rfl
    have hloop := rendered_forLoop hnumeral hfirst htest hincrement hroom
      (Nat.mul_le_mul_right room hfour) (ih (hk.part fun t ht => by simp [ht]))
    exact hloop.mono (by rw [Nat.mul_add]; omega)
  | @block _ _ _ room _ _ _ ih =>
    have hbody := ih (hk.part fun t ht => by simp [ht])
    obtain ⟨r, hr, hle⟩ := hk.inner room (m := 2) (n := 4) (by decide)
    rw [hr] at hbody
    exact ⟨false, nofun, (block rfl hbody).mono hle⟩
  | @ofStatement _ _ _ room _ _ ih =>
    obtain ⟨isOpen, hopen, hs⟩ := ih hk
    obtain ⟨r, hr, hle⟩ := hk.inner room (m := 3) (n := 5) (by decide)
    rw [hr] at hs
    exact ⟨isOpen, hopen, (ofStatement hs).mono hle⟩
  | @var _ _ _ room _ _ hs =>
    obtain ⟨us, hus, hs⟩ := hs.rendered hnumeral
    obtain ⟨r, hr, hle⟩ := hk.inner room (m := 2) (n := 5) (by decide)
    have hs := hs.mono (hr ▸ hk.le_mul (room + 2))
    refine ⟨false, nofun, ?_⟩
    rw [Passage.tokens, hus]
    exact (var rfl hs).mono hle
  | @function _ _ _ room _ _ _ ih =>
    have hd := ih (hk.part fun t ht => by simp [ht])
    obtain ⟨r, hr, hle⟩ := hk.inner room (m := 1) (n := 5) (by decide)
    rw [hr] at hd
    exact ⟨false, nofun, (function rfl hd).mono hle⟩
  | @classDecl _ _ _ _ _ _ _ room _ _ _ hroom hname hsuper _ _ _ ih =>
    have hmethods := ih (hk.part fun t ht => by simp [ht])
    exact ⟨false, nofun, (classDecl rfl (Nat.le_trans hroom (hk.le_mul room)) hname hsuper.rendered
      rfl hmethods rfl).mono (hk.add_le _ _)⟩
  | noDeclarations => exact noDeclarations
  | moreDeclarations _ _ ih ihs =>
    obtain ⟨_, -, hs⟩ := ih (hk.part fun t ht => by simp [ht])
    exact moreDeclarations hs (ihs (hk.part fun t ht => by simp [ht]))
  | @body _ _ _ room _ hroom _ _ ih =>
    have hlist := ih (hk.part fun t ht => by simp [ht])
    exact (body (Nat.le_trans hroom (hk.le_mul room)) hlist rfl).mono (hk.add_le _ _)
  | functionDecl hname _ hparams _ _ _ ih =>
    have hbody := ih (hk.part fun t ht => by simp [ht])
    exact functionDecl hname rfl hparams.rendered rfl rfl hbody
  | noMethods => exact noMethods
  | moreMethods _ _ ih ihs =>
    exact moreMethods (ih (hk.part fun t ht => by simp [ht]))
      (ihs (hk.part fun t ht => by simp [ht]))

end Passage

/-! ## Whole programs -/

/-- The tokens of a program are read as no other. -/
theorem Passage.Written.unique {p p' : Program} {room room' : Nat} {ts : List Token}
    (h : Passage.Written (.declarations p) 0 room ts)
    (h' : Passage.Written (.declarations p') 0 room' ts) : p = p' := by
  have hread : Program.ofTokens (max room room') (ts ++ [.endAt 0]) = ⟨p, []⟩ :=
    (Program.ofTokens_iff rfl h.endless).mpr (h.mono (Nat.le_max_left ..))
  have hread' : Program.ofTokens (max room room') (ts ++ [.endAt 0]) = ⟨p', []⟩ :=
    (Program.ofTokens_iff rfl h.endless).mpr (h'.mono (Nat.le_max_right ..))
  exact congrArg Outcome.result (hread.symm.trans hread')

/-! ## Loops in loops -/

/-- The token of a variable `i`. -/
def counter : Token := ⟨.identifier, "i", 1⟩

/-- The expression `! … ! i`. -/
def negated : Nat → Expr
  | 0 => .name ⟨counter, none⟩
  | m + 1 => .unary ⟨.bang, "!", 1⟩ (negated m)

/-- The tokens of the expression `! … ! i`. -/
def negatedTokens : Nat → List Token
  | 0 => [counter]
  | m + 1 => ⟨.bang, "!", 1⟩ :: negatedTokens m

/-- The statement `for (i;;) … for (i;;) ! … ! i;`. -/
def waiting (m : Nat) : Nat → Stmt
  | 0 => .expression (negated m)
  | n + 1 => .forLoop (some (.expression (.name ⟨counter, none⟩))) none none (waiting m n)

/-- The tokens of the statement `for (i;;) … for (i;;) ! … ! i;`. -/
def waitingTokens (m : Nat) : Nat → List Token
  | 0 => negatedTokens m ++ [⟨.semicolon, ";", 1⟩]
  | n + 1 => [⟨.forWord, "for", 1⟩, ⟨.leftParen, "(", 1⟩, counter, ⟨.semicolon, ";", 1⟩,
      ⟨.semicolon, ";", 1⟩, ⟨.rightParen, ")", 1⟩] ++ waitingTokens m n

/-- A prefix operator takes two units of room. -/
theorem written_negated (m : Nat) :
    Written (.expr .expression (negated m)) (2 * m + 28) (negatedTokens m) := by
  have hunary : ∀ m, Written (.expr .unary (negated m)) (2 * m + 10) (negatedTokens m) := by
    intro m
    induction m with
    | zero => exact .tighter rfl <| .tighter rfl <| .atom rfl
    | succ m ih => exact .prefixed rfl ih
  exact .tighter rfl <| .tighter rfl <| .tighter rfl <| .tighter rfl <| .tighter rfl <|
    .tighter rfl <| .tighter rfl <| .tighter rfl <| .tighter rfl (hunary m)

/-- A `for` statement takes four units of room. -/
theorem written_waiting (m n l : Nat) :
    Passage.Written (.statement (waiting m n) false) l (2 * m + 31 + 4 * n)
      (waitingTokens m n) := by
  induction n generalizing l with
  | zero => exact .expression (written_negated m) rfl
  | succ n ih =>
    have hfirst : FirstWritten (2 * m + 31 + 4 * n) (some (.expression (.name ⟨counter, none⟩)))
        [counter, ⟨.semicolon, ";", 1⟩] :=
      .expression ((written_negated 0).mono (by omega)) rfl
    have habsent : ClauseWritten (2 * m + 31 + 4 * n + 1) none [] := rfl
    exact .forLoop rfl rfl hfirst habsent rfl habsent rfl (ih (l + 1))

/-- No expression takes less room for its prefix operators. -/
theorem Written.two_mul_le {m room : Nat} {t : Tier} {ts : List Token}
    (h : Written (.expr t (negated m)) room ts) : 2 * m ≤ room := by
  generalize hφ : Phrase.expr t (negated m) = φ at h
  induction h generalizing t m with
  | tighter _ _ ih =>
    cases hφ
    exact Nat.le_add_right_of_le (ih rfl)
  | prefixed _ _ ih =>
    cases m with
    | zero => cases hφ
    | succ m =>
      cases hφ
      have := ih rfl
      omega
  | @operator level => cases m <;> cases level <;> cases hφ
  | @assign target _ _ _ _ _ _ _ _ _ he => cases m <;> cases hφ <;> cases target <;> cases he
  | atom he =>
    cases m with
    | zero => exact Nat.zero_le _
    | succ m =>
      cases hφ
      rcases atom?_cases he with ⟨v, h⟩ | ⟨-, h⟩ | ⟨-, h⟩ <;> cases h
  | _ => cases m <;> cases hφ

namespace Passage.Written

variable {isOpen : Bool} {l room : Nat} {ts : List Token}

/-- A loop among declarations that is not written as a `for` statement has six units of room
around its body. -/
theorem of_loop {test : Expr} {body : Stmt}
    (h : Passage.Written (.declaration (.loop test body) isOpen) l room ts)
    (hfor : ∀ t ∈ ts, t.kind ≠ .forWord) :
    ∃ r us, room = r + 6 ∧ (∀ t ∈ us, t.kind ≠ .forWord) ∧
      Passage.Written (.statement body isOpen) (l + 1) r us := by
  cases h with
  | var _ h => cases h
  | ofStatement h =>
    generalize hφ : Passage.statement (.loop test body) isOpen = φ at h
    cases h with
    | forLoop hkeyword => exact absurd hkeyword (hfor _ (by simp))
    | loop _ _ _ _ hbody =>
      cases hφ
      exact ⟨_, _, rfl, fun t ht => hfor t (by simp [ht]), hbody⟩
    | _ => cases hφ

/-- A block that is not written as a `for` statement has four units of room around its
declarations. -/
theorem of_block {ss : List Stmt} (h : Passage.Written (.statement (.block ss) isOpen) l room ts)
    (hfor : ∀ t ∈ ts, t.kind ≠ .forWord) :
    ∃ r us, room = r + 4 ∧ (∀ t ∈ us, t.kind ≠ .forWord) ∧
      Passage.Written (.declarations ss) l r us := by
  generalize hφ : Passage.statement (.block ss) isOpen = φ at h
  cases h with
  | forLoop hkeyword => exact absurd hkeyword (hfor _ (by simp))
  | block _ hbody =>
    cases hφ
    cases hbody with
    | body _ hlist => exact ⟨_, _, rfl, fun t ht => hfor t (by simp [ht]), hlist⟩
  | _ => cases hφ

/-- Without a `for`, each of the loops takes ten units of room. -/
theorem ten_mul_le {m n : Nat} (h : Passage.Written (.statement (waiting m n) isOpen) l room ts)
    (hfor : ∀ t ∈ ts, t.kind ≠ .forWord) : 10 * n + 2 * m ≤ room := by
  induction n generalizing isOpen l room ts with
  | zero =>
    generalize hφ : Passage.statement (waiting m 0) isOpen = φ at h
    cases h with
    | forLoop hkeyword => exact absurd hkeyword (hfor _ (by simp))
    | expression he =>
      cases hφ
      have := he.two_mul_le
      omega
    | _ => cases hφ
  | succ n ih =>
    obtain ⟨r, us, rfl, hus, hlist⟩ := of_block h hfor
    cases hlist with
    | moreDeclarations _ hlist =>
      cases hlist with
      | moreDeclarations hloop _ =>
        obtain ⟨r', vs, rfl, hvs, hbody⟩ := of_loop hloop fun t ht => hus t (by simp [ht])
        have := ih hbody hvs
        omega

/-- Nor do they take less as a whole program. -/
theorem ten_mul_le_of_program {m n : Nat}
    (h : Passage.Written (.declarations [waiting m n]) l room ts)
    (hfor : ∀ t ∈ ts, t.kind ≠ .forWord) : 10 * n + 2 * m ≤ room := by
  cases h with
  | @moreDeclarations _ isOpen _ _ _ us _ h =>
    have hstatement : ∃ r, room = r + 2 ∧
        Passage.Written (.statement (waiting m n) isOpen) l r us := by
      cases n <;> cases h with
      | ofStatement h => exact ⟨_, rfl, h⟩
      | var _ h => cases h
    obtain ⟨r, rfl, hloops⟩ := hstatement
    have := hloops.ten_mul_le fun t ht => hfor t (by simp [ht])
    omega

end Passage.Written

/-- There is no `for` in the rendering of a loop. -/
theorem tokens_waiting (numeral : Float → String) (m n : Nat) :
    ∀ t ∈ (waiting m n).tokens numeral, t.kind ≠ .forWord := by
  induction n with
  | zero =>
    have hnegated : ∀ t ∈ (negated m).tokens numeral, t.kind ≠ .forWord := by
      induction m with
      | zero => simp [negated, Expr.tokens, counter]
      | succ m ih => simpa [negated, Expr.tokens] using ih
    simpa [waiting, Stmt.tokens, Token.mark, or_imp, forall_and] using hnegated
  | succ n ih =>
    simpa [waiting, Stmt.forLoop, Stmt.tokens, Stmt.tokensOfList, Expr.tokens, Literal.token,
      Token.mark, counter, or_imp, forall_and] using ih

end Grammar

open Grammar

/-- What is read without a fault is written by the tokens in front of the closing one. -/
theorem Program.written_of_ofTokens {room : Nat} {ts : List Token} {z : Token} (hz : z.isEnd)
    (hts : ∀ t ∈ ts, t.isEnd = false) (h : (Program.ofTokens room (ts ++ [z])).diagnostics = []) :
    Passage.Written (.declarations (Program.ofTokens room (ts ++ [z])).result) 0 room ts :=
  (ofTokens_iff hz hts).mp (show Program.ofTokens room (ts ++ [z]) = _ by rw [← h])

/-- **Reading what was rendered.**  If tokens are read as a program with no fault, then the
rendering of the program, on whatever lines, is read as the same program or with a fault.  There is
no fault in four times the room, and none in the same room unless there was a `for` statement. -/
theorem Program.ofTokens_rendered {numeral : Float → String} (hnumeral : ReadsBack numeral)
    {room room' : Nat} {p : Program} {ts ts' beyond : List Token} {z z' : Token} (hz : z.isEnd)
    (hts : ∀ t ∈ ts, t.isEnd = false) (hread : Program.ofTokens room (ts ++ z :: beyond) = ⟨p, []⟩)
    (hrendered : Relined (p.tokens numeral) ts') (hz' : z'.isEnd) :
    ((Program.ofTokens room' (ts' ++ [z'])).diagnostics = [] →
      Stmt.unlinedAll (Program.ofTokens room' (ts' ++ [z'])).result = Stmt.unlinedAll p) ∧
    (4 * room ≤ room' ∨ room ≤ room' ∧ (∀ t ∈ ts, t.kind ≠ .forWord) →
      (Program.ofTokens room' (ts' ++ [z'])).diagnostics = []) := by
  have hwritten := (ofTokens_iff hz hts).mp hread
  have hagain {k : Nat} (hk : Passage.Stretched k ts) :
      ∃ p', Stmt.unlinedAll p' = Stmt.unlinedAll p ∧
        Passage.Written (.declarations p') 0 (k * room) ts' :=
    (hwritten.rendered hnumeral hk).relined hrendered
  obtain ⟨p', hsame, hwritten'⟩ := hagain (.inl (Nat.le_refl 4))
  constructor
  · intro hnil
    rw [(written_of_ofTokens hz' hwritten'.endless hnil).unique hwritten', hsame]
  · intro hroom
    have hfits : Passage.Written (.declarations p') 0 room' ts' := by
      rcases hroom with hroom | ⟨hroom, hfor⟩
      · exact hwritten'.mono hroom
      · obtain ⟨p'', -, hwritten''⟩ := hagain (.inr ⟨Nat.le_refl 1, hfor⟩)
        rw [hwritten'.unique hwritten'']
        exact hwritten''.mono (by omega)
    rw [(ofTokens_iff hz' hwritten'.endless).mpr hfits]

/-- The tokens of `for (i;;) if (i) break;`. -/
def breaking : List Token :=
  [⟨.forWord, "for", 1⟩, ⟨.leftParen, "(", 1⟩, counter, ⟨.semicolon, ";", 1⟩,
    ⟨.semicolon, ";", 1⟩, counter, ⟨.rightParen, ")", 1⟩, ⟨.ifWord, "if", 1⟩,
    ⟨.leftParen, "(", 1⟩, counter, ⟨.rightParen, ")", 1⟩, ⟨.breakWord, "break", 1⟩,
    ⟨.semicolon, ";", 1⟩]

/-- A `for` statement is read again from the block and the loop it stands for. -/
theorem Program.ofTokens_rendered_of_breaking : ∃ numeral p p', ReadsBack numeral ∧
    Program.ofTokens 40 (breaking ++ [.endAt 1]) = ⟨p, []⟩ ∧
    Program.ofTokens 160 (p.tokens numeral ++ [.endAt 1]) = ⟨p', []⟩ ∧
    Stmt.unlinedAll p' = Stmt.unlinedAll p := by
  obtain ⟨numeral, hnumeral⟩ := exists_readsBack
  have hread : Program.ofTokens 40 (breaking ++ [.endAt 1]) =
      ⟨(Program.ofTokens 40 (breaking ++ [.endAt 1])).result, []⟩ := by rfl
  have hagain := @Program.ofTokens_rendered numeral hnumeral 40 160 _ breaking _ [] (.endAt 1)
    (.endAt 1) rfl (by decide) hread rfl rfl
  have hnil := hagain.2 (.inl (Nat.le_refl 160))
  exact ⟨numeral, _, _, hnumeral, hread, by rw [← hnil], hagain.1 hnil⟩

/-- **Rendered loops may nest too deeply** where the `for` statements they came from do not. -/
theorem Program.ofTokens_rendered_of_waiting :
    Program.ofTokens Limits.standard.room (waitingTokens 12500 2000 ++ [.endAt 1]) =
        ⟨[waiting 12500 2000], []⟩ ∧
      ∀ numeral, ReadsBack numeral → (Program.ofTokens Limits.standard.room
        (Program.tokens numeral [waiting 12500 2000] ++ [.endAt 1])).diagnostics ≠ [] := by
  have hroom : Limits.standard.room = 39995 := rfl
  have hwritten : Passage.Written (.declarations [waiting 12500 2000]) 0 33033
      (waitingTokens 12500 2000) := by
    have hlist := Passage.Written.moreDeclarations
      (written_waiting 12500 2000 0).declared .noDeclarations
    rwa [List.append_nil] at hlist
  constructor
  · exact (ofTokens_iff rfl hwritten.endless).mpr (hwritten.mono (by omega))
  · intro numeral hnumeral hnil
    have hrendered := hwritten.rendered hnumeral (k := 4) (.inl (Nat.le_refl 4))
    have hagain := written_of_ofTokens rfl hrendered.endless hnil
    rw [hagain.unique hrendered, Passage.tokens, hroom] at hagain
    have htokens : ∀ t ∈ Program.tokens numeral [waiting 12500 2000], t.kind ≠ .forWord := by
      simpa [Program.tokens, Stmt.tokensOfList] using tokens_waiting numeral 12500 2000
    have := hagain.ten_mul_le_of_program htokens
    omega

end LoxKit
