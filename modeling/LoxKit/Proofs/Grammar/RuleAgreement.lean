import LoxKit.Proofs.Grammar.Agreement
import LoxKit.Proofs.Grammar.Echo
import LoxKit.Proofs.Grammar.Written

/-!
# What a rule reads

Every rule of the grammar agrees with itself in other surroundings (`Sides.Agree`), at any two
bounds on repetitions that are greater than the number of tokens ahead, and reads at least one
token.  It can be cut off for want of room only if it has less than 24 units for each token ahead
and some more at the end, which is what rules nest between two tokens.

Expressions hold no semicolon of their own, so the rules for them agree in front of a semicolon
and at the end of a list.  Statements are compared at the end of a list.
-/
namespace LoxKit
namespace Grammar

variable {α : Type}

/-- The room in which a rule for expressions is read, at the last token. -/
def Tier.base : Tier → Nat
  | expression => 28
  | conditional => 26
  | assignment => 24
  | operators level => level.base
  | unary => 10
  | call => 8
  | primary => 6

theorem Tier.six_le_base (tier : Tier) : 6 ≤ tier.base := by
  cases tier with
  | operators level => cases level <;> decide
  | _ => decide

theorem Level.base_eq (level : Level) : level.base = (Tier.operand level).base + 2 := by
  cases level <;> rfl

/-- **A declaration from which nothing recovers yet.** -/
def declared (width room : Nat) : Reader Stmt := do
  need (room + 3)
  if ← accept .classWord then
    classDecl width (room + 2) (functionDecl width room .method (block width room))
  else if ← accept .funWord then
    return .function (← functionDecl width (room + 1) .function (block width (room + 1)))
  else if ← accept .varWord then
    variableDecl width (room + 2)
  else statement width (room + 3)

theorem declaration_eq (width room : Nat) :
    declaration width (room + 5) = orResume (declared width room) := by
  rw [declaration]
  rfl

namespace Sides

/-- **A rule agrees with another** in front of so many tokens and fewer. -/
def RuleAgrees (S : Sides) (most room base : Nat) (p q : Reader α) : Prop :=
  ∀ m ≤ most, S.Agree m (room < 24 * m + base) p q fun _ k => k < m

variable {S : Sides} {w w' most room : Nat}

namespace RuleAgrees

variable {base m : Nat} {deep : Prop} {p q : Reader α}

theorem within (h : S.RuleAgrees most room base p q) (hm : m ≤ most)
    (hdeep : room < 24 * m + base → deep) : S.Agree m deep p q fun _ k => k < m :=
  (h m hm).mono hdeep fun _ _ hk => hk

theorem of_tooDeep (h : room < base) :
    S.RuleAgrees most room base (MonadExcept.throw Halt.tooDeep : Reader α)
      (MonadExcept.throw Halt.tooDeep) :=
  fun _ _ => .tooDeep (by omega)

end RuleAgrees

/-! ## The rules for expressions -/

/-- The rules for expressions agree. -/
def TiersAgree (S : Sides) (w w' most room : Nat) : Prop :=
  ∀ tier : Tier, S.RuleAgrees most room tier.base (tier.read w room) (tier.read w' room)

namespace TiersAgree

theorem expression_succ (h : S.TiersAgree w w' most room) (hw : most < w) (hw' : most < w') :
    S.RuleAgrees most (room + 2) 28 (Grammar.expression w (room + 2))
      (Grammar.expression w' (room + 2)) := by
  intro m hm
  have hitem : ∀ k ≤ m, S.Agree k (room + 2 < 24 * m + 28) (Grammar.conditional w room)
      (Grammar.conditional w' room) fun _ i => i < k := fun k hk =>
    (h .conditional).within (by omega) fun (hroom : room < 24 * k + 26) => by omega
  refine (hitem m (Nat.le_refl m)).bind fun first k _ hk => ?_
  refine (Agree.chain (spares rfl) .binary hitem w w' first k (by omega) (by omega)
    (by omega)).mono id ?_
  exact fun _ i hi => by omega

theorem conditional_succ (h : S.TiersAgree w w' most room) :
    S.RuleAgrees most (room + 2) 26 (Grammar.conditional w (room + 2))
      (Grammar.conditional w' (room + 2)) := by
  intro m hm
  have hbranch : ∀ k < m, S.Agree k (room + 2 < 24 * m + 26) (Grammar.conditional w room)
      (Grammar.conditional w' room) fun _ i => i < k := fun k hk =>
    (h .conditional).within (by omega) fun (hroom : room < 24 * k + 26) => by omega
  refine ((h .assignment).within hm fun (hroom : room < 24 * m + 24) => by omega).bind
    fun test k _ hk => ?_
  refine (Agree.accept (spares_kind (by decide))).bind fun isTernary i _ hi =>
    .ite (fun hternary => ?_) fun _ => .pure (by omega)
  have hlt := hi.2 hternary
  refine (hbranch i (by omega)).bind fun yes j _ hj => ?_
  refine (Agree.expect (spares_kind (by decide)) _).bind fun _ l _ hl => ?_
  exact (hbranch l (by omega)).bind fun no l' _ hl' => .pure (by omega)

theorem assignment_succ (h : S.TiersAgree w w' most room) :
    S.RuleAgrees most (room + 2) 24 (Grammar.assignment w (room + 2))
      (Grammar.assignment w' (room + 2)) := by
  intro m hm
  refine ((h (.operators .either)).within hm
    fun (hroom : room < 24 * m + 22) => by omega).bind fun target k _ hk => ?_
  refine (Agree.accept? (spares rfl)).bind fun equals i _ hi => ?_
  cases equals with
  | none => exact .pure (by omega)
  | some equals =>
    have hlt := (hi.2 equals rfl).1
    refine ((h .conditional).within (by omega)
      fun (hroom : room < 24 * i + 26) => by omega).bind fun value j _ hj => ?_
    cases assigned? value target with
    | some e => exact .pure (by omega)
    | none =>
      refine (Agree.blame equals .invalidTarget).bind ?_
      rintro _ _ - rfl
      exact .pure (by omega)

theorem binary_succ (h : S.TiersAgree w w' most room) (hw : most < w) (hw' : most < w')
    (level : Level) :
    S.RuleAgrees most (room + 2) level.base (Grammar.binary w (room + 2) level)
      (Grammar.binary w' (room + 2) level) := by
  intro m hm
  have hbase := level.base_eq
  have hoperators : level.operators .semicolon = false := by cases level <;> rfl
  have hoperand : ∀ k ≤ m, S.Agree k (room + 2 < 24 * m + level.base)
      ((Tier.operand level).read w room) ((Tier.operand level).read w' room) fun _ i => i < k :=
    fun k hk => (h (.operand level)).within (by omega) fun hroom => by omega
  rw [Tier.binary_eq, Tier.binary_eq]
  refine (hoperand m (Nat.le_refl m)).bind fun first k _ hk => ?_
  refine (Agree.chain (spares hoperators) level.node hoperand w w' first k (by omega) (by omega)
    (by omega)).mono id ?_
  exact fun _ i hi => by omega

theorem unary_succ (h : S.TiersAgree w w' most room) :
    S.RuleAgrees most (room + 2) 10 (Grammar.unary w (room + 2)) (Grammar.unary w' (room + 2)) := by
  intro m hm
  refine (Agree.need fun (hroom : room < 4) => by omega).bind ?_
  rintro _ m - rfl
  refine (Agree.accept? (spares rfl)).bind fun op i _ hi => ?_
  cases op with
  | none =>
    refine ((h .call).within (by omega) fun (hroom : room < 24 * i + 8) => by omega).mono id ?_
    exact fun _ j hj => by omega
  | some op =>
    have hlt := (hi.2 op rfl).1
    exact ((h .unary).within (by omega) fun (hroom : room < 24 * i + 10) => by omega).bind
      fun operand j _ hj => .pure (by omega)

theorem call_succ (h : S.TiersAgree w w' most room) (h' : S.TiersAgree w w' most (room + 1))
    (hw : most < w) (hw' : most < w') :
    S.RuleAgrees most (room + 3) 8 (Grammar.call w (room + 3)) (Grammar.call w' (room + 3)) := by
  intro m hm
  refine ((h' .primary).within hm fun (hroom : room + 1 < 24 * m + 6) => by omega).bind
    fun target k _ hk => ?_
  -- the arguments are behind at least one token
  have hargument : ∀ i < m, S.Agree i (room + 3 < 24 * m + 8) (Grammar.conditional w room)
      (Grammar.conditional w' room) fun _ j => j < i := fun i hi =>
    (h .conditional).within (by omega) fun (hroom : room < 24 * i + 26) => by omega
  refine (Agree.suffixes (n := k) (fun i hi => hargument i (by omega)) (by omega) (by omega) w w'
    target k (Nat.le_refl k) (by omega) (by omega)).mono id ?_
  exact fun _ j hj => by omega

theorem primary_succ (h : S.TiersAgree w w' most room) :
    S.RuleAgrees most (room + 2) 6 (Grammar.primary w (room + 2))
      (Grammar.primary w' (room + 2)) := by
  intro m hm
  refine (Agree.need fun (hroom : room < 4) => by omega).bind ?_
  rintro _ m - rfl
  refine (Agree.accept? (spares rfl)).bind fun atom i _ hi => ?_
  cases atom with
  | some t => exact .pure (hi.2 t rfl).1
  | none =>
    refine (Agree.accept? (spares rfl)).bind fun keyword j _ hj => ?_
    cases keyword with
    | some keyword =>
      have hlt := (hj.2 keyword rfl).1
      refine (Agree.expect (spares_kind (by decide)) _).bind fun _ l _ hl => ?_
      exact (Agree.expect (spares_kind (by decide)) _).bind fun method l' _ hl' => .pure (by omega)
    | none =>
      refine (Agree.accept (spares_kind (by decide))).bind fun isGroup l _ hl =>
        .ite (fun hgroup => ?_) fun _ => .fail _
      have hlt := hl.2 hgroup
      refine ((h .expression).within (by omega)
        fun (hroom : room < 24 * l + 28) => by omega).bind fun inner l' _ hl' => ?_
      exact (Agree.expect (spares_kind (by decide)) _).bind fun _ l'' _ hl'' => .pure (by omega)

end TiersAgree

/-- **Every rule for expressions agrees with itself** at another width. -/
theorem tiersAgree (S : Sides) (hw : most < w) (hw' : most < w') (room : Nat) :
    S.TiersAgree w w' most room := by
  induction room using Nat.strongRecOn with
  | ind room ih =>
    match room with
    | 0 | 1 =>
      intro tier
      have hroom := tier.six_le_base
      cases tier <;> exact .of_tooDeep (by omega)
    | room + 2 =>
      have h := ih room (by omega)
      intro tier
      cases tier with
      | expression => exact h.expression_succ hw hw'
      | conditional => exact h.conditional_succ
      | assignment => exact h.assignment_succ
      | operators level => exact h.binary_succ hw hw' level
      | unary => exact h.unary_succ
      | primary => exact h.primary_succ
      | call =>
        cases room with
        | zero => exact .of_tooDeep (by decide)
        | succ room => exact (ih room (by omega)).call_succ (ih (room + 1) (by omega)) hw hw'

/-- A full expression. -/
theorem expressionAgrees (hw : most < w) (hw' : most < w') (room : Nat) :
    S.RuleAgrees most room 28 (expression w room) (expression w' room) :=
  S.tiersAgree hw hw' room .expression

/-- An expression without a bare comma. -/
theorem conditionalAgrees (hw : most < w) (hw' : most < w') (room : Nat) :
    S.RuleAgrees most room 26 (conditional w room) (conditional w' room) :=
  S.tiersAgree hw hw' room .conditional

/-! ## Functions and classes -/

section Parts

variable {m : Nat} {deep : Prop}

/-- A function agrees if its body does, which is behind at least one token. -/
theorem functionAgrees (hw : most < w) (hw' : most < w') (kind : FunctionKind)
    {body body' : Reader (List Stmt)} (hm : m ≤ most) (hroom : room < lookRoom → deep)
    (hbody : ∀ k < m, S.Agree k deep body body' fun _ i => i < k) :
    S.Agree m deep (functionDecl w room kind body) (functionDecl w' room kind body')
      fun _ k => k < m := by
  refine (Agree.need hroom).bind ?_
  rintro _ m - rfl
  refine (Agree.expect (spares_kind (by decide)) _).bind fun name i _ hi => ?_
  refine (Agree.expect (spares_kind (by decide)) _).bind fun _ j _ hj => ?_
  have hparam : ∀ k ≤ j, S.Agree k deep (expect .identifier "parameter name")
      (expect .identifier "parameter name") fun _ i => i < k :=
    fun _ _ => .expect (spares_kind (by decide)) _
  have hparams := Agree.commaList "parameters" hparam w w' [] j (Nat.le_refl j) (by omega)
    (by omega)
  refine (Agree.unless? .rightParen (hparams.mono id fun _ _ hk => Nat.le_of_lt hk)).bind
    fun params k _ hk => ?_
  refine (Agree.expect (spares_kind (by decide)) _).bind fun _ k' _ hk' => ?_
  refine (Agree.expect (spares_kind (by decide)) _).bind fun _ l _ hl => ?_
  exact (Agree.withLoops _ (hbody l (by omega))).bind fun ss _ _ hlt => .pure (by omega)

/-- An expression that may be left out in front of a token. -/
theorem clauseAgrees (hw : most < w) (hw' : most < w') (room : Nat) (kind : TokenKind)
    (hm : m ≤ most) (hdeep : room < 24 * m + 28 → deep) :
    S.Agree m deep (unless? kind (expression w room)) (unless? kind (expression w' room))
      fun _ k => k ≤ m :=
  .unless? kind (((S.expressionAgrees hw hw' room).within hm hdeep).mono id
    fun _ _ hlt => Nat.le_of_lt hlt)

variable (hend : S.stop.isEnd)
include hend

/-- A class agrees if its methods do, which are behind at least one token. -/
theorem classAgrees (hw : most < w) (hw' : most < w') {method method' : Reader FunDecl}
    (hm : m ≤ most) (hroom : room < lookRoom → deep)
    (hmethod : ∀ k < m, S.Agree k deep method method' fun _ i => i < k) :
    S.Agree m deep (classDecl w room method) (classDecl w' room method') fun _ k => k < m := by
  refine (Agree.need hroom).bind ?_
  rintro _ m - rfl
  refine (Agree.expect (spares_kind (by decide)) _).bind fun name i _ hi => ?_
  refine (Agree.behind? (spares_kind (by decide)) fun k _ =>
    (Agree.expect (spares_kind (by decide)) _).mono id fun _ _ hlt => Nat.le_of_lt hlt).bind
      fun superclass j _ hj => ?_
  refine (Agree.expect (spares_kind (by decide)) _).bind fun _ k _ hk => ?_
  have hmethods := Agree.untilBrace (n := k) hend (fun i hi => (hmethod i (by omega)).bind
    fun d _ _ hlt => .pure (Q := fun _ i' => i' ≤ i - 1) (a := some d) (by omega)) w w' [] k
      (Nat.le_refl k) (by omega) (by omega)
  refine hmethods.bind fun methods l _ hl => ?_
  exact (Agree.expect (spares_kind (by decide)) _).bind fun _ _ _ hlt => .pure (by omega)

/-! ## The rules for statements -/

theorem expressionStatementAgrees (hw : most < w) (hw' : most < w') (room : Nat) :
    S.RuleAgrees most room 28 (expressionStatement w room) (expressionStatement w' room) := by
  intro m hm
  exact (S.expressionAgrees hw hw' room m hm).bind fun e k _ hk =>
    (Agree.expect (.inl hend) _).bind fun _ _ _ hlt => .pure (by omega)

theorem variableAgrees (hw : most < w) (hw' : most < w') (room : Nat) :
    S.RuleAgrees most room 4 (variableDecl w room) (variableDecl w' room) := by
  intro m hm
  refine (Agree.need fun (hroom : room < 4) => by omega).bind ?_
  rintro _ m - rfl
  refine (Agree.expect (spares_kind (by decide)) _).bind fun name i _ hi => ?_
  refine (Agree.behind? (spares_kind (by decide)) fun k hk =>
    ((S.conditionalAgrees hw hw' room).within (m := k) (by omega) fun hroom => by omega).mono id
      fun _ _ hlt => Nat.le_of_lt hlt).bind fun initial j _ hj => ?_
  exact (Agree.expect (.inl hend) _).bind fun _ _ _ hlt => .pure (by omega)

theorem forInitialAgrees (hw : most < w) (hw' : most < w') (room : Nat) :
    S.RuleAgrees most room 28 (forInitial w room) (forInitial w' room) := by
  intro m hm
  refine (Agree.accept (.inl hend)).bind fun empty i _ hi =>
    .ite (fun hempty => .pure (hi.2 hempty)) fun _ => ?_
  refine (Agree.accept (spares_kind (by decide))).bind fun isVar j _ hj =>
    .ite (fun hvar => ?_) fun _ => ?_
  · have hlt := hj.2 hvar
    exact ((variableAgrees hend hw hw' room).within (by omega) fun hroom => by omega).bind
      fun s _ _ hlt => .pure (by omega)
  · exact ((expressionStatementAgrees hend hw hw' room).within (by omega)
      fun hroom => by omega).bind fun s _ _ hlt => .pure (by omega)

end Parts

/-- The rules for statements agree. -/
structure StatementsAgree (S : Sides) (w w' most room : Nat) : Prop where
  declaration : ∀ m ≤ most, S.Agree m (room < 24 * m + 33) (declaration w room)
    (declaration w' room) fun _ k => k ≤ m - 1
  statement : S.RuleAgrees most room 31 (statement w room) (statement w' room)
  block : S.RuleAgrees most room 35 (block w room) (block w' room)

namespace StatementsAgree

variable (hend : S.stop.isEnd)
include hend

theorem statement_succ (hw : most < w) (hw' : most < w') (h : S.StatementsAgree w w' most room)
    (h₁ : S.StatementsAgree w w' most (room + 1)) (h₂ : S.StatementsAgree w w' most (room + 2)) :
    S.RuleAgrees most (room + 4) 31 (Grammar.statement w (room + 4))
      (Grammar.statement w' (room + 4)) := by
  intro m hm
  unfold Grammar.statement
  refine (Agree.need fun (hroom : room + 2 < 4) => by omega).bind ?_
  rintro _ m - rfl
  -- the body of a loop, and an arm
  have hbody : ∀ k < m, S.Agree k (room + 4 < 24 * m + 31) (Grammar.statement w room)
      (Grammar.statement w' room) fun _ i => i < k := fun k hk =>
    h.statement.within (by omega) fun hroom => by omega
  have harm : ∀ k < m, S.Agree k (room + 4 < 24 * m + 31) (Grammar.statement w (room + 1))
      (Grammar.statement w' (room + 1)) fun _ i => i < k := fun k hk =>
    h₁.statement.within (by omega) fun hroom => by omega
  have hexpression : ∀ k ≤ m, S.Agree k (room + 4 < 24 * m + 31) (expression w (room + 1))
      (expression w' (room + 1)) fun _ i => i < k := fun k hk =>
    (S.expressionAgrees hw hw' (room + 1)).within (by omega) fun hroom => by omega
  have hclause : ∀ kind, ∀ k ≤ m, S.Agree k (room + 4 < 24 * m + 31)
      (unless? kind (expression w (room + 1))) (unless? kind (expression w' (room + 1)))
      fun _ i => i ≤ k := fun kind k hk =>
    S.clauseAgrees hw hw' (room + 1) kind (by omega) fun hroom => by omega
  have hneed : ∀ k, S.Agree k (room + 4 < 24 * m + 31) (need (room + 1)) (need (room + 1))
      fun _ i => i = k := fun k => .need fun (hroom : room + 1 < 4) => by omega
  refine (Agree.accept? (spares rfl)).bind fun keyword i _ hi => ?_
  cases keyword with
  | none =>
    refine ((expressionStatementAgrees hend hw hw' (room + 1)).within (by omega)
      fun hroom => by omega).mono id ?_
    exact fun _ _ hlt => by omega
  | some keyword =>
    have hlt := (hi.2 keyword rfl).1
    dsimp only
    split
    · -- `break`
      refine (hneed i).bind ?_
      rintro _ _ - rfl
      refine .get (fun c d hloops => by rw [hloops]) fun c => .ite (fun _ => ?_) fun _ => ?_
      · refine (Agree.blame keyword .strayBreak).bind ?_
        rintro _ _ - rfl
        exact (Agree.expect (.inl hend) _).bind fun _ k _ hk => .pure (by omega)
      · exact (Agree.expect (.inl hend) _).bind fun _ k _ hk => .pure (by omega)
    · -- `for`
      refine (hneed i).bind ?_
      rintro _ i - rfl
      refine (Agree.expect (spares_kind (by decide)) _).bind fun _ j _ hj => ?_
      refine ((forInitialAgrees hend hw hw' room).within (by omega) fun hroom => by omega).bind
        fun initial k _ hk => ?_
      refine (hclause .semicolon k (by omega)).bind fun test k _ hk => ?_
      refine (Agree.expect (.inl hend) _).bind fun _ k _ hk => ?_
      refine (hclause .rightParen k (by omega)).bind fun increment k _ hk => ?_
      refine (Agree.expect (spares_kind (by decide)) _).bind fun _ k _ hk => ?_
      exact (Agree.withLoops _ (hbody k (by omega))).bind fun body _ _ hlt => .pure (by omega)
    · -- `if`
      refine (hneed i).bind ?_
      rintro _ i - rfl
      refine (Agree.expect (spares_kind (by decide)) _).bind fun _ j _ hj => ?_
      refine (hexpression j (by omega)).bind fun test k _ hk => ?_
      refine (Agree.expect (spares_kind (by decide)) _).bind fun _ k _ hk => ?_
      refine (harm k (by omega)).bind fun yes k _ hk => ?_
      exact (Agree.behind? (spares_kind (by decide)) fun j hj =>
        (harm j (by omega)).mono id fun _ _ hlt => Nat.le_of_lt hlt).bind
          fun no _ _ hle => .pure (by omega)
    · -- `print`
      refine (hexpression i (by omega)).bind fun e k _ hk => ?_
      exact (Agree.expect (.inl hend) _).bind fun _ _ _ hlt => .pure (by omega)
    · -- `return`
      refine (hclause .semicolon i (by omega)).bind fun e k _ hk => ?_
      refine (hneed k).bind ?_
      rintro _ k - rfl
      exact (Agree.expect (.inl hend) _).bind fun _ _ _ hlt => .pure (by omega)
    · -- `while`
      refine (hneed i).bind ?_
      rintro _ i - rfl
      refine (Agree.expect (spares_kind (by decide)) _).bind fun _ j _ hj => ?_
      refine (hexpression j (by omega)).bind fun test k _ hk => ?_
      refine (Agree.expect (spares_kind (by decide)) _).bind fun _ k _ hk => ?_
      exact (Agree.withLoops _ (hbody k (by omega))).bind fun body _ _ hlt => .pure (by omega)
    · -- a block
      exact (h₂.block.within (by omega) fun hroom => by omega).bind
        fun ss k _ hk => .pure (by omega)

theorem block_succ (hw : most < w) (hw' : most < w') (h : S.StatementsAgree w w' most room) :
    S.RuleAgrees most (room + 2) 35 (Grammar.block w (room + 2))
      (Grammar.block w' (room + 2)) := by
  intro m hm
  unfold Grammar.block
  refine (Agree.need fun (hroom : room < 4) => by omega).bind ?_
  rintro _ m - rfl
  have hitem : ∀ k ≤ m, S.Agree k (room + 2 < 24 * m + 35) (Grammar.declaration w room)
      (Grammar.declaration w' room) fun _ i => i ≤ k - 1 := fun k hk =>
    (h.declaration k (by omega)).mono (fun hroom => by omega) fun _ _ hi => hi
  refine (Agree.untilBrace hend hitem w w' [] m (Nat.le_refl m) (by omega) (by omega)).bind
    fun ss k _ hk => ?_
  exact (Agree.expect (spares_kind (by decide)) _).bind fun _ _ _ hlt => .pure (by omega)

theorem declared_succ (hw : most < w) (hw' : most < w') (h : S.StatementsAgree w w' most room)
    (h₁ : S.StatementsAgree w w' most (room + 1)) (h₃ : S.StatementsAgree w w' most (room + 3)) :
    S.RuleAgrees most (room + 5) 33 (declared w room) (declared w' room) := by
  intro m hm
  unfold declared
  refine (Agree.need fun (hroom : room + 3 < 4) => by omega).bind ?_
  rintro _ m - rfl
  refine (Agree.accept (spares_kind (by decide))).bind fun isClass i _ hi =>
    .ite (fun hclass => ?_) fun _ => ?_
  · have hlt := hi.2 hclass
    have hmethod : ∀ k < i, S.Agree k (room + 5 < 24 * m + 33)
        (functionDecl w room .method (Grammar.block w room))
        (functionDecl w' room .method (Grammar.block w' room)) fun _ j => j < k := fun k hk =>
      functionAgrees hw hw' .method (by omega) (fun (hroom : room < 4) => by omega) fun j hj =>
        h.block.within (by omega) fun hroom => by omega
    refine (classAgrees hend hw hw' (by omega) (fun (hroom : room + 2 < 4) => by omega)
      hmethod).mono id ?_
    exact fun _ _ hk => by omega
  refine (Agree.accept (spares_kind (by decide))).bind fun isFunction j _ hj =>
    .ite (fun hfunction => ?_) fun _ => ?_
  · have hlt := hj.2 hfunction
    exact (functionAgrees hw hw' .function (by omega) (fun (hroom : room + 1 < 4) => by omega)
      fun k hk => h₁.block.within (by omega) fun hroom => by omega).bind
        fun d _ _ hk => .pure (by omega)
  refine (Agree.accept (spares_kind (by decide))).bind fun isVariable k _ hk =>
    .ite (fun hvariable => ?_) fun _ => ?_
  · have hlt := hk.2 hvariable
    refine ((variableAgrees hend hw hw' (room + 2)).within (by omega)
      fun hroom => by omega).mono id ?_
    exact fun _ _ hl => by omega
  · refine (h₃.statement.within (by omega) fun hroom => by omega).mono id ?_
    exact fun _ _ hl => by omega

end StatementsAgree

/-- **Every rule for statements agrees with itself** at another width, at the end of a list. -/
theorem statementsAgree (hend : S.stop.isEnd) (hw : most < w) (hw' : most < w') (room : Nat) :
    S.StatementsAgree w w' most room := by
  induction room using Nat.strongRecOn with
  | ind room ih =>
    refine ⟨fun m hm => ?_, ?_, ?_⟩
    · match room with
      | 0 | 1 | 2 | 3 | 4 => exact .tooDeep (by omega)
      | room + 5 =>
        rw [declaration_eq, declaration_eq]
        exact .orResume hend <| StatementsAgree.declared_succ hend hw hw' (ih room (by omega))
          (ih (room + 1) (by omega)) (ih (room + 3) (by omega)) m hm
    · match room with
      | 0 | 1 | 2 | 3 => exact .of_tooDeep (by decide)
      | room + 4 =>
        exact StatementsAgree.statement_succ hend hw hw' (ih room (by omega))
          (ih (room + 1) (by omega)) (ih (room + 2) (by omega))
    · match room with
      | 0 | 1 => exact .of_tooDeep (by decide)
      | room + 2 => exact StatementsAgree.block_succ hend hw hw' (ih room (by omega))

/-! ## The top level -/

section TopLevel

variable (hend : S.stop.isEnd)
include hend

/-- A declaration from which nothing recovers yet. -/
theorem declaredAgrees (hw : most < w) (hw' : most < w') (room : Nat) :
    S.RuleAgrees most (room + 5) 33 (declared w room) (declared w' room) :=
  StatementsAgree.declared_succ hend hw hw' (S.statementsAgree hend hw hw' room)
    (S.statementsAgree hend hw hw' (room + 1)) (S.statementsAgree hend hw hw' (room + 3))

/-- A declaration at the top level is never cut off. -/
theorem topLevelAgrees (hw : most < w) (hw' : most < w') (room : Nat) {m : Nat} (hm : m ≤ most) :
    S.Agree m False (topLevel w room) (topLevel w' room) fun _ k => k ≤ m - 1 :=
  .orGiveUp hend ((S.statementsAgree hend hw hw' room).declaration m hm)

theorem topLevels_loopsAgree {n : Nat} {deep : Prop} (hw : n < w) (hw' : n < w') (room : Nat) :
    S.LoopsAgree n deep (topLevels w room) (topLevels w' room) fun _ k => k = 0 := by
  have hitem : S.Agree n deep (topLevel w room) (topLevel w' room) fun _ k => k ≤ n - 1 :=
    (topLevelAgrees hend hw hw' room (Nat.le_refl n)).mono False.elim fun _ _ hk => hk
  intro done
  unfold topLevels
  refine .bind (.atEnd hend) ?_
  rintro closed n - ⟨rfl, hclosed⟩
  refine .ite (fun hdone => .ends (.pure (hclosed.mp hdone))) fun hmore => ?_
  have hpos : 0 < n := Nat.pos_of_ne_zero fun hzero => hmore (hclosed.mpr hzero)
  refine .bind hitem fun s k _ hk => ?_
  cases s with
  | none => exact .again _ (by omega)
  | some s => exact .again _ (by omega)

/-- **A program is read up to the closing token**, the same at any two bounds that are large
enough. -/
theorem topLevelsAgree (hw : most < w) (hw' : most < w') (room : Nat) :
    ∀ (n n' : Nat) (done : List Stmt), ∀ m ≤ most, m < n → m < n' →
      S.Agree m False (topLevels w room n done) (topLevels w' room n' done) fun _ k => k = 0 :=
  LoopsAgree.agree (fun _ _ k => k = 0) (fun _ _ _ _ _ hzero => hzero) fun m hm =>
    topLevels_loopsAgree hend (by omega) (by omega) room

/-- **A sole expression is read** without being cut off, up to the closing token or in front of
what is no expression. -/
theorem soleExpressionAgrees (hw : most < w) (hw' : most < w') (room : Nat) {m : Nat}
    (hm : m ≤ most) :
    S.Agree m False (soleExpression w room) (soleExpression w' room) fun _ _ => True := by
  have hclosed : S.Agree m True (closedExpression w room) (closedExpression w' room)
      fun _ _ => True := by
    refine ((S.expressionAgrees hw hw' room).within hm fun _ => trivial).bind fun e k _ _ => ?_
    exact (Agree.atEnd hend).bind fun closed _ _ _ =>
      .ite (fun _ => .pure trivial) fun _ => .fail _
  intro us l ds hus hn
  obtain ⟨vs, ds', hvs, ⟨a, hp, hq, -⟩ | ⟨e, hp, hq, -⟩⟩ := hclosed us l ds hus hn
  · refine ⟨vs, ds', hvs, .inl ⟨some a, ?_, ?_, trivial⟩⟩
    · unfold soleExpression
      rw [hp]
    · unfold soleExpression
      rw [hq]
  · cases e with
    | fault =>
      refine ⟨vs, ds', hvs, .inl ⟨none, ?_, ?_, trivial⟩⟩
      · unfold soleExpression
        rw [hp]
      · unfold soleExpression
        rw [hq]
    | tooDeep =>
      refine ⟨vs, ds' ++ [.atToken (ahead vs S.stop) Fault.tooDeep.message], hvs,
        .inl ⟨none, ?_, ?_, trivial⟩⟩
      · unfold soleExpression
        rw [hp]
        dsimp only
        rw [left_current, left_blame]
      · unfold soleExpression
        rw [hq]
        dsimp only
        rw [right_current, right_blame]

end TopLevel
end Sides
end Grammar
end LoxKit
