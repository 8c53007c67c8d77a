import LoxKit.Proofs.Grammar.ExpressionTakes
import LoxKit.Proofs.Grammar.Leads

/-!
# What is written is read

The tokens that write an expression on a tier are read on that tier as the expression, whatever
is behind them, as long as the next token does not go on with an expression of that tier
(`Written.reads`).

The tiers with a repetition gather to the left, while reading goes from left to right.  So the
induction is on a stronger statement (`Written.leads`): reading leads over the tokens to the
rest of the repetition behind the expression they write.
-/
namespace LoxKit
namespace Grammar

/-! ## The tokens that go on with an expression -/

/-- How tightly the expressions of a tier hold together.  What goes on with an assignment goes
on with the conditional that is its value, and the other way round. -/
def Tier.rank : Tier → Nat
  | .expression => 0
  | .conditional | .assignment => 1
  | .operators .either => 2
  | .operators .both => 3
  | .operators .equality => 4
  | .operators .comparison => 5
  | .operators .sum => 6
  | .operators .product => 7
  | .unary => 8
  | .call => 9
  | .primary => 10

/-- The tightest tier on which a token of the kind goes on with an expression. -/
def lastTier? : TokenKind → Option Tier
  | .comma => some .expression
  | .question | .equal => some .assignment
  | .orWord => some (.operators .either)
  | .andWord => some (.operators .both)
  | .bangEqual | .equalEqual => some (.operators .equality)
  | .greater | .greaterEqual | .less | .lessEqual => some (.operators .comparison)
  | .minus | .plus => some (.operators .sum)
  | .slash | .star => some (.operators .product)
  | .leftParen | .dot => some .call
  | _ => none

/-- Whether a token of the kind goes on with an expression of the tier that it is behind. -/
def Tier.goesOn (t : Tier) (kind : TokenKind) : Bool :=
  (lastTier? kind).any (t.rank ≤ ·.rank)

namespace Tier

theorem goesOn_of_rank_le {t t' : Tier} (h : t.rank ≤ t'.rank) {kind : TokenKind}
    (hnot : t.goesOn kind = false) : t'.goesOn kind = false := by
  unfold goesOn at *
  cases hlast : lastTier? kind with
  | none => rfl
  | some last =>
    simp only [hlast, Option.any_some, decide_eq_false_iff_not, Nat.not_le] at hnot ⊢
    omega

theorem operators_goesOn {level : Level} {kind : TokenKind} :
    (operators level).goesOn kind = (level.operators kind || (operand level).goesOn kind) := by
  cases level <;> cases kind <;> rfl

theorem not_operand_goesOn {level : Level} {kind : TokenKind} (h : level.operators kind) :
    (operand level).goesOn kind = false := by
  cases level <;> cases kind <;> first | rfl | cases h

/-- The tier whose expressions a repetition of the tier joins. -/
def inner : Tier → Tier
  | expression => conditional
  | operators level => operand level
  | call => primary
  | t => t

/-- The rest of a repetition of the tier, at most so many times, behind an expression. -/
def goOn (width room : Nat) : Tier → Nat → Expr → Reader Expr
  | expression => chain (· == .comma) (Grammar.conditional width (room - 2)) .binary
  | operators level => chain level.operators ((operand level).read width (room - 2)) level.node
  | call => suffixes width (Grammar.conditional width (room - 3))
  | _ => fun _ e => return e

end Tier

variable {l width room n : Nat} {t : Tier} {e : Expr} {ts : List Token}

/-- A chain ends in front of a token that is none of its operators. -/
theorem chain_leads {ops : TokenKind → Bool} {operand : Reader Expr}
    {node : Expr → Token → Expr → Expr} {P : Token → Prop}
    (hP : ∀ next, P next → ops next.kind = false) :
    Leads l (chain ops operand node n e) [] (pure e) P := by
  cases n with
  | zero => exact .refl _ _
  | succ n => exact .decline? hP (.refl _ _)

/-- A repetition ends in front of a token that does not go on with it. -/
theorem Tier.goOn_leads : Leads l (t.goOn width room n e) [] (pure e) fun next =>
    t.goesOn next.kind = false := by
  cases t with
  | expression =>
    refine chain_leads fun next hnext => beq_false_of_ne ?_
    rintro hkind
    rw [hkind] at hnext
    cases hnext
  | operators level =>
    refine chain_leads fun next hnext => ?_
    rw [Tier.operators_goesOn, Bool.or_eq_false_iff] at hnext
    exact hnext.1
  | call =>
    cases n with
    | zero => exact .refl _ _
    | succ n =>
      refine .decline (fun next hnext hkind => ?_)
        (.decline (fun next hnext hkind => ?_) (.refl _ _))
      · rw [ahead_nil] at hkind
        rw [hkind] at hnext
        cases hnext
      · rw [ahead_nil] at hkind
        rw [hkind] at hnext
        cases hnext
  | _ => exact .refl _ _

/-- **Reading on a tier leads over the tokens of an expression to the rest of the repetition**
behind it.  No more has been spent of the bound of the repetition than there are tokens. -/
def LeadsOver (width room : Nat) (t : Tier) (e : Expr) (ts : List Token) : Prop :=
  ∃ k < ts.length, ∀ l, Leads l (t.read width room) ts (t.goOn width room (width - k) e) fun next =>
    t.inner.goesOn next.kind = false

/-- Each of the arguments is read in front of a token that does not go on with it. -/
def ArgumentsLead (width room : Nat) (es : List Expr) (ts : List Token) : Prop :=
  ∀ l, CommaList (fun e ts => Leads l (conditional width room) ts (pure e) fun next =>
    Tier.conditional.goesOn next.kind = false) es ts

theorem Tier.inner_rank_le (t : Tier) : t.rank ≤ t.inner.rank := by
  cases t with
  | operators level => cases level <;> decide
  | _ => decide

/-- Led to the rest of the repetition, reading comes to its end. -/
theorem LeadsOver.reads (h : LeadsOver width room t e ts) (l : Nat) :
    Leads l (t.read width room) ts (pure e) fun next => t.goesOn next.kind = false := by
  obtain ⟨k, -, hlead⟩ := h
  have hrepeat := (hlead l).trans Tier.goOn_leads fun next hnext =>
    Tier.goesOn_of_rank_le t.inner_rank_le hnext
  rwa [List.append_nil] at hrepeat

/-- A token that goes on with an expression is of another kind than one that does not. -/
theorem Tier.ne_of_goesOn {kind kind' : TokenKind} (h : t.goesOn kind = false)
    (h' : t.goesOn kind' = true) : kind ≠ kind' := by
  rintro rfl
  rw [h] at h'
  cases h'

/-- In front of a token that goes on with neither, an expression of operators is an assignment. -/
theorem assignment_leads
    (h : Leads l (binary width room .either) ts (pure e) fun next =>
      (Tier.operators .either).goesOn next.kind = false) :
    Leads l (assignment width (room + 2)) ts (pure e) fun next =>
      (Tier.operators .either).goesOn next.kind = false ∧ next.kind ≠ .equal := by
  unfold assignment
  exact h.last (.decline? (fun next hnext => beq_false_of_ne hnext.2) (.refl _ _))
    fun next hnext => hnext.1

namespace LeadsOver

theorem tighter {t t' : Tier} (ht : t.tighter? = some t') (hwritten : Written (.expr t' e) room ts)
    (h : LeadsOver width room t' e ts) : LeadsOver width (room + 2) t e ts := by
  refine ⟨0, hwritten.length_pos, fun l => ?_⟩
  have hroom := hwritten.six_le
  have hread := h.reads l
  rcases t with _ | _ | _ | level | _ | _ | _
  case expression =>
    cases ht
    exact hread.step
  case conditional =>
    cases ht
    show Leads l (Grammar.conditional width (room + 2)) ts (pure e) _
    unfold Grammar.conditional
    exact hread.last (.decline (fun next hnext => Tier.ne_of_goesOn hnext rfl) (.refl _ _))
      fun next hnext => Tier.goesOn_of_rank_le (by decide) hnext
  case assignment =>
    cases ht
    exact (assignment_leads hread).weaken fun next hnext =>
      ⟨Tier.goesOn_of_rank_le (by decide) hnext, Tier.ne_of_goesOn hnext rfl⟩
  case operators =>
    cases ht
    show Leads l (binary width (room + 2) level) ts _ _
    rw [Tier.binary_eq]
    exact hread.step
  case unary =>
    cases ht
    obtain ⟨t, us, rfl, ht⟩ := hwritten.head
    have hop : isUnaryOperator t.kind = false := not_isUnaryOperator ht
    show Leads l (Grammar.unary width (room + 2)) (t :: us) (pure e) _
    unfold Grammar.unary
    exact .need (Nat.le_trans (by decide) hroom) (.decline? (fun _ _ => hop) <|
      hread.weaken fun next hnext => Tier.goesOn_of_rank_le (t := .unary) (by decide) hnext)
  case call =>
    cases ht
    obtain ⟨room, rfl⟩ : ∃ r, room = r + 1 := ⟨room - 1, by omega⟩
    show Leads l (Grammar.call width (room + 3)) ts _ _
    unfold Grammar.call
    exact hread.step
  case primary => cases ht

/-- Another turn of the repetition. -/
theorem more {e' : Expr} {t : Tier} {op : Token} {us : List Token} (h : LeadsOver width room t e ts)
    (hop : t.inner.goesOn op.kind = false) (hlen : (ts ++ op :: us).length ≤ width)
    (hmore : ∀ l n, Leads l (t.goOn width room (n + 1) e) (op :: us) (t.goOn width room n e')
      fun next => t.inner.goesOn next.kind = false) :
    LeadsOver width room t e' (ts ++ op :: us) := by
  obtain ⟨k, hk, hlead⟩ := h
  rw [List.length_append, List.length_cons] at hlen
  refine ⟨k + 1, by rw [List.length_append, List.length_cons]; omega, fun l => ?_⟩
  have hturn := hmore l (width - (k + 1))
  rw [show width - (k + 1) + 1 = width - k by omega] at hturn
  exact (hlead l).trans hturn fun next _ => hop

theorem chain {ops : TokenKind → Bool} {operand : Reader Expr}
    {node : Expr → Token → Expr → Expr} {P : Token → Prop} {op : Token} {r : Expr}
    {us : List Token} (hend : ops .endOfInput = false) (hop : ops op.kind)
    (hoperand : Leads l operand us (pure r) P) :
    Leads l (Grammar.chain ops operand node (n + 1) e) (op :: us)
      (Grammar.chain ops operand node n (node e op r)) P :=
  .accept? hend hop hoperand.step

theorem comma {r : Expr} {op : Token} {us : List Token}
    (hl : LeadsOver width (room + 2) .expression e ts) (hop : op.kind = .comma)
    (hr : LeadsOver width room .conditional r us) (hlen : (ts ++ op :: us).length ≤ width) :
    LeadsOver width (room + 2) .expression (.binary e op r) (ts ++ op :: us) :=
  hl.more (by rw [hop]; rfl) hlen fun l _ => chain rfl (beq_iff_eq.mpr hop) (hr.reads l)

theorem operator {level : Level} {r : Expr} {op : Token} {us : List Token}
    (hl : LeadsOver width (room + 2) (.operators level) e ts) (hop : level.operators op.kind)
    (hr : LeadsOver width room (.operand level) r us) (hlen : (ts ++ op :: us).length ≤ width) :
    LeadsOver width (room + 2) (.operators level) (level.node e op r) (ts ++ op :: us) :=
  hl.more (Tier.not_operand_goesOn hop) hlen fun l _ =>
    chain (by cases level <;> rfl) hop (hr.reads l)

theorem conditional {yes no : Expr} {mark colon : Token} {us vs : List Token}
    (ht : LeadsOver width room (.operators .either) e ts) (hmark : mark.kind = .question)
    (hy : LeadsOver width (room + 2) .conditional yes us) (hcolon : colon.kind = .colon)
    (hn : LeadsOver width (room + 2) .conditional no vs) :
    LeadsOver width (room + 4) .conditional (.conditional e yes no)
      (ts ++ mark :: (us ++ colon :: vs)) := by
  refine ⟨0, by rw [List.length_append, List.length_cons]; omega, fun l => ?_⟩
  show Leads l (Grammar.conditional width (room + 2 + 2)) _ (pure _) _
  unfold Grammar.conditional
  refine .bind (assignment_leads (ht.reads l)) (.accept hmark (by decide) <| .bind (hy.reads l)
    (.expect hcolon (by decide) <| .last (hn.reads l) (.refl _ _) fun _ hnext => hnext) ?_) ?_
  · exact fun _ _ => by rw [ahead_cons, hcolon]; rfl
  · exact fun _ _ => by rw [ahead_cons, hmark]; exact ⟨rfl, by decide⟩

theorem assign {value e' : Expr} {equals : Token} {us : List Token}
    (ht : LeadsOver width room (.operators .either) e ts) (hequals : equals.kind = .equal)
    (hv : LeadsOver width room .conditional value us) (he : assigned? value e = some e') :
    LeadsOver width (room + 2) .assignment e' (ts ++ equals :: us) := by
  refine ⟨0, by rw [List.length_append, List.length_cons]; omega, fun l => ?_⟩
  show Leads l (Grammar.assignment width (room + 2)) _ (pure e') _
  unfold Grammar.assignment
  refine .bind (ht.reads l) (.accept? rfl (beq_iff_eq.mpr hequals) <|
    .last (hv.reads l) (by rw [he]; exact .refl _ _) fun _ hnext => ?_) ?_
  · exact Tier.goesOn_of_rank_le (t := .assignment) (Nat.le_refl _) hnext
  · exact fun _ _ => by rw [ahead_cons, hequals]; rfl

theorem prefixed {op : Token} (hop : isUnaryOperator op.kind) (hroom : 6 ≤ room)
    (h : LeadsOver width room .unary e ts) :
    LeadsOver width (room + 2) .unary (.unary op e) (op :: ts) := by
  refine ⟨0, by simp, fun l => ?_⟩
  show Leads l (Grammar.unary width (room + 2)) _ (pure _) _
  unfold Grammar.unary
  exact .need (Nat.le_trans (by decide) hroom) <| .accept? rfl hop <|
    .last (h.reads l) (.refl _ _) fun _ hnext => hnext

theorem callNone {left paren : Token} (h : LeadsOver width (room + 3) .call e ts)
    (hleft : left.kind = .leftParen) (hparen : paren.kind = .rightParen)
    (hlen : (ts ++ [left, paren]).length ≤ width) :
    LeadsOver width (room + 3) .call (.call e paren []) (ts ++ [left, paren]) := by
  refine h.more (by rw [hleft]; rfl) hlen fun l n => ?_
  show Leads l (suffixes _ _ (n + 1) e) _ (suffixes _ _ n _) _
  rw [suffixes, arguments, bind_assoc]
  exact .accept hleft (by decide) <| .stay (.unlessNone (by decide))
    (.expect hparen (by decide) (.refl _ _)) fun _ _ => hparen

theorem call {left paren : Token} {es : List Expr} {us : List Token}
    (h : LeadsOver width (room + 3) .call e ts) (hleft : left.kind = .leftParen)
    (hwritten : Written (.arguments es) room us) (hus : ArgumentsLead width room es us)
    (hes : es.length ≤ listLimit) (hparen : paren.kind = .rightParen)
    (hlen : (ts ++ left :: (us ++ [paren])).length ≤ width) :
    LeadsOver width (room + 3) .call (.call e paren es) (ts ++ left :: (us ++ [paren])) := by
  refine h.more (by rw [hleft]; rfl) hlen fun l n => ?_
  show Leads l (suffixes _ _ (n + 1) e) _ (suffixes _ _ n _) _
  obtain ⟨t, us', rfl, ht⟩ := hwritten.head
  have hbound : es.length ≤ width := by
    have hle := (hus l).length_le
    simp only [List.length_append, List.length_cons] at hle hlen
    omega
  have hread : Leads l (commaList "arguments" (Grammar.conditional width room) width []) (t :: us')
      (pure es) fun next => next.kind = .rightParen :=
    .commaList (fun _ hcomma => by rw [hcomma]; rfl)
      (fun _ hclose => by rw [hclose]; exact ⟨rfl, by decide⟩) (hus l) width [] hbound
      (by simpa using hes)
  rw [suffixes, arguments, bind_assoc]
  refine .accept hleft (by decide) <| .bind (.unlessSome (by decide) hread fun _ _ hkind => ?_)
    (.expect hparen (by decide) (.refl _ _)) fun _ _ => hparen
  rw [ahead_cons] at hkind
  rw [hkind] at ht
  cases ht

theorem get {dot name : Token} (h : LeadsOver width (room + 3) .call e ts)
    (hdot : dot.kind = .dot) (hname : name.kind = .identifier)
    (hlen : (ts ++ [dot, name]).length ≤ width) :
    LeadsOver width (room + 3) .call (.get e name) (ts ++ [dot, name]) := by
  refine h.more (by rw [hdot]; rfl) hlen fun l n => ?_
  show Leads l (suffixes _ _ (n + 1) e) _ (suffixes _ _ n _) _
  rw [suffixes]
  exact .decline (fun _ _ => by rw [ahead_cons, hdot]; decide) <| .accept hdot (by decide) <|
    .expect hname (by decide) (.refl _ _)

theorem atom {t : Token} (h : atom? t = some e) : LeadsOver width (room + 6) .primary e [t] := by
  refine ⟨0, Nat.one_pos, fun l => ?_⟩
  show Leads l (Grammar.primary width (room + 4 + 2)) [t] (pure e) _
  unfold Grammar.primary
  have hread : Leads l (pure ((atom? t).getD default)) [] (pure e) fun next =>
      Tier.primary.goesOn next.kind = false := by
    rw [h]
    exact .refl _ _
  exact .need (Nat.le_add_left _ _) (.accept? rfl (isAtom_of_atom? h) hread)

theorem super {keyword dot method : Token} (hk : keyword.kind = .superWord)
    (hd : dot.kind = .dot) (hm : method.kind = .identifier) :
    LeadsOver width (room + 6) .primary (.super ⟨keyword, none⟩ method)
      [keyword, dot, method] := by
  refine ⟨0, by simp, fun l => ?_⟩
  show Leads l (Grammar.primary width (room + 4 + 2)) _ (pure _) _
  unfold Grammar.primary
  exact .need (Nat.le_add_left _ _) <| .decline? (fun _ _ => by rw [ahead_cons, hk]; rfl) <|
    .accept? rfl (beq_iff_eq.mpr hk) <| .expect hd (by decide) <| .expect hm (by decide) (.refl _ _)

theorem group {left right : Token} (hleft : left.kind = .leftParen) (hroom : 6 ≤ room)
    (h : LeadsOver width room .expression e ts) (hright : right.kind = .rightParen) :
    LeadsOver width (room + 2) .primary (.group e) (left :: (ts ++ [right])) := by
  refine ⟨0, by simp, fun l => ?_⟩
  show Leads l (Grammar.primary width (room + 2)) _ (pure _) _
  unfold Grammar.primary
  refine .need (Nat.le_trans (by decide) hroom) <|
    .decline? (fun _ _ => by rw [ahead_cons, hleft]; rfl) <|
    .decline? (fun _ _ => by rw [ahead_cons, hleft]; rfl) <| .accept hleft (by decide) <|
    .bind (h.reads l) (.expect hright (by decide) (.refl _ _)) fun _ _ => ?_
  rw [ahead_cons, hright]
  rfl

end LeadsOver

/-- Reading leads over a phrase. -/
def Phrase.IsRead (width room : Nat) (ts : List Token) : Phrase → Prop
  | .expr t e => LeadsOver width room t e ts
  | .arguments es => ArgumentsLead width room es ts

/-- Reading leads over what is written. -/
theorem Written.leads {φ : Phrase} (h : Written φ room ts) (hlen : ts.length ≤ width) :
    φ.IsRead width room ts := by
  induction h with
  | tighter ht h ih => exact (ih hlen).tighter ht h
  | comma _ hop _ ihl ihr =>
    exact (ihl (by simp at hlen; omega)).comma hop (ihr (by simp at hlen; omega)) hlen
  | conditional _ hmark _ hcolon _ iht ihy ihn =>
    exact (iht (by simp at hlen; omega)).conditional hmark (ihy (by simp at hlen; omega)) hcolon
      (ihn (by simp at hlen; omega))
  | assign _ hequals _ he iht ihv =>
    exact (iht (by simp at hlen; omega)).assign hequals (ihv (by simp at hlen; omega)) he
  | operator _ hop _ ihl ihr =>
    exact (ihl (by simp at hlen; omega)).operator hop (ihr (by simp at hlen; omega)) hlen
  | prefixed hop h ih => exact (ih (by simp at hlen; omega)).prefixed hop h.six_le
  | callNone _ hleft hparen ih => exact (ih (by simp at hlen; omega)).callNone hleft hparen hlen
  | call _ hleft hus hes hparen ihf iha =>
    exact (ihf (by simp at hlen; omega)).call hleft hus (iha (by simp at hlen; omega)) hes hparen
      hlen
  | get _ hdot hname ih => exact (ih (by simp at hlen; omega)).get hdot hname hlen
  | atom he => exact .atom he
  | super hk hd hm => exact .super hk hd hm
  | group hleft h hright ih => exact .group hleft h.six_le (ih (by simp at hlen; omega)) hright
  | argument _ ih => exact fun l => .one ((ih hlen).reads l)
  | moreArguments _ hcomma _ ihe ihs =>
    exact fun l => .more ((ihe (by simp at hlen; omega)).reads l) hcomma
      (ihs (by simp at hlen; omega) l)

/-- **What is written is read**, in front of a token that does not go on with it. -/
theorem Written.reads (h : Written (.expr t e) room ts) (hlen : ts.length ≤ width) (l : Nat) :
    Leads l (t.read width room) ts (pure e) fun next => t.goesOn next.kind = false :=
  LeadsOver.reads (h.leads hlen) l

/-! ## A whole token list -/

/-- What reading takes as an expression with nothing behind it. -/
theorem Takes.closedExpression {w : Nat} : Takes w l (Grammar.closedExpression w room)
    fun e ts next => Written (.expr .expression e) room ts ∧ next.isEnd := by
  refine Takes.mono (.bind (.rules _ _ room .expression) fun e => .bind .atEnd fun _ =>
    .ite (.pure e) (.fail _ fun _ _ _ => False)) ?_
  rintro _ _ next ⟨e, us, _, rfl, he, b, _, _, rfl, ⟨rfl, hb⟩, ⟨rfl, rfl, rfl⟩ | ⟨-, hfalse⟩⟩
  · refine ⟨?_, hb.symm⟩
    rwa [List.append_nil, List.append_nil]
  · exact hfalse.elim

/-- In front of the closing token an expression has nothing behind it. -/
theorem Written.closedExpression_leads (h : Written (.expr .expression e) room ts)
    (hlen : ts.length ≤ width) : Leads l (closedExpression width room) ts (pure e) (·.isEnd) := by
  refine .last (h.reads hlen l) (.last (.atEnd true) (.refl _ _) fun _ hnext => hnext)
    fun next hnext => ?_
  rw [beq_iff_eq.mp hnext]
  rfl

/-- **The expression that a token list is read as** is the one its tokens write. -/
theorem ofTokens?_iff {z : Token} (hz : z.isEnd) (hts : ∀ t ∈ ts, t.isEnd = false) :
    Expr.ofTokens? room (ts ++ [z]) = ⟨some e, []⟩ ↔ Written (.expr .expression e) room ts := by
  have hlen : ts.length < (ts ++ [z]).length := by simp
  unfold Expr.ofTokens? soleExpression
  constructor
  · intro h
    cases hrun : closedExpression (ts ++ [z]).length room { rest := ts ++ [z] } with
    | error x d =>
      rw [hrun] at h
      cases x <;> cases h
    | ok e' d =>
      rw [hrun] at h
      obtain ⟨rfl, hnil⟩ : e' = e ∧ d.diagnostics = [] := by simpa using h
      exact Takes.closedExpression.whole hlen hz hts hrun hnil
  · intro h
    have hrun := h.closedExpression_leads (l := 0) (Nat.le_of_lt hlen) [z] [] hz
    rw [hrun]
    rfl

end Grammar
end LoxKit
