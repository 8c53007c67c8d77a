import LoxKit.Proofs.Grammar.Written
import LoxKit.Proofs.Grammar.Takes

/-!
# What reading an expression takes

A reader of expressions that finds nothing wrong has consumed tokens that write the expression
it yields, on its own tier and in the room it was given (`Takes.rules`).  The rules of a tier
rest on those of the tiers it uses, with less room.

The value of an assignment is a conditional, so an assignment with a `?` behind it has none:
what has been read there is an expression of operators, and so a test.
-/
namespace LoxKit
namespace Grammar

variable {w l room : Nat}

/-- **What reading on a tier takes**: the tokens that write the expression.  No `?` is ahead of a
conditional, and if one is ahead of an assignment, it is none and has been read as an expression
of operators. -/
def Tier.Taken : Tier → Nat → Expr → List Token → Token → Prop
  | .conditional, room, e, ts, next =>
    Written (.expr .conditional e) room ts ∧ next.kind ≠ .question
  | .assignment, room, e, ts, next =>
    Written (.expr .assignment e) room ts ∧
      (next.kind = .question → Written (.expr (.operators .either) e) (room - 2) ts)
  | t, room, e, ts, _ => Written (.expr t e) room ts

theorem Tier.Taken.written {t : Tier} {e : Expr} {ts : List Token} {next : Token}
    (h : t.Taken room e ts next) : Written (.expr t e) room ts := by
  cases t with
  | conditional | assignment => exact h.1
  | _ => exact h

/-- Items of a list of arguments write the arguments. -/
theorem Written.ofCommaList {es : List Expr} {ts : List Token}
    (h : CommaList (fun e ts => Written (.expr .conditional e) room ts) es ts) :
    Written (.arguments es) room ts := by
  induction h with
  | one he => exact .argument he
  | more he hcomma _ ih => exact .moreArguments he hcomma ih

/-- A token that is an expression by itself has one. -/
theorem atom?_of_isAtom {t : Token} (h : isAtom t.kind) : ∃ e, atom? t = some e := by
  unfold atom? Literal.ofToken?
  cases hkind : t.kind <;> simp_all [isAtom]

namespace Takes

theorem chain {ops : TokenKind → Bool} {operand : Reader Expr} {node : Expr → Token → Expr → Expr}
    {P S : Expr → List Token → Prop}
    (hoperand : Takes w l operand fun e ts _ => S e ts)
    (hnode : ∀ {left op right ts us}, P left ts → ops op.kind → S right us →
      P (node left op right) (ts ++ op :: us)) : ∀ (n : Nat) (left : Expr),
      Takes w l (Grammar.chain ops operand node n left) fun e us _ =>
        (∀ ts, P left ts → P e (ts ++ us)) ∨ n ≤ us.length := by
  intro n
  induction n with
  | zero => exact fun left => (Takes.pure left).mono fun _ _ _ _ => .inr (Nat.zero_le _)
  | succ n ih =>
    intro left
    refine (Takes.onAccept? (fun op => hoperand.bind fun right => ih (node left op right))
      (.pure left)).mono ?_
    rintro e _ _ (⟨op, _, rfl, hop, right, us, vs, rfl, hright, hread | hbound⟩ | ⟨-, rfl, rfl⟩)
    · exact .inl fun ts hleft => by simpa using hread _ (hnode hleft hop hright)
    · exact .inr (by simp; omega)
    · exact .inl fun ts hleft => by simpa using hleft

theorem arguments {argument : Reader Expr}
    (hargument : Takes w l argument fun e ts _ => Written (.expr .conditional e) room ts) :
    Takes w l (Grammar.arguments w argument) fun es ts _ =>
      es = [] ∧ ts = [] ∨ Written (.arguments es) room ts ∧ es.length ≤ listLimit := by
  unfold Grammar.arguments
  refine Takes.mono (.bind (.unless? (by decide) (.of_bounded (.commaList hargument w [])))
    fun _ => .pure _) ?_
  rintro es _ next ⟨o, us, vs, rfl, ⟨rfl, rfl⟩ | ⟨es', rfl, new, rfl, hnew, hlen⟩, rfl, rfl⟩
  · exact .inl ⟨rfl, rfl⟩
  · exact .inr ⟨by simpa using Written.ofCommaList hnew, hlen (Nat.zero_le _)⟩

theorem suffixes {argument : Reader Expr}
    (hargument : Takes w l argument fun e ts _ => Written (.expr .conditional e) room ts) :
    ∀ (n : Nat) (target : Expr),
      Takes w l (Grammar.suffixes w argument n target) fun e us _ =>
        (∀ ts, Written (.expr .call target) (room + 3) ts →
          Written (.expr .call e) (room + 3) (ts ++ us)) ∨ n ≤ us.length := by
  intro n
  induction n with
  | zero => exact fun left => (Takes.pure left).mono fun _ _ _ _ => .inr (Nat.zero_le _)
  | succ n ih =>
    intro target
    unfold Grammar.suffixes
    refine Takes.mono (.onAccept (by decide)
      (.bind (.arguments hargument) fun es => .bind (.expect _ _) fun paren =>
        ih (.call target paren es)) <|
      .onAccept (by decide) (.bind (.expect _ _) fun name => ih (.get target name))
        (.pure target)) ?_
    rintro e _ _ (⟨left, _, rfl, hleft, es, us, _, rfl, hes, paren, _, vs, rfl, ⟨rfl, hparen⟩,
      hread | hbound⟩ | ⟨-, ⟨dot, _, rfl, hdot, name, _, us, rfl, ⟨rfl, hname⟩, hread | hbound⟩ |
      ⟨-, rfl, rfl⟩⟩)
    · refine .inl fun ts htarget => ?_
      rcases hes with ⟨rfl, rfl⟩ | ⟨hes, hlen⟩
      · simpa using hread _ (.callNone htarget hleft hparen)
      · simpa using hread _ (.call htarget hleft hes hlen hparen)
    · exact .inr (by simp; omega)
    · exact .inl fun ts htarget => by simpa using hread _ (.get htarget hdot hname)
    · exact .inr (by simp; omega)
    · exact .inl fun ts htarget => by simpa using htarget

/-! ## The rules -/

/-- What the rules for expressions take if they have so much room, or less. -/
def Rules (w l room : Nat) : Prop :=
  ∀ room' ≤ room, ∀ t : Tier, Takes w l (t.read w room') (t.Taken room')

theorem expression (h : Rules w l room) :
    Takes w l (Grammar.expression w (room + 2)) (Tier.Taken .expression (room + 2)) := by
  have hcond := h room (Nat.le_refl _) .conditional
  unfold Grammar.expression
  refine Takes.mono (.bind hcond fun first => .of_bounded <|
    .chain (P := fun e => Written (.expr .expression e) (room + 2))
      (hcond.mono fun _ _ _ h => h.1) (fun hl hop hr => .comma hl (beq_iff_eq.mp hop) hr)
      w first) ?_
  rintro e _ _ ⟨first, us, vs, rfl, hfirst, hread⟩
  exact hread us (.tighter rfl hfirst.1)

theorem conditional (h : Rules w l room) :
    Takes w l (Grammar.conditional w (room + 2)) (Tier.Taken .conditional (room + 2)) := by
  have hcond := h room (Nat.le_refl _) .conditional
  unfold Grammar.conditional
  refine Takes.mono (.bind (h room (Nat.le_refl _) .assignment) fun test => .onAccept (by decide)
    (.bind hcond fun yes => .bind (.expect _ _) fun _ => .bind hcond fun no => .pure _)
    (.pure test)) ?_
  rintro e _ next ⟨test, us, _, rfl, ⟨htest, hoperators⟩, ⟨mark, _, rfl, hmark, yes, vs, _, rfl,
    ⟨hyes, -⟩, _, _, _, rfl, ⟨rfl, hcolon⟩, no, ws, _, rfl, ⟨hno, hnext⟩, rfl, rfl⟩ |
    ⟨hnext, rfl, rfl⟩⟩
  · obtain ⟨room, rfl⟩ : ∃ r, room = r + 2 := ⟨room - 2, by have := htest.six_le; omega⟩
    exact ⟨by simpa using Written.conditional (hoperators hmark) hmark hyes hcolon hno, hnext⟩
  · exact ⟨by simpa using Written.tighter rfl htest, hnext⟩

theorem assignment (h : Rules w l room) :
    Takes w l (Grammar.assignment w (room + 2)) (Tier.Taken .assignment (room + 2)) := by
  unfold Grammar.assignment
  refine Takes.mono (.bind (h room (Nat.le_refl _) (.operators .either)) fun target => .onAccept?
    (fun equals => .bind (R := fun value e ts _ => assigned? value target = some e ∧ ts = [])
      (h room (Nat.le_refl _) .conditional) fun value => ?_)
    (.pure target)) ?_
  · rcases assigned? value target with - | e
    · refine ((Takes.blame _ _).bind fun _ => .pure target).mono ?_
      rintro _ _ _ ⟨_, _, _, -, hfalse, -⟩
      exact hfalse.elim
    · exact (Takes.pure e).mono fun _ _ _ h => ⟨by rw [h.1], h.2⟩
  · rintro e _ next ⟨target, us, _, rfl, htarget, ⟨equals, _, rfl, hequals, value, vs, _, rfl,
      ⟨hvalue, hnext⟩, he, rfl⟩ | ⟨-, rfl, rfl⟩⟩
    · rw [List.append_nil]
      exact ⟨.assign htarget (beq_iff_eq.mp hequals) hvalue he, fun h => absurd h hnext⟩
    · rw [List.append_nil]
      exact ⟨.tighter rfl htarget, fun _ => htarget⟩

theorem operators (h : Rules w l room) (level : Level) :
    Takes w l (Grammar.binary w (room + 2) level) (Tier.Taken (.operators level) (room + 2)) := by
  have hoperand : Takes w l ((Tier.operand level).read w room) fun e ts _ =>
      Written (.expr (.operand level) e) room ts :=
    (h room (Nat.le_refl _) (.operand level)).mono fun _ _ _ => Tier.Taken.written
  rw [Tier.binary_eq]
  refine Takes.mono (.bind hoperand fun first => .of_bounded <|
    .chain (P := fun e => Written (.expr (.operators level) e) (room + 2)) hoperand
      (fun hl hop hr => .operator hl hop hr) w first) ?_
  rintro e _ _ ⟨first, us, vs, rfl, hfirst, hread⟩
  exact hread us (.tighter rfl hfirst)

theorem unary (h : Rules w l room) :
    Takes w l (Grammar.unary w (room + 2)) (Tier.Taken .unary (room + 2)) := by
  unfold Grammar.unary
  refine Takes.mono (.bind (.need room) fun _ => .onAccept?
    (fun op => .bind (h room (Nat.le_refl _) .unary) fun e => .pure _)
    (h room (Nat.le_refl _) .call)) ?_
  rintro e _ next ⟨-, _, _, rfl, ⟨rfl, -⟩, ⟨op, _, rfl, hop, e, us, _, rfl, he, rfl, rfl⟩ | ⟨-, he⟩⟩
  · rw [List.append_nil]
    exact .prefixed hop he
  · exact .tighter rfl he

theorem call (h : Rules w l (room + 1)) :
    Takes w l (Grammar.call w (room + 3)) (Tier.Taken .call (room + 3)) := by
  have hconditional := h room (Nat.le_succ _) .conditional
  have hsuffixes := suffixes (hconditional.mono fun _ _ _ h => h.1) w
  unfold Grammar.call
  refine Takes.mono (.bind (h (room + 1) (Nat.le_refl _) .primary) fun target =>
    .of_bounded (hsuffixes target)) ?_
  rintro e _ _ ⟨target, us, vs, rfl, htarget, hread⟩
  exact hread us (.tighter rfl htarget)

theorem primary (h : Rules w l room) :
    Takes w l (Grammar.primary w (room + 2)) (Tier.Taken .primary (room + 2)) := by
  unfold Grammar.primary
  refine Takes.mono (.bind (.need room) fun _ => .onAccept? (fun t => .pure _) <| .onAccept?
    (fun keyword => .bind (.expect _ _) fun _ => .bind (.expect _ _) fun method => .pure _) <|
    .onAccept (by decide)
      (.bind (h room (Nat.le_refl _) .expression) fun e => .bind (.expect _ _) fun _ => .pure _)
      (.fail _ fun _ _ _ => False)) ?_
  rintro e _ next ⟨-, _, _, rfl, ⟨rfl, hroom⟩, ⟨t, _, rfl, ht, rfl, rfl⟩ |
    ⟨-, ⟨keyword, _, rfl, hkeyword, _, _, _, rfl, ⟨rfl, hdot⟩, method, _, _, rfl, ⟨rfl, hmethod⟩,
      rfl, rfl⟩ | ⟨-, ⟨left, _, rfl, hleft, e, us, _, rfl, he, _, _, _, rfl, ⟨rfl, hright⟩, rfl,
      rfl⟩ | ⟨-, hfalse⟩⟩⟩⟩
  · obtain ⟨room, rfl⟩ : ∃ r, room = r + 4 := ⟨room - 4, by omega⟩
    obtain ⟨e, he⟩ := atom?_of_isAtom ht
    rw [he]
    exact .atom he
  · obtain ⟨room, rfl⟩ : ∃ r, room = r + 4 := ⟨room - 4, by omega⟩
    exact .super (beq_iff_eq.mp hkeyword) hdot hmethod
  · exact .group hleft he hright
  · exact hfalse.elim

/-- **What reading takes on each tier**, in any room. -/
theorem rules (w l : Nat) (room : Nat) (t : Tier) : Takes w l (t.read w room) (t.Taken room) := by
  induction room using Nat.strongRecOn generalizing t with
  | _ room ih =>
    have hrules : ∀ r < room, Rules w l r := fun r hr r' hr' t => ih r' (by omega) t
    match room, t with
    | 0, t | 1, t => cases t <;> exact .tooDeep _
    | r + 2, .expression => exact expression (hrules r (by omega))
    | r + 2, .conditional => exact conditional (hrules r (by omega))
    | r + 2, .assignment => exact assignment (hrules r (by omega))
    | r + 2, .operators level => exact operators (hrules r (by omega)) level
    | r + 2, .unary => exact unary (hrules r (by omega))
    | 2, .call => exact .tooDeep _
    | r + 3, .call => exact call (hrules (r + 1) (by omega))
    | r + 2, .primary => exact primary (hrules r (by omega))

end Takes
end Grammar
end LoxKit
