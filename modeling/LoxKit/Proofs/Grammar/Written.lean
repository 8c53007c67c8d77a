import LoxKit.Grammar.Expression

/-!
# Expressions and the tokens that write them

Which tokens write which expression, said without a reader (`Written`).  The levels of the
grammar are `Tier`s, from the loosest to the tightest, and each way of writing an expression
says on which tier its parts stand: the left operand of an operator on the tier of the operator
and the right one on the next, so that operators gather to the left; both branches of a
conditional and the value of an assignment on the tier of conditionals, so that these gather to
the right; the test of a conditional on the tier of the operators, since the value of an
assignment takes a `?` behind it for its own.

The tokens of the parts, with those in between, are the tokens of the whole, so `Written` also
says that the tokens of an expression are what it reads as from left to right.

Writing nests, and so it needs room: a part stands in the room that is left of that of the
whole.  What is written in some room is written in any larger one (`Written.mono`).
-/
namespace LoxKit
namespace Grammar

/-- **A level of the grammar of expressions**, from the loosest to the tightest. -/
inductive Tier where
  | expression | conditional | assignment
  | operators (level : Level)
  | unary | call | primary
  deriving DecidableEq

namespace Tier

/-- The tier of the right operands of a level. -/
def operand (level : Level) : Tier :=
  match level.tighter? with
  | some next => .operators next
  | none => .unary

/-- The next tier. -/
def tighter? : Tier → Option Tier
  | expression => some .conditional
  | conditional => some .assignment
  | assignment => some (.operators .either)
  | operators level => some (operand level)
  | unary => some .call
  | call => some .primary
  | primary => none

/-- The reader of a tier. -/
def read (width room : Nat) : Tier → Reader Expr
  | expression => Grammar.expression width room
  | conditional => Grammar.conditional width room
  | assignment => Grammar.assignment width room
  | operators level => Grammar.binary width room level
  | unary => Grammar.unary width room
  | call => Grammar.call width room
  | primary => Grammar.primary width room

theorem binary_eq {width room : Nat} {level : Level} :
    Grammar.binary width (room + 2) level = (do
      let first ← (operand level).read width room
      chain level.operators ((operand level).read width room) level.node width first) := by
  unfold operand
  cases hlevel : level.tighter? with
  | none => exact binary_of_tightest hlevel
  | some next => exact binary_of_tighter hlevel

end Tier

/-- **What tokens can write**: an expression on a tier, or the arguments of a call, of which
there is at least one. -/
inductive Phrase where
  | expr (tier : Tier) (e : Expr)
  | arguments (es : List Expr)

/-- **The tokens that write a phrase**, in some room.  Each unit of room is an activation that
reading the phrase takes. -/
inductive Written : Phrase → Nat → List Token → Prop where
  /-- What stands on the next tier stands on this one. -/
  | tighter {t t' : Tier} {e : Expr} {room : Nat} {ts : List Token} :
    t.tighter? = some t' → Written (.expr t' e) room ts → Written (.expr t e) (room + 2) ts
  | comma {l r : Expr} {op : Token} {room : Nat} {ts us : List Token} :
    Written (.expr .expression l) (room + 2) ts → op.kind = .comma →
    Written (.expr .conditional r) room us →
    Written (.expr .expression (.binary l op r)) (room + 2) (ts ++ op :: us)
  | conditional {test yes no : Expr} {mark colon : Token} {room : Nat} {ts us vs : List Token} :
    Written (.expr (.operators .either) test) room ts → mark.kind = .question →
    Written (.expr .conditional yes) (room + 2) us → colon.kind = .colon →
    Written (.expr .conditional no) (room + 2) vs →
    Written (.expr .conditional (.conditional test yes no)) (room + 4)
      (ts ++ mark :: (us ++ colon :: vs))
  | assign {target value e : Expr} {equals : Token} {room : Nat} {ts us : List Token} :
    Written (.expr (.operators .either) target) room ts → equals.kind = .equal →
    Written (.expr .conditional value) room us → assigned? value target = some e →
    Written (.expr .assignment e) (room + 2) (ts ++ equals :: us)
  | operator {level : Level} {l r : Expr} {op : Token} {room : Nat} {ts us : List Token} :
    Written (.expr (.operators level) l) (room + 2) ts → level.operators op.kind →
    Written (.expr (.operand level) r) room us →
    Written (.expr (.operators level) (level.node l op r)) (room + 2) (ts ++ op :: us)
  | prefixed {op : Token} {e : Expr} {room : Nat} {ts : List Token} :
    isUnaryOperator op.kind → Written (.expr .unary e) room ts →
    Written (.expr .unary (.unary op e)) (room + 2) (op :: ts)
  | callNone {f : Expr} {left paren : Token} {room : Nat} {ts : List Token} :
    Written (.expr .call f) (room + 3) ts → left.kind = .leftParen → paren.kind = .rightParen →
    Written (.expr .call (.call f paren [])) (room + 3) (ts ++ [left, paren])
  | call {f : Expr} {left paren : Token} {es : List Expr} {room : Nat} {ts us : List Token} :
    Written (.expr .call f) (room + 3) ts → left.kind = .leftParen →
    Written (.arguments es) room us → es.length ≤ listLimit → paren.kind = .rightParen →
    Written (.expr .call (.call f paren es)) (room + 3) (ts ++ left :: (us ++ [paren]))
  | get {o : Expr} {dot name : Token} {room : Nat} {ts : List Token} :
    Written (.expr .call o) (room + 3) ts → dot.kind = .dot → name.kind = .identifier →
    Written (.expr .call (.get o name)) (room + 3) (ts ++ [dot, name])
  | atom {t : Token} {e : Expr} {room : Nat} :
    atom? t = some e → Written (.expr .primary e) (room + 6) [t]
  | super {keyword dot method : Token} {room : Nat} :
    keyword.kind = .superWord → dot.kind = .dot → method.kind = .identifier →
    Written (.expr .primary (.super ⟨keyword, none⟩ method)) (room + 6) [keyword, dot, method]
  | group {left right : Token} {e : Expr} {room : Nat} {ts : List Token} :
    left.kind = .leftParen → Written (.expr .expression e) room ts → right.kind = .rightParen →
    Written (.expr .primary (.group e)) (room + 2) (left :: (ts ++ [right]))
  | argument {e : Expr} {room : Nat} {ts : List Token} :
    Written (.expr .conditional e) room ts → Written (.arguments [e]) room ts
  | moreArguments {e : Expr} {es : List Expr} {comma : Token} {room : Nat} {ts us : List Token} :
    Written (.expr .conditional e) room ts → comma.kind = .comma → Written (.arguments es) room us →
    Written (.arguments (e :: es)) room (ts ++ comma :: us)

/-- Whether a token of the kind begins an expression that is no prefix operator. -/
def startsCall (kind : TokenKind) : Bool :=
  isAtom kind || kind == .superWord || kind == .leftParen

theorem not_isUnaryOperator {kind : TokenKind} (h : startsCall kind) :
    isUnaryOperator kind = false := by
  cases kind <;> first | rfl | cases h

/-- Whether a token of the kind begins a phrase. -/
def Phrase.starts : Phrase → TokenKind → Bool
  | .expr .call _, kind | .expr .primary _, kind => startsCall kind
  | _, kind => isUnaryOperator kind || startsCall kind

/-- A token that is an expression by itself is of such a kind. -/
theorem isAtom_of_atom? {t : Token} {e : Expr} (h : atom? t = some e) : isAtom t.kind := by
  unfold atom? at h
  cases hkind : t.kind <;> simp_all [isAtom]

namespace Written

variable {φ : Phrase} {t : Tier} {e : Expr} {room : Nat} {ts : List Token}

/-- What is written in some room is written in one unit more. -/
theorem succ (h : Written φ room ts) : Written φ (room + 1) ts := by
  induction h with
  | tighter ht _ ih => exact .tighter ht ih
  | comma _ hop _ ihl ihr => exact .comma ihl hop ihr
  | conditional _ hmark _ hcolon _ iht ihy ihn => exact .conditional iht hmark ihy hcolon ihn
  | assign _ heq _ he iht ihv => exact .assign iht heq ihv he
  | operator _ hop _ ihl ihr => exact .operator ihl hop ihr
  | prefixed hop _ ih => exact .prefixed hop ih
  | callNone _ hl hp ih => exact .callNone ih hl hp
  | call _ hl _ hlen hp ihf iha => exact .call ihf hl iha hlen hp
  | get _ hdot hname ih => exact .get ih hdot hname
  | @atom t e room he => exact @Written.atom t e (room + 1) he
  | @super _ _ _ room hk hd hm => exact @Written.super _ _ _ (room + 1) hk hd hm
  | group hl _ hr ih => exact .group hl ih hr
  | argument _ ih => exact .argument ih
  | moreArguments _ hc _ ihe ihs => exact .moreArguments ihe hc ihs

/-- **What is written in some room is written in any larger one.** -/
theorem mono (h : Written φ room ts) {room' : Nat} (hroom : room ≤ room') :
    Written φ room' ts := by
  induction hroom with
  | refl => exact h
  | step _ ih => exact ih.succ

/-- Nothing is written without a token. -/
theorem ne_nil (h : Written φ room ts) : ts ≠ [] := by
  induction h with
  | tighter _ _ ih | argument _ ih => exact ih
  | _ => simp

theorem length_pos (h : Written φ room ts) : 0 < ts.length :=
  List.length_pos_iff.mpr h.ne_nil

/-- Nothing that is written holds the closing token of a list. -/
theorem endless (h : Written φ room ts) : ∀ t ∈ ts, t.isEnd = false := by
  induction h with
  | tighter _ _ ih | argument _ ih => exact ih
  | @operator level _ _ op _ _ _ _ hop _ ihl ihr =>
    have hend : op.isEnd = false := by
      revert hop
      unfold Token.isEnd
      cases level <;> cases op.kind <;> decide
    simp_all [or_imp]
  | @prefixed op _ _ _ hop _ ih =>
    have hend : op.isEnd = false := by
      revert hop
      unfold Token.isEnd
      cases op.kind <;> decide
    simp_all
  | @atom t _ _ he =>
    have hend : t.isEnd = false := by
      have ht := isAtom_of_atom? he
      revert ht
      unfold Token.isEnd
      cases t.kind <;> decide
    simp_all
  | _ => simp_all [or_imp, Token.isEnd]

/-- Every phrase needs the room in which a token is looked at. -/
theorem six_le (h : Written φ room ts) : 6 ≤ room := by
  induction h with
  | conditional _ _ _ _ _ ih => omega
  | _ => omega

/-- What begins a phrase. -/
theorem head (h : Written φ room ts) : ∃ t us, ts = t :: us ∧ φ.starts t.kind := by
  have happend {us : List Token} {P : TokenKind → Bool} (vs : List Token)
      (h : ∃ t us', us = t :: us' ∧ P t.kind) : ∃ t us', us ++ vs = t :: us' ∧ P t.kind := by
    obtain ⟨t, us', rfl, ht⟩ := h
    exact ⟨t, us' ++ vs, rfl, ht⟩
  induction h with
  | @tighter t _ _ _ _ ht _ ih =>
    obtain ⟨u, us, rfl, hu⟩ := ih
    refine ⟨u, us, rfl, ?_⟩
    cases t with
    | operators level => cases ht; cases level <;> exact hu
    | unary => cases ht; exact Bool.or_eq_true_iff.mpr (.inr hu)
    | _ => cases ht <;> exact hu
  | conditional _ _ _ _ _ ih _ _ => exact happend _ ih
  | comma _ _ _ ih _ | assign _ _ _ _ ih _ | operator _ _ _ ih _ => exact happend _ ih
  | callNone _ _ _ ih | get _ _ _ ih => exact happend _ ih
  | call _ _ _ _ _ ih _ | moreArguments _ _ _ ih _ => exact happend _ ih
  | prefixed hop => exact ⟨_, _, rfl, Bool.or_eq_true_iff.mpr (.inl hop)⟩
  | atom he => exact ⟨_, _, rfl, by simp [Phrase.starts, startsCall, isAtom_of_atom? he]⟩
  | super hk => exact ⟨_, _, rfl, by simp [Phrase.starts, startsCall, hk]⟩
  | group hl => exact ⟨_, _, rfl, by simp [Phrase.starts, startsCall, hl]⟩
  | argument _ ih => exact ih

end Written
end Grammar
end LoxKit
