import LoxKit.Proofs.Grammar.Written

/-!
# The shape and the spelling of expressions

What is written on a tier is stratified: its operands stand on the tiers that the grammar gives
them (`Stratified`), and it is spelled by the tokens that write it, which its parts divide up
from left to right (`Spells`).  Neither mentions the other, nor the room that reading takes.
-/
namespace LoxKit
namespace Grammar

/-- **An expression that keeps to the tiers.**  The operators of a level gather to the left, a
conditional and an assignment to the right, and only a variable or a property is assigned to. -/
inductive Stratified : Tier → Expr → Prop where
  | tighter {t t' : Tier} {e : Expr} :
    t.tighter? = some t' → Stratified t' e → Stratified t e
  | comma {l r : Expr} {op : Token} :
    op.kind = .comma → Stratified .expression l → Stratified .conditional r →
    Stratified .expression (.binary l op r)
  | conditional {test yes no : Expr} :
    Stratified (.operators .either) test → Stratified .conditional yes →
    Stratified .conditional no → Stratified .conditional (.conditional test yes no)
  | assign {r : Reference} {value : Expr} :
    Stratified .conditional value → Stratified .assignment (.assign r value)
  | set {o value : Expr} {property : Token} :
    Stratified .call o → Stratified .conditional value →
    Stratified .assignment (.set o property value)
  | operator {level : Level} {l r : Expr} {op : Token} :
    level.operators op.kind → Stratified (.operators level) l → Stratified (.operand level) r →
    Stratified (.operators level) (level.node l op r)
  | unary {op : Token} {e : Expr} :
    isUnaryOperator op.kind → Stratified .unary e → Stratified .unary (.unary op e)
  | call {f : Expr} {paren : Token} {es : List Expr} :
    Stratified .call f → es.length ≤ listLimit → (∀ e ∈ es, Stratified .conditional e) →
    Stratified .call (.call f paren es)
  | get {o : Expr} {property : Token} : Stratified .call o → Stratified .call (.get o property)
  | literal (v : Literal) : Stratified .primary (.literal v)
  | name (r : Reference) : Stratified .primary (.name r)
  | self (r : Reference) : Stratified .primary (.self r)
  | super (r : Reference) (method : Token) : Stratified .primary (.super r method)
  | group {e : Expr} : Stratified .expression e → Stratified .primary (.group e)

mutual

/-- **The tokens that spell an expression**, from left to right. -/
inductive Spells : Expr → List Token → Prop where
  | atom {t : Token} {e : Expr} : atom? t = some e → Spells e [t]
  | assign {name equals : Token} {value : Expr} {us : List Token} :
    equals.kind = .equal → Spells value us →
    Spells (.assign ⟨name, none⟩ value) (name :: equals :: us)
  | unary {op : Token} {e : Expr} {ts : List Token} :
    Spells e ts → Spells (.unary op e) (op :: ts)
  | binary {l r : Expr} {op : Token} {ts us : List Token} :
    Spells l ts → Spells r us → Spells (.binary l op r) (ts ++ op :: us)
  | logical {l r : Expr} {op : Token} {ts us : List Token} :
    Spells l ts → Spells r us → Spells (.logical l op r) (ts ++ op :: us)
  | conditional {test yes no : Expr} {mark colon : Token} {ts us vs : List Token} :
    Spells test ts → mark.kind = .question → Spells yes us → colon.kind = .colon → Spells no vs →
    Spells (.conditional test yes no) (ts ++ mark :: (us ++ colon :: vs))
  | callNone {f : Expr} {left paren : Token} {ts : List Token} :
    Spells f ts → left.kind = .leftParen → paren.kind = .rightParen →
    Spells (.call f paren []) (ts ++ [left, paren])
  | call {f : Expr} {left paren : Token} {es : List Expr} {ts us : List Token} :
    Spells f ts → left.kind = .leftParen → SpellsAll es us → paren.kind = .rightParen →
    Spells (.call f paren es) (ts ++ left :: (us ++ [paren]))
  | get {o : Expr} {dot property : Token} {ts : List Token} :
    Spells o ts → dot.kind = .dot → Spells (.get o property) (ts ++ [dot, property])
  | set {o value : Expr} {dot property equals : Token} {ts us : List Token} :
    Spells o ts → dot.kind = .dot → equals.kind = .equal → Spells value us →
    Spells (.set o property value) (ts ++ dot :: property :: equals :: us)
  | group {left right : Token} {e : Expr} {ts : List Token} :
    left.kind = .leftParen → Spells e ts → right.kind = .rightParen →
    Spells (.group e) (left :: (ts ++ [right]))
  | super {keyword dot method : Token} :
    keyword.kind = .superWord → dot.kind = .dot →
    Spells (.super ⟨keyword, none⟩ method) [keyword, dot, method]

/-- The tokens that spell expressions with a comma between any two. -/
inductive SpellsAll : List Expr → List Token → Prop where
  | one {e : Expr} {ts : List Token} : Spells e ts → SpellsAll [e] ts
  | more {e : Expr} {es : List Expr} {comma : Token} {ts us : List Token} :
    Spells e ts → comma.kind = .comma → SpellsAll es us → SpellsAll (e :: es) (ts ++ comma :: us)

end

namespace Phrase

/-- A phrase that keeps to the tiers. -/
def Stratified : Phrase → Prop
  | .expr t e => Grammar.Stratified t e
  | .arguments es => ∀ e ∈ es, Grammar.Stratified .conditional e

/-- The tokens spell a phrase. -/
def Spelled (ts : List Token) : Phrase → Prop
  | .expr _ e => Spells e ts
  | .arguments es => SpellsAll es ts

end Phrase

/-- The expressions that a token is by itself. -/
theorem atom?_cases {t : Token} {e : Expr} (h : atom? t = some e) :
    (∃ v, e = .literal v) ∨ (t.kind = .identifier ∧ e = .name ⟨t, none⟩) ∨
      (t.kind = .thisWord ∧ e = .self ⟨t, none⟩) := by
  unfold atom? at h
  split at h
  case h_4 | h_5 =>
    obtain ⟨v, -, hv⟩ := Option.map_eq_some_iff.mp h
    exact .inl ⟨v, hv.symm⟩
  case h_6 hkind => exact .inr (.inr ⟨hkind, (Option.some.inj h).symm⟩)
  case h_7 hkind => exact .inr (.inl ⟨hkind, (Option.some.inj h).symm⟩)
  case h_8 => cases h
  all_goals exact .inl ⟨_, (Option.some.inj h).symm⟩

/-- The object of a property is called upon like any other. -/
theorem Stratified.of_get {t : Tier} {o : Expr} {property : Token}
    (h : Stratified t (.get o property)) : Stratified .call o := by
  generalize he : Expr.get o property = e at h
  induction h with
  | tighter _ _ ih => exact ih he
  | get ho =>
    cases he
    exact ho
  | @operator level => cases level <;> cases he
  | _ => cases he

/-- A name is spelled by its token. -/
theorem Spells.of_name {r : Reference} {ts : List Token} (h : Spells (.name r) ts) :
    ∃ name : Token, r = ⟨name, none⟩ ∧ name.kind = .identifier ∧ ts = [name] := by
  cases h with
  | @atom t _ he =>
    rcases atom?_cases he with ⟨v, h⟩ | ⟨hkind, h⟩ | ⟨-, h⟩ <;> cases h
    exact ⟨t, rfl, hkind, rfl⟩

/-- A property stands behind what spells its object. -/
theorem Spells.of_get {o : Expr} {property : Token} {ts : List Token}
    (h : Spells (.get o property) ts) :
    ∃ us dot, ts = us ++ [dot, property] ∧ Spells o us ∧ dot.kind = .dot := by
  cases h with
  | atom he => rcases atom?_cases he with ⟨v, h⟩ | ⟨-, h⟩ | ⟨-, h⟩ <;> cases h
  | get ho hdot => exact ⟨_, _, rfl, ho, hdot⟩

namespace Written

variable {φ : Phrase} {t : Tier} {e : Expr} {room : Nat} {ts : List Token}

/-- **What is written on a tier is stratified.** -/
theorem stratified (h : Written φ room ts) : φ.Stratified := by
  induction h with
  | tighter ht _ ih => exact .tighter ht ih
  | comma _ hop _ ihl ihr => exact .comma hop ihl ihr
  | conditional _ _ _ _ _ iht ihy ihn => exact .conditional iht ihy ihn
  | @assign target _ _ _ _ _ _ ht _ _ he iht ihv =>
    cases target <;> cases he
    · exact .assign ihv
    · exact .set iht.of_get ihv
  | operator _ hop _ ihl ihr => exact .operator hop ihl ihr
  | prefixed hop _ ih => exact .unary hop ih
  | callNone _ _ _ ih => exact .call ih (Nat.zero_le _) nofun
  | call _ _ _ hes _ ihf iha => exact .call ihf hes iha
  | get _ _ _ ih => exact .get ih
  | atom he =>
    rcases atom?_cases he with ⟨v, rfl⟩ | ⟨-, rfl⟩ | ⟨-, rfl⟩
    · exact .literal v
    · exact .name _
    · exact .self _
  | super => exact .super _ _
  | group _ _ _ ih => exact .group ih
  | argument _ ih => exact List.forall_mem_singleton.mpr ih
  | moreArguments _ _ _ ihe ihs => exact List.forall_mem_cons.mpr ⟨ihe, ihs⟩

/-- **What writes an expression spells it.** -/
theorem spells (h : Written φ room ts) : φ.Spelled ts := by
  induction h with
  | tighter _ _ ih => exact ih
  | comma _ _ _ ihl ihr => exact .binary ihl ihr
  | conditional _ hmark _ hcolon _ iht ihy ihn => exact .conditional iht hmark ihy hcolon ihn
  | @assign target _ _ _ _ _ _ ht hequals _ he iht ihv =>
    cases target <;> cases he
    · obtain ⟨name, rfl, -, rfl⟩ := iht.of_name
      exact .assign hequals ihv
    · obtain ⟨us, dot, rfl, ho, hdot⟩ := iht.of_get
      show Spells _ (us ++ [dot, _] ++ _)
      rw [List.append_assoc]
      exact .set ho hdot hequals ihv
  | @operator level _ _ _ _ _ _ _ _ _ ihl ihr =>
    cases level <;> first | exact .logical ihl ihr | exact .binary ihl ihr
  | prefixed _ _ ih => exact .unary ih
  | callNone _ hleft hparen ih => exact .callNone ih hleft hparen
  | call _ hleft _ _ hparen ihf iha => exact .call ihf hleft iha hparen
  | get _ hdot _ ih => exact .get ih hdot
  | atom he => exact .atom he
  | super hk hd _ => exact .super hk hd
  | group hleft _ hright ih => exact .group hleft ih hright
  | argument _ ih => exact .one ih
  | moreArguments _ hcomma _ ihe ihs => exact .more ihe hcomma ihs

end Written
end Grammar
end LoxKit
