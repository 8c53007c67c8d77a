import LoxKit.Proofs.Grammar.ExpressionLeads
import LoxKit.Proofs.Grammar.Stratified

/-!
# The grammar of expressions, rule by rule

The grammar as a reader of it finds it, in extended Backus-Naur form (`Nonterminal.body`), and
what can be derived from it (`Derives`).  Nothing is said about how tokens are read.  Two things
set it apart from what is written: an assignment may be the test of a conditional, so that there
are two derivations of `a = b ? c : d`, and what is assigned to has a form of its own.

What can be derived is written (`Derives.written`), and the other way round
(`Written.derives`).  The tokens of a conditional whose test is an assignment are written as an
assignment of a conditional.
-/
namespace LoxKit
namespace Grammar

/-! ## Derivations -/

/-- **The right side of a rule.** -/
inductive Ebnf (ρ : Type) where
  /-- A token of one of these kinds. -/
  | token (kinds : List TokenKind)
  | rule (r : ρ)
  | seq (first second : Ebnf ρ)
  | either (one other : Ebnf ρ)
  | optional (item : Ebnf ρ)
  /-- Any number of items. -/
  | many (item : Ebnf ρ)
  /-- At most so many items. -/
  | upTo (n : Nat) (item : Ebnf ρ)

/-- **The tokens that can be derived** by rules with given right sides. -/
inductive Derives {ρ : Type} (body : ρ → Ebnf ρ) : Ebnf ρ → List Token → Prop where
  | token {kinds : List TokenKind} {t : Token} : t.kind ∈ kinds → Derives body (.token kinds) [t]
  | rule {r : ρ} {ts : List Token} : Derives body (body r) ts → Derives body (.rule r) ts
  | seq {first second : Ebnf ρ} {ts us : List Token} :
    Derives body first ts → Derives body second us → Derives body (.seq first second) (ts ++ us)
  | one {one other : Ebnf ρ} {ts : List Token} :
    Derives body one ts → Derives body (.either one other) ts
  | other {one other : Ebnf ρ} {ts : List Token} :
    Derives body other ts → Derives body (.either one other) ts
  | absent {item : Ebnf ρ} : Derives body (.optional item) []
  | present {item : Ebnf ρ} {ts : List Token} :
    Derives body item ts → Derives body (.optional item) ts
  | many {item : Ebnf ρ} {tss : List (List Token)} :
    (∀ ts ∈ tss, Derives body item ts) → Derives body (.many item) tss.flatten
  | upTo {n : Nat} {item : Ebnf ρ} {tss : List (List Token)} :
    tss.length ≤ n → (∀ ts ∈ tss, Derives body item ts) → Derives body (.upTo n item) tss.flatten

variable {ρ : Type}

/-- What a right side stands for if it is known what the rules do. -/
def Ebnf.Means (rules : ρ → List Token → Prop) : Ebnf ρ → List Token → Prop
  | token kinds, ts => ∃ t : Token, t.kind ∈ kinds ∧ ts = [t]
  | rule r, ts => rules r ts
  | seq first second, ts =>
    ∃ us vs, Means rules first us ∧ Means rules second vs ∧ ts = us ++ vs
  | either one other, ts => Means rules one ts ∨ Means rules other ts
  | optional item, ts => ts = [] ∨ Means rules item ts
  | many item, ts => ∃ tss : List (List Token), (∀ us ∈ tss, Means rules item us) ∧ ts = tss.flatten
  | upTo n item, ts => ∃ tss : List (List Token), tss.length ≤ n ∧
      (∀ us ∈ tss, Means rules item us) ∧ ts = tss.flatten

namespace Derives

variable {body : ρ → Ebnf ρ} {g : Ebnf ρ} {ts : List Token}

/-- **What can be derived is meant by any reading of the rules that their right sides bear
out.** -/
theorem means {rules : ρ → List Token → Prop}
    (hrules : ∀ r ts, (body r).Means rules ts → rules r ts) (h : Derives body g ts) :
    g.Means rules ts := by
  induction h with
  | token ht => exact ⟨_, ht, rfl⟩
  | rule _ ih => exact hrules _ _ ih
  | seq _ _ ih ih' => exact ⟨_, _, ih, ih', rfl⟩
  | one _ ih => exact .inl ih
  | other _ ih => exact .inr ih
  | absent => exact .inl rfl
  | present _ ih => exact .inr ih
  | many _ ih => exact ⟨_, ih, rfl⟩
  | upTo hlen _ ih => exact ⟨_, hlen, ih, rfl⟩

end Derives

/-! ## The grammar -/

/-- The operators of a level, by their kinds. -/
def Level.kinds : Level → List TokenKind
  | .either => [.orWord]
  | .both => [.andWord]
  | .equality => [.bangEqual, .equalEqual]
  | .comparison => [.greater, .greaterEqual, .less, .lessEqual]
  | .sum => [.minus, .plus]
  | .product => [.slash, .star]

theorem Level.mem_kinds {level : Level} {kind : TokenKind} :
    kind ∈ level.kinds ↔ level.operators kind := by
  cases level <;> cases kind <;> decide

/-- What the rules of the grammar are for: the expressions of a tier, or arguments. -/
inductive Nonterminal where
  | tier (t : Tier)
  | arguments

namespace Nonterminal

/-- The expressions of a tier. -/
abbrev on (t : Tier) : Ebnf Nonterminal := .rule (.tier t)

/-- A token of a kind. -/
abbrev tok (kind : TokenKind) : Ebnf Nonterminal := .token [kind]

/-- **The grammar of expressions.**  A call has at most `listLimit` arguments. -/
def body : Nonterminal → Ebnf Nonterminal
  | tier .expression => .seq (on .conditional) (.many (.seq (tok .comma) (on .conditional)))
  | tier .conditional => .seq (on .assignment) (.optional (.seq (tok .question)
      (.seq (on .conditional) (.seq (tok .colon) (on .conditional)))))
  | tier .assignment => .either
      (.seq (.optional (.seq (on .call) (tok .dot)))
        (.seq (tok .identifier) (.seq (tok .equal) (on .conditional))))
      (on (.operators .either))
  | tier (.operators level) => .seq (on (.operand level))
      (.many (.seq (.token level.kinds) (on (.operand level))))
  | tier .unary => .either (.seq (.token [.bang, .minus]) (on .unary)) (on .call)
  | tier .call => .seq (on .primary) (.many (.either
      (.seq (tok .leftParen) (.seq (.optional (.rule arguments)) (tok .rightParen)))
      (.seq (tok .dot) (tok .identifier))))
  | tier .primary => .either
      (.token [.trueWord, .falseWord, .nilWord, .number, .string, .identifier, .thisWord])
      (.either (.seq (tok .superWord) (.seq (tok .dot) (tok .identifier)))
        (.seq (tok .leftParen) (.seq (on .expression) (tok .rightParen))))
  | arguments => .seq (on .conditional)
      (.upTo (listLimit - 1) (.seq (tok .comma) (on .conditional)))

end Nonterminal

/-- The tokens can be derived as an expression of the tier. -/
abbrev DerivesOn (t : Tier) : List Token → Prop := Derives Nonterminal.body (Nonterminal.on t)

/-! ## What can be derived is written -/

/-- What is written as a call is written as an expression of operators. -/
theorem Written.operators_of_call {e : Expr} {room : Nat} {ts : List Token}
    (h : Written (.expr .call e) room ts) :
    Written (.expr (.operators .either) e) (room + 14) ts :=
  .tighter rfl <| .tighter rfl <| .tighter rfl <| .tighter rfl <| .tighter rfl <| .tighter rfl <|
    .tighter rfl h

/-- The tokens write some expression of the tier. -/
def Writable (t : Tier) (ts : List Token) : Prop :=
  ∃ e room, Written (.expr t e) room ts

namespace Writable

variable {t t' : Tier} {ts us vs : List Token}

theorem tighter (ht : t.tighter? = some t') (h : Writable t' ts) : Writable t ts := by
  obtain ⟨e, room, he⟩ := h
  exact ⟨e, room + 2, .tighter ht he⟩

theorem comma {op : Token} (hl : Writable .expression ts) (hop : op.kind = .comma)
    (hr : Writable .conditional us) : Writable .expression (ts ++ op :: us) := by
  obtain ⟨l, room, hl⟩ := hl
  obtain ⟨r, room', hr⟩ := hr
  exact ⟨_, _, .comma (hl.mono (show room ≤ room + room' + 2 by omega)) hop (hr.mono (by omega))⟩

theorem operator {level : Level} {op : Token} (hl : Writable (.operators level) ts)
    (hop : level.operators op.kind) (hr : Writable (.operand level) us) :
    Writable (.operators level) (ts ++ op :: us) := by
  obtain ⟨l, room, hl⟩ := hl
  obtain ⟨r, room', hr⟩ := hr
  exact ⟨_, _, .operator (hl.mono (show room ≤ room + room' + 2 by omega)) hop (hr.mono (by omega))⟩

theorem prefixed {op : Token} (hop : isUnaryOperator op.kind) (h : Writable .unary ts) :
    Writable .unary (op :: ts) := by
  obtain ⟨e, room, he⟩ := h
  exact ⟨_, _, .prefixed hop he⟩

theorem atom {t : Token} (h : isAtom t.kind) : Writable .primary [t] := by
  obtain ⟨e, he⟩ := atom?_of_isAtom h
  exact ⟨e, _, @Written.atom t e 0 he⟩

theorem super {keyword dot method : Token} (hk : keyword.kind = .superWord)
    (hd : dot.kind = .dot) (hm : method.kind = .identifier) :
    Writable .primary [keyword, dot, method] :=
  ⟨_, _, @Written.super keyword dot method 0 hk hd hm⟩

theorem group {left right : Token} (hleft : left.kind = .leftParen) (h : Writable .expression ts)
    (hright : right.kind = .rightParen) : Writable .primary (left :: (ts ++ [right])) := by
  obtain ⟨e, room, he⟩ := h
  exact ⟨_, _, .group hleft he hright⟩

theorem callNone {left paren : Token} (h : Writable .call ts) (hleft : left.kind = .leftParen)
    (hparen : paren.kind = .rightParen) : Writable .call (ts ++ [left, paren]) := by
  obtain ⟨e, room, he⟩ := h
  exact ⟨_, _, .callNone (he.mono (Nat.le_add_right room 3)) hleft hparen⟩

theorem call {left paren : Token} {es : List Expr} {room : Nat} (h : Writable .call ts)
    (hleft : left.kind = .leftParen) (hes : Written (.arguments es) room us)
    (hlen : es.length ≤ listLimit) (hparen : paren.kind = .rightParen) :
    Writable .call (ts ++ left :: (us ++ [paren])) := by
  obtain ⟨e, room', he⟩ := h
  exact ⟨_, _, .call (he.mono (show room' ≤ room + room' + 3 by omega)) hleft
    (hes.mono (by omega)) hlen hparen⟩

theorem get {dot name : Token} (h : Writable .call ts) (hdot : dot.kind = .dot)
    (hname : name.kind = .identifier) : Writable .call (ts ++ [dot, name]) := by
  obtain ⟨e, room, he⟩ := h
  exact ⟨_, _, .get (he.mono (Nat.le_add_right room 3)) hdot hname⟩

/-- An assignment to what is written as a call, if it can be assigned to. -/
theorem assign {target : Expr} {room : Nat} {equals : Token}
    (htarget : Written (.expr .call target) room ts) (hequals : equals.kind = .equal)
    (hassigned : ∀ value, (assigned? value target).isSome) (hvalue : Writable .conditional us) :
    Writable .assignment (ts ++ equals :: us) := by
  obtain ⟨value, room', hvalue⟩ := hvalue
  obtain ⟨e, he⟩ := Option.isSome_iff_exists.mp (hassigned value)
  exact ⟨e, _,
    .assign (htarget.operators_of_call.mono (show room + 14 ≤ room + 14 + room' by omega))
      hequals (hvalue.mono (by omega)) he⟩

theorem assignName {name equals : Token} (hname : name.kind = .identifier)
    (hequals : equals.kind = .equal) (hvalue : Writable .conditional us) :
    Writable .assignment (name :: equals :: us) := by
  have hatom : atom? name = some (.name ⟨name, none⟩) := by
    unfold atom?
    rw [hname]
  exact assign (.tighter rfl (@Written.atom name _ 0 hatom)) hequals (fun _ => rfl) hvalue

theorem assignProperty {dot name equals : Token} (h : Writable .call ts) (hdot : dot.kind = .dot)
    (hname : name.kind = .identifier) (hequals : equals.kind = .equal)
    (hvalue : Writable .conditional us) :
    Writable .assignment (ts ++ dot :: name :: equals :: us) := by
  obtain ⟨o, room, ho⟩ := h
  have htarget := Written.get (ho.mono (Nat.le_add_right room 3)) hdot hname
  simpa using assign htarget hequals (fun _ => rfl) hvalue

end Writable

/-- **A `?` behind a conditional or an assignment** goes to the test furthest to the right. -/
theorem Written.question {φ : Phrase} {room : Nat} {ts us vs : List Token} {mark colon : Token}
    (h : Written φ room ts) (hmark : mark.kind = .question) (hyes : Writable .conditional us)
    (hcolon : colon.kind = .colon) (hno : Writable .conditional vs) :
    ∀ t e, φ = .expr t e → t = .conditional ∨ t = .assignment →
      Writable .conditional (ts ++ mark :: (us ++ colon :: vs)) := by
  obtain ⟨yes, room₁, hyes⟩ := hyes
  obtain ⟨no, room₂, hno⟩ := hno
  induction h with
  | @tighter t t' e room ts ht hwritten ih =>
    intro t e hφ htier
    cases hφ
    rcases htier with rfl | rfl
    · cases ht
      exact ih _ _ rfl (.inr rfl)
    · cases ht
      exact ⟨_, _, .conditional (hwritten.mono (show room ≤ room + room₁ + room₂ by omega)) hmark
        (hyes.mono (by omega)) hcolon (hno.mono (by omega))⟩
  | @conditional _ _ _ mark' colon' room ts' us' vs' htest hmark' hyes' hcolon' _ _ _ ih =>
    rintro t e - -
    obtain ⟨no', room₃, hno'⟩ := ih _ _ rfl (.inl rfl)
    have hwhole := Written.conditional (htest.mono (show room ≤ room + room₃ by omega)) hmark'
      (hyes'.mono (by omega)) hcolon' (hno'.mono (by omega))
    exact ⟨_, _, by simpa using hwhole⟩
  | @assign target value e equals room ts' us' htarget hequals _ he _ ih =>
    rintro t e - -
    obtain ⟨value', room₃, hvalue'⟩ := ih _ _ rfl (.inl rfl)
    obtain ⟨e', he'⟩ : ∃ e', assigned? value' target = some e' := by
      cases target <;> cases he <;> exact ⟨_, rfl⟩
    have hwhole := Written.assign (htarget.mono (show room ≤ room + room₃ by omega)) hequals
      (hvalue'.mono (by omega)) he'
    exact ⟨_, _, .tighter rfl (by simpa using hwhole)⟩
  | argument | moreArguments =>
    intro t e hφ
    cases hφ
  | _ =>
    intro t e hφ htier
    cases hφ
    rcases htier with h | h <;> cases h

/-- The tokens write what a rule is for. -/
def Nonterminal.Writes : Nonterminal → List Token → Prop
  | tier t, ts => Writable t ts
  | arguments, ts => ∃ es room, es.length ≤ listLimit ∧ Written (.arguments es) room ts

/-- What is gathered to the left, item by item. -/
theorem gather {P Q : List Token → Prop} (hstep : ∀ ts us, P ts → Q us → P (ts ++ us))
    {ts : List Token} (h : P ts) {tss : List (List Token)} (hall : ∀ us ∈ tss, Q us) :
    P (ts ++ tss.flatten) := by
  induction tss generalizing ts with
  | nil => simpa using h
  | cons us tss ih =>
    rw [List.flatten_cons, ← List.append_assoc]
    exact ih (hstep ts us h (hall us (by simp))) fun vs hvs => hall vs (by simp [hvs])

/-- The arguments of a call, from the first one on. -/
theorem arguments_writes {ts : List Token} {tss : List (List Token)} (h : Writable .conditional ts)
    (hall : ∀ us ∈ tss, ∃ comma vs, comma.kind = .comma ∧ Writable .conditional vs ∧
      us = comma :: vs) :
    ∃ es room, es.length = tss.length + 1 ∧ Written (.arguments es) room (ts ++ tss.flatten) := by
  induction tss generalizing ts with
  | nil =>
    obtain ⟨e, room, he⟩ := h
    exact ⟨[e], room, rfl, by simpa using Written.argument he⟩
  | cons us tss ih =>
    obtain ⟨comma, vs, hcomma, hvs, rfl⟩ := hall us (by simp)
    obtain ⟨es, room', hlen, hes⟩ := ih hvs fun us' hus' => hall us' (by simp [hus'])
    obtain ⟨e, room, he⟩ := h
    have hmore := Written.moreArguments (he.mono (show room ≤ room + room' by omega)) hcomma
      (hes.mono (by omega))
    exact ⟨e :: es, _, by simp [hlen], by simpa using hmore⟩

/-- **The right side of each rule writes what the rule is for.** -/
theorem Nonterminal.writes_of_body (r : Nonterminal) (ts : List Token)
    (h : r.body.Means Nonterminal.Writes ts) : r.Writes ts := by
  match r with
  | tier .expression =>
    obtain ⟨us, _, hus, ⟨tss, hall, rfl⟩, rfl⟩ := h
    refine gather (P := Writable .expression) (fun ts us hts hus => ?_) (.tighter rfl hus) hall
    obtain ⟨_, vs, ⟨op, hop, rfl⟩, hvs, rfl⟩ := hus
    exact hts.comma (List.mem_singleton.mp hop) hvs
  | tier .conditional =>
    obtain ⟨us, _, hus, hrest, rfl⟩ := h
    rcases hrest with rfl | ⟨_, _, ⟨mark, hmark, rfl⟩, ⟨yes, _, hyes, ⟨_, no, ⟨colon, hcolon, rfl⟩,
      hno, rfl⟩, rfl⟩, rfl⟩
    · rw [List.append_nil]
      exact .tighter rfl hus
    · obtain ⟨e, room, he⟩ := hus
      exact he.question (List.mem_singleton.mp hmark) hyes (List.mem_singleton.mp hcolon) hno _ _
        rfl (.inr rfl)
  | tier .assignment =>
    rcases h with ⟨_, _, htarget, ⟨_, _, ⟨name, hname, rfl⟩, ⟨_, us, ⟨equals, hequals, rfl⟩, hus,
      rfl⟩, rfl⟩, rfl⟩ | h
    · have hname := List.mem_singleton.mp hname
      have hequals := List.mem_singleton.mp hequals
      rcases htarget with rfl | ⟨vs, _, hvs, ⟨dot, hdot, rfl⟩, rfl⟩
      · exact .assignName hname hequals hus
      · rw [List.append_assoc]
        exact .assignProperty hvs (List.mem_singleton.mp hdot) hname hequals hus
    · exact .tighter rfl h
  | tier (.operators level) =>
    obtain ⟨us, _, hus, ⟨tss, hall, rfl⟩, rfl⟩ := h
    refine gather (P := Writable (.operators level)) (fun ts us hts hus => ?_)
      (.tighter rfl hus) hall
    obtain ⟨_, vs, ⟨op, hop, rfl⟩, hvs, rfl⟩ := hus
    exact hts.operator (Level.mem_kinds.mp hop) hvs
  | tier .unary =>
    rcases h with ⟨_, us, ⟨op, hop, rfl⟩, hus, rfl⟩ | h
    · refine Writable.prefixed ?_ hus
      rcases List.mem_cons.mp hop with hop | hop
      · rw [hop]; rfl
      · rw [List.mem_singleton.mp hop]; rfl
    · exact .tighter rfl h
  | tier .call =>
    obtain ⟨us, _, hus, ⟨tss, hall, rfl⟩, rfl⟩ := h
    refine gather (P := Writable .call) (fun ts us hts hus => ?_) (.tighter rfl hus) hall
    rcases hus with ⟨_, _, ⟨left, hleft, rfl⟩, ⟨args, _, hargs, ⟨paren, hparen, rfl⟩, rfl⟩, rfl⟩ |
      ⟨_, _, ⟨dot, hdot, rfl⟩, ⟨name, hname, rfl⟩, rfl⟩
    · have hleft := List.mem_singleton.mp hleft
      have hparen := List.mem_singleton.mp hparen
      rcases hargs with rfl | ⟨es, room, hlen, hes⟩
      · exact hts.callNone hleft hparen
      · exact hts.call hleft hes hlen hparen
    · exact hts.get (List.mem_singleton.mp hdot) (List.mem_singleton.mp hname)
  | tier .primary =>
    rcases h with ⟨t, ht, rfl⟩ | ⟨_, _, ⟨keyword, hk, rfl⟩, ⟨_, _, ⟨dot, hd, rfl⟩, ⟨method, hm,
      rfl⟩, rfl⟩, rfl⟩ | ⟨_, _, ⟨left, hleft, rfl⟩, ⟨us, _, hus, ⟨right, hright, rfl⟩, rfl⟩, rfl⟩
    · refine Writable.atom ?_
      revert ht
      cases t.kind <;> decide
    · exact .super (List.mem_singleton.mp hk) (List.mem_singleton.mp hd) (List.mem_singleton.mp hm)
    · exact .group (List.mem_singleton.mp hleft) hus (List.mem_singleton.mp hright)
  | arguments =>
    obtain ⟨us, _, hus, ⟨tss, hlen, hall, rfl⟩, rfl⟩ := h
    obtain ⟨es, room, hes, hwritten⟩ := arguments_writes hus fun us' hus' => by
      obtain ⟨_, vs, ⟨comma, hcomma, rfl⟩, hvs, rfl⟩ := hall us' hus'
      exact ⟨comma, vs, List.mem_singleton.mp hcomma, hvs, rfl⟩
    exact ⟨es, room, by rw [hes]; exact Nat.add_le_of_le_sub (by decide) hlen, hwritten⟩

/-- **What can be derived on a tier is written on it.** -/
theorem DerivesOn.writable {t : Tier} {ts : List Token} (h : DerivesOn t ts) : Writable t ts :=
  Derives.means Nonterminal.writes_of_body h

/-! ## What is written can be derived -/

namespace Derives

variable {body : ρ → Ebnf ρ} {item : Ebnf ρ} {ts us : List Token}

theorem kind {k : TokenKind} {t : Token} (h : t.kind = k) : Derives body (.token [k]) [t] :=
  .token (List.mem_singleton.mpr h)

theorem none : Derives body (.many item) [] :=
  @Derives.many ρ body item [] nofun

theorem upToNone {n : Nat} : Derives body (.upTo n item) [] :=
  @Derives.upTo ρ body n item [] (Nat.zero_le n) nofun

/-- One more item behind the others. -/
theorem snoc (h : Derives body (.many item) ts) (hitem : Derives body item us) :
    Derives body (.many item) (ts ++ us) := by
  cases h with
  | many hall =>
    rename_i tss
    have hmore : ∀ vs ∈ tss ++ [us], Derives body item vs :=
      List.forall_mem_append.mpr ⟨hall, List.forall_mem_singleton.mpr hitem⟩
    simpa using Derives.many hmore

/-- One more item in front of the others. -/
theorem cons {n : Nat} (hitem : Derives body item ts) (h : Derives body (.upTo n item) us) :
    Derives body (.upTo (n + 1) item) (ts ++ us) := by
  cases h with
  | upTo hlen hall =>
    rename_i tss
    have hmore : ∀ vs ∈ ts :: tss, Derives body item vs := List.forall_mem_cons.mpr ⟨hitem, hall⟩
    exact Derives.upTo (Nat.succ_le_succ hlen) hmore

/-- A higher bound on the number of items. -/
theorem upTo_le {first : Ebnf ρ} {n m : Nat} (h : Derives body (.seq first (.upTo n item)) ts)
    (hle : n ≤ m) : Derives body (.seq first (.upTo m item)) ts := by
  cases h with
  | seq hfirst hmore =>
    cases hmore with
    | upTo hlen hall => exact .seq hfirst (.upTo (Nat.le_trans hlen hle) hall)

/-- One more item behind those that follow the first. -/
theorem snoc_seq {first : Ebnf ρ} (h : Derives body (.seq first (.many item)) ts)
    (hitem : Derives body item us) : Derives body (.seq first (.many item)) (ts ++ us) := by
  cases h with
  | seq hfirst hmany =>
    rw [List.append_assoc]
    exact .seq hfirst (hmany.snoc hitem)

end Derives

/-- A rule derives what its right side does. -/
theorem Derives.of_rule {r : Nonterminal} {ts : List Token}
    (h : Derives Nonterminal.body (.rule r) ts) : Derives Nonterminal.body r.body ts := by
  cases h with
  | rule h => exact h

/-- The tokens of a property can be derived as its object, a dot and a name. -/
def PropertyDerived : Expr → List Token → Prop
  | .get _ property, ts => ∃ us dot, DerivesOn .call us ∧ dot.kind = .dot ∧
      property.kind = .identifier ∧ ts = us ++ [dot, property]
  | _, _ => True

/-- The tokens of a phrase can be derived. -/
def Phrase.Derived (ts : List Token) : Phrase → Prop
  | .expr t e => DerivesOn t ts ∧ PropertyDerived e ts
  | .arguments es => ∃ n, es.length = n + 1 ∧ Derives Nonterminal.body
      (.seq (Nonterminal.on .conditional)
        (.upTo n (.seq (Nonterminal.tok .comma) (Nonterminal.on .conditional)))) ts

theorem DerivesOn.tighter {t t' : Tier} {ts : List Token} (ht : t.tighter? = some t')
    (h : DerivesOn t' ts) : DerivesOn t ts := by
  have hfirst (item : Ebnf Nonterminal) (hnone : Derives Nonterminal.body item []) :
      Derives Nonterminal.body (.seq (Nonterminal.on t') item) ts := by
    simpa using Derives.seq h hnone
  cases t with
  | expression => cases ht; exact .rule (hfirst _ .none)
  | conditional =>
    cases ht
    exact .rule (hfirst _ .absent)
  | assignment => cases ht; exact .rule (.other h)
  | operators level => cases ht; exact .rule (hfirst _ .none)
  | unary => cases ht; exact .rule (.other h)
  | call => cases ht; exact .rule (hfirst _ .none)
  | primary => cases ht

/-- **What is written can be derived.** -/
theorem Written.derived {φ : Phrase} {room : Nat} {ts : List Token} (h : Written φ room ts) :
    φ.Derived ts := by
  induction h with
  | tighter ht _ ih => exact ⟨ih.1.tighter ht, ih.2⟩
  | comma _ hop _ ihl ihr =>
    exact ⟨.rule (ihl.1.of_rule.snoc_seq (.seq (.kind hop) ihr.1)), trivial⟩
  | conditional _ hmark _ hcolon _ iht ihy ihn =>
    exact ⟨.rule (.seq (.rule (.other iht.1)) (.present
      (.seq (.kind hmark) (.seq ihy.1 (.seq (.kind hcolon) ihn.1))))), trivial⟩
  | @assign target value e equals room ts us htarget hequals _ he iht ihv =>
    cases target <;> cases he
    · obtain ⟨name, -, hname, rfl⟩ := htarget.spells.of_name
      have htarget : Derives Nonterminal.body (.optional (.seq (Nonterminal.on .call)
        (Nonterminal.tok .dot))) [] := .absent
      exact ⟨.rule (.one (htarget.seq (.seq (.kind hname) (.seq (.kind hequals) ihv.1)))), trivial⟩
    · obtain ⟨us', dot, ho, hdot, hname, rfl⟩ := iht.2
      refine ⟨.rule (.one ?_), trivial⟩
      simpa using Derives.seq (.present (.seq ho (.kind hdot)))
        (.seq (.kind hname) (.seq (.kind hequals) ihv.1))
  | @operator level _ _ _ _ _ _ _ hop _ ihl ihr =>
    refine ⟨.rule (ihl.1.of_rule.snoc_seq (.seq (.token (Level.mem_kinds.mpr hop)) ihr.1)), ?_⟩
    cases level <;> trivial
  | @prefixed op _ _ _ hop _ ih =>
    refine ⟨.rule (.one (.seq (.token ?_) ih.1)), trivial⟩
    revert hop
    cases op.kind <;> decide
  | callNone _ hleft hparen ih =>
    exact ⟨.rule (ih.1.of_rule.snoc_seq (.one (.seq (.kind hleft)
      (.seq .absent (.kind hparen))))), trivial⟩
  | call _ hleft _ hes hparen ihf iha =>
    obtain ⟨n, hn, hargs⟩ := iha
    exact ⟨.rule (ihf.1.of_rule.snoc_seq (.one (.seq (.kind hleft)
      (.seq (.present (.rule (hargs.upTo_le (by omega)))) (.kind hparen))))), trivial⟩
  | get _ hdot hname ih =>
    exact ⟨.rule (ih.1.of_rule.snoc_seq (.other (.seq (.kind hdot) (.kind hname)))),
      _, _, ih.1, hdot, hname, rfl⟩
  | @atom t e _ he =>
    refine ⟨.rule (.one (.token ?_)), ?_⟩
    · have ht := isAtom_of_atom? he
      revert ht
      cases t.kind <;> decide
    · rcases atom?_cases he with ⟨v, rfl⟩ | ⟨-, rfl⟩ | ⟨-, rfl⟩ <;> trivial
  | super hk hd hm =>
    exact ⟨.rule (.other (.one (.seq (.kind hk) (.seq (.kind hd) (.kind hm))))), trivial⟩
  | group hleft _ hright ih =>
    exact ⟨.rule (.other (.other (.seq (.kind hleft) (.seq ih.1 (.kind hright))))), trivial⟩
  | argument _ ih => exact ⟨0, rfl, by simpa using Derives.seq ih.1 .upToNone⟩
  | moreArguments _ hcomma _ ihe ihs =>
    obtain ⟨n, hn, hargs⟩ := ihs
    refine ⟨n + 1, by simp [hn], .seq ihe.1 ?_⟩
    cases hargs with
    | seq hfirst hmore => exact .cons (.seq (.kind hcomma) hfirst) hmore

/-! ## A whole token list -/

/-- The tokens of an expression are read as no other. -/
theorem Written.unique {e e' : Expr} {room room' : Nat} {ts : List Token}
    (h : Written (.expr .expression e) room ts) (h' : Written (.expr .expression e') room' ts) :
    e = e' := by
  have hread :=
    (h.mono (Nat.le_max_left room room')).closedExpression_leads (Nat.le_refl _) (l := 0)
  have hread' :=
    (h'.mono (Nat.le_max_right room room')).closedExpression_leads (Nat.le_refl _) (l := 0)
  have hsame := (hread [.endAt 0] [] rfl).symm.trans (hread' [.endAt 0] [] rfl)
  cases hsame
  rfl

/-- **Tokens that nest within the room**: what they write, they write in it. -/
def NestsWithin (room : Nat) (ts : List Token) : Prop :=
  ∀ e room', Written (.expr .expression e) room' ts → Written (.expr .expression e) room ts

/-- It is enough to write one expression in the room. -/
theorem Written.nestsWithin {e : Expr} {room : Nat} {ts : List Token}
    (h : Written (.expr .expression e) room ts) : NestsWithin room ts := by
  intro e' room' h'
  rwa [h'.unique h]

/-- **Reading accepts exactly the grammar.**  Tokens that nest within the room are read as an
expression, with no fault, if and only if the grammar derives them; the expression is then
stratified, and the tokens spell it from left to right. -/
theorem ofTokens?_exact {room : Nat} {ts : List Token} {z : Token} (hz : z.isEnd)
    (hts : ∀ t ∈ ts, t.isEnd = false) (hroom : NestsWithin room ts) :
    ((∃ e, Expr.ofTokens? room (ts ++ [z]) = ⟨some e, []⟩) ↔ DerivesOn .expression ts) ∧
      ∀ e, Expr.ofTokens? room (ts ++ [z]) = ⟨some e, []⟩ →
        Stratified .expression e ∧ Spells e ts := by
  refine ⟨⟨?_, ?_⟩, ?_⟩
  · rintro ⟨e, he⟩
    exact ((ofTokens?_iff hz hts).mp he).derived.1
  · intro h
    obtain ⟨e, room', hwritten⟩ := h.writable
    exact ⟨e, (ofTokens?_iff hz hts).mpr (hroom e room' hwritten)⟩
  · intro e he
    have hwritten := (ofTokens?_iff hz hts).mp he
    exact ⟨hwritten.stratified, hwritten.spells⟩

/-- The tokens of `a = b ? c : d`. -/
def assignedConditional : List Token :=
  [⟨.identifier, "a", 1⟩, ⟨.equal, "=", 1⟩, ⟨.identifier, "b", 1⟩, ⟨.question, "?", 1⟩,
    ⟨.identifier, "c", 1⟩, ⟨.colon, ":", 1⟩, ⟨.identifier, "d", 1⟩]

/-- An assignment of a conditional, though the grammar also derives its tokens as a conditional
whose test is an assignment. -/
theorem ofTokens?_exact_of_assignedConditional :
    DerivesOn .expression assignedConditional ∧
      Stratified .expression (.assign ⟨⟨.identifier, "a", 1⟩, none⟩
        (.conditional (.name ⟨⟨.identifier, "b", 1⟩, none⟩) (.name ⟨⟨.identifier, "c", 1⟩, none⟩)
          (.name ⟨⟨.identifier, "d", 1⟩, none⟩))) := by
  have hrun : Expr.ofTokens? 40 (assignedConditional ++ [.endAt 1]) =
      ⟨some (.assign ⟨⟨.identifier, "a", 1⟩, none⟩
        (.conditional (.name ⟨⟨.identifier, "b", 1⟩, none⟩) (.name ⟨⟨.identifier, "c", 1⟩, none⟩)
          (.name ⟨⟨.identifier, "d", 1⟩, none⟩))), []⟩ := by rfl
  have hnests := ((ofTokens?_iff rfl (by decide)).mp hrun).nestsWithin
  have hexact := ofTokens?_exact (z := .endAt 1) rfl (by decide) hnests
  exact ⟨hexact.1.mp ⟨_, hrun⟩, (hexact.2 _ hrun).1⟩

end Grammar
end LoxKit
