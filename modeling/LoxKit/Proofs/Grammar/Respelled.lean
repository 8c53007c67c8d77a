import LoxKit.Proofs.Grammar.Passage
import LoxKit.Proofs.Grammar.Stratified
import LoxKit.Proofs.Tree.Respelled

/-!
# Names spelled anew in tokens

A tree that differs from another in the spelling of some names is written by the tokens of the
other with these names spelled anew (`Passage.Written.respelled`): the grammar looks at the kinds
of tokens, and a name keeps its kind.
-/
namespace LoxKit
namespace Grammar

variable {R : Renaming}

/-- **Tokens of which some are spelled anew.** -/
abbrev Respelled (R : Renaming) (ts ts' : List Token) : Prop := List.Forall₂ R.Spells ts ts'

namespace Respelled

variable {t t' : Token} {ts ts' us us' : List Token}

theorem refl (R : Renaming) (ts : List Token) : Respelled R ts ts :=
  List.forall₂_same.mpr fun t _ => .refl R t

/-- A token that stays as it is, and the rest. -/
theorem keep (t : Token) (h : Respelled R ts ts') : Respelled R (t :: ts) (t :: ts') :=
  .cons (.refl R t) h

theorem append (h : Respelled R ts ts') (h' : Respelled R us us') :
    Respelled R (ts ++ us) (ts' ++ us') := List.rel_append h h'

/-- A last token that stays as it is. -/
theorem before (t : Token) (h : Respelled R ts ts') : Respelled R (ts ++ [t]) (ts' ++ [t]) :=
  h.append (.refl R [t])

end Respelled

/-! ## Expressions -/

/-- **Whatever names of a phrase are spelled anew**, it is written with tokens spelled anew. -/
def Phrase.Respells (R : Renaming) (room : Nat) (ts : List Token) : Phrase → Prop
  | .expr t e =>
    ∀ e', e.Respelled R e' → ∃ ts', Respelled R ts ts' ∧ Written (.expr t e') room ts'
  | .arguments es =>
    ∀ es', Expr.AllRespelled R es es' → ∃ ts', Respelled R ts ts' ∧ Written (.arguments es') room ts'

/-- What was made of a target and a value spelled anew is made of a target and a value spelled
anew. -/
theorem assigned?_respelled {value target e e' : Expr} (h : assigned? value target = some e)
    (he : e.Respelled R e') : ∃ value' target', value.Respelled R value' ∧
      target.Respelled R target' ∧ assigned? value' target' = some e' := by
  cases target with
  | name r =>
    cases h
    cases he with
    | @assign t t' v v' ht hv => exact ⟨v', .name ⟨t', none⟩, hv, .name ht, rfl⟩
  | get o p =>
    cases h
    cases he with
    | @set o o' v v' _ ho hv => exact ⟨v', .get o' p, hv, .get p ho, rfl⟩
  | _ => cases h

/-- An expression that is a single token is one spelled anew. -/
theorem atom?_respelled {t : Token} {e e' : Expr} (h : atom? t = some e) (he : e.Respelled R e') :
    ∃ t', R.Spells t t' ∧ atom? t' = some e' := by
  rcases atom?_cases h with ⟨v, rfl⟩ | ⟨hkind, rfl⟩ | ⟨hkind, rfl⟩
  · cases he
    exact ⟨t, .refl R t, h⟩
  · cases he with
    | @name _ t' ht => exact ⟨t', ht, by simp [atom?, ht.kind, hkind]⟩
  · cases he with
    | @self _ t' ht => exact ⟨t', ht, by simp [atom?, ht.kind, hkind]⟩

/-- **Written with names spelled anew**, a phrase differs in these names alone. -/
theorem Written.respelled {φ : Phrase} {room : Nat} {ts : List Token} (h : Written φ room ts) :
    φ.Respells R room ts := by
  induction h with
  | tighter ht _ ih =>
    intro e' he
    obtain ⟨ts', hts, hwritten⟩ := ih e' he
    exact ⟨ts', hts, .tighter ht hwritten⟩
  | @comma _ _ op _ _ _ _ hop _ ihl ihr =>
    intro e' he
    cases he with
    | binary _ hl hr =>
      obtain ⟨ts', hts, hleft⟩ := ihl _ hl
      obtain ⟨us', hus, hright⟩ := ihr _ hr
      exact ⟨_, hts.append (hus.keep op), .comma hleft hop hright⟩
  | @conditional _ _ _ mark colon _ _ _ _ _ hmark _ hcolon _ iht ihy ihn =>
    intro e' he
    cases he with
    | conditional ht hy hn =>
      obtain ⟨ts', hts, htest⟩ := iht _ ht
      obtain ⟨us', hus, hyes⟩ := ihy _ hy
      obtain ⟨vs', hvs, hno⟩ := ihn _ hn
      exact ⟨_, hts.append ((hus.append (hvs.keep colon)).keep mark),
        .conditional htest hmark hyes hcolon hno⟩
  | @assign _ _ _ equals _ _ _ _ hequals _ hassigned iht ihv =>
    intro e' he
    obtain ⟨value, target, hv, ht, he'⟩ := assigned?_respelled hassigned he
    obtain ⟨ts', hts, htarget⟩ := iht _ ht
    obtain ⟨us', hus, hvalue⟩ := ihv _ hv
    exact ⟨_, hts.append (hus.keep equals), .assign htarget hequals hvalue he'⟩
  | @operator level _ _ op _ _ _ _ hop _ ihl ihr =>
    intro e' he
    obtain ⟨l, r, hl, hr, rfl⟩ : ∃ l r, Expr.Respelled R _ l ∧ Expr.Respelled R _ r ∧
        e' = level.node l op r := by
      cases level <;> cases he <;> exact ⟨_, _, ‹_›, ‹_›, rfl⟩
    obtain ⟨ts', hts, hleft⟩ := ihl l hl
    obtain ⟨us', hus, hright⟩ := ihr r hr
    exact ⟨_, hts.append (hus.keep op), .operator hleft hop hright⟩
  | @prefixed op _ _ _ hop _ ih =>
    intro e' he
    cases he with
    | unary _ he =>
      obtain ⟨ts', hts, hwritten⟩ := ih _ he
      exact ⟨_, hts.keep op, .prefixed hop hwritten⟩
  | @callNone _ left paren _ _ _ hleft hparen ih =>
    intro e' he
    cases he with
    | call _ hf hargs =>
      cases hargs
      obtain ⟨ts', hts, hwritten⟩ := ih _ hf
      exact ⟨_, hts.append (.refl R [left, paren]), .callNone hwritten hleft hparen⟩
  | @call _ left paren _ _ _ _ _ hleft _ hlen hparen ihf iha =>
    intro e' he
    cases he with
    | call _ hf hargs =>
      obtain ⟨ts', hts, hwritten⟩ := ihf _ hf
      obtain ⟨us', hus, harguments⟩ := iha _ hargs
      exact ⟨_, hts.append ((hus.before paren).keep left),
        .call hwritten hleft harguments (by rwa [hargs.length]) hparen⟩
  | @get _ dot name _ _ _ hdot hname ih =>
    intro e' he
    cases he with
    | get _ ho =>
      obtain ⟨ts', hts, hwritten⟩ := ih _ ho
      exact ⟨_, hts.append (.refl R [dot, name]), .get hwritten hdot hname⟩
  | @atom t e room he =>
    intro e' hrespelled
    obtain ⟨t', ht, he'⟩ := atom?_respelled he hrespelled
    exact ⟨[t'], .cons ht .nil, @Written.atom t' e' room he'⟩
  | @super keyword dot method room hk hd hm =>
    intro e' he
    cases he with
    | super _ ht =>
      exact ⟨_, .cons ht (Respelled.refl R [dot, method]),
        @Written.super _ dot method room (ht.kind.trans hk) hd hm⟩
  | @group left right _ _ _ hleft _ hright ih =>
    intro e' he
    cases he with
    | group he =>
      obtain ⟨ts', hts, hwritten⟩ := ih _ he
      exact ⟨_, (hts.before right).keep left, .group hleft hwritten hright⟩
  | argument _ ih =>
    intro es' hes
    cases hes with
    | cons he hrest =>
      cases hrest
      obtain ⟨ts', hts, hwritten⟩ := ih _ he
      exact ⟨ts', hts, .argument hwritten⟩
  | @moreArguments _ _ comma _ _ _ _ hcomma _ ihe ihs =>
    intro es' hes
    cases hes with
    | cons he hes =>
      obtain ⟨ts', hts, hwritten⟩ := ihe _ he
      obtain ⟨us', hus, hargs⟩ := ihs _ hes
      exact ⟨_, hts.append (hus.keep comma), .moreArguments hwritten hcomma hargs⟩

/-! ## Statements -/

theorem ClauseWritten.respelled {room : Nat} {e e' : Option Expr} {ts : List Token}
    (h : ClauseWritten room e ts) (he : Option.Rel (Expr.Respelled R) e e') :
    ∃ ts', Respelled R ts ts' ∧ ClauseWritten room e' ts' := by
  cases he with
  | none =>
    cases h
    exact ⟨[], .nil, rfl⟩
  | some he => exact Written.respelled h _ he

theorem InitialWritten.respelled {room : Nat} {e e' : Option Expr} {ts : List Token}
    (h : InitialWritten room e ts) (he : Option.Rel (Expr.Respelled R) e e') :
    ∃ ts', Respelled R ts ts' ∧ InitialWritten room e' ts' := by
  cases he with
  | none =>
    cases h
    exact ⟨[], .nil, rfl⟩
  | some he =>
    obtain ⟨equals, us, hequals, hwritten, rfl⟩ := h
    obtain ⟨us', hus, hwritten⟩ := hwritten.respelled _ he
    exact ⟨_, hus.keep equals, equals, us', hequals, hwritten, rfl⟩

theorem VariableWritten.respelled {room : Nat} {s s' : Stmt} {ts : List Token}
    (h : VariableWritten room s ts) (hs : s.Respelled R s') :
    ∃ ts', Respelled R ts ts' ∧ VariableWritten room s' ts' := by
  cases h with
  | @mk name semicolon _ _ hroom hname hinitial hsemicolon =>
    cases hs with
    | var hn he =>
      obtain ⟨us', hus, hwritten⟩ := hinitial.respelled he
      exact ⟨_, .cons hn (hus.before semicolon),
        .mk hroom (hn.kind.trans hname) hwritten hsemicolon⟩

theorem FirstWritten.respelled {room : Nat} {s s' : Option Stmt} {ts : List Token}
    (h : FirstWritten room s ts) (hs : Option.Rel (Stmt.Respelled R) s s') :
    ∃ ts', Respelled R ts ts' ∧ FirstWritten room s' ts' := by
  cases h with
  | @none semicolon hsemicolon =>
    cases hs
    exact ⟨_, .refl R [semicolon], .none hsemicolon⟩
  | @var keyword _ _ hkeyword hwritten =>
    cases hs with
    | some hs =>
      obtain ⟨us', hus, hwritten⟩ := hwritten.respelled hs
      exact ⟨_, hus.keep keyword, .var hkeyword hwritten⟩
  | @expression _ semicolon _ hwritten hsemicolon =>
    cases hs with
    | some hs =>
      cases hs with
      | expression he =>
        obtain ⟨us', hus, hwritten⟩ := hwritten.respelled _ he
        exact ⟨_, hus.before semicolon, .expression hwritten hsemicolon⟩

theorem ParamsWritten.respelled {ps ps' ts : List Token} (h : ParamsWritten ps ts)
    (hps : Respelled R ps ps') : ∃ ts', Respelled R ts ts' ∧ ParamsWritten ps' ts' := by
  rcases h with ⟨rfl, rfl⟩ | ⟨hlist, hlen⟩
  · cases hps
    exact ⟨[], .nil, .inl ⟨rfl, rfl⟩⟩
  · have hlist' : ∃ ts', Respelled R ts ts' ∧
        CommaList (fun (p : Token) ts => ts = [p] ∧ p.kind = .identifier) ps' ts' := by
      clear hlen
      induction hlist generalizing ps' with
      | one hp =>
        obtain ⟨rfl, hp⟩ := hp
        cases hps with
        | @cons _ p' _ _ hp' hps =>
          cases hps
          exact ⟨[p'], .cons hp' .nil, .one ⟨rfl, hp'.kind.trans hp⟩⟩
      | @more _ _ comma _ _ hp hcomma _ ih =>
        obtain ⟨rfl, hp⟩ := hp
        cases hps with
        | @cons _ p' _ _ hp' hps =>
          obtain ⟨us', hus, hwritten⟩ := ih hps
          exact ⟨_, .cons hp' (hus.keep comma), .more ⟨rfl, hp'.kind.trans hp⟩ hcomma hwritten⟩
    obtain ⟨ts', hts, hwritten⟩ := hlist'
    exact ⟨ts', hts, .inr ⟨hwritten, by rwa [← hps.length_eq]⟩⟩

/-- A loop whose turns end with a clause differs from another in the spelling of names if the
clause and the body do. -/
theorem loop_respelled {test increment : Option Expr} {body s' : Stmt}
    (h : (Stmt.forLoop none test increment body).Respelled R s') :
    ∃ (test' increment' : Option Expr) (body' : Stmt), s' = .forLoop none test' increment' body' ∧
      Option.Rel (Expr.Respelled R) test test' ∧
      Option.Rel (Expr.Respelled R) increment increment' ∧ body.Respelled R body' := by
  have htest : ∀ {e' : Expr}, (test.getD (.literal (.bool true))).Respelled R e' →
      ∃ test' : Option Expr, e' = test'.getD (.literal (.bool true)) ∧
        Option.Rel (Expr.Respelled R) test test' := by
    intro e' he
    cases test with
    | none =>
      cases he
      exact ⟨none, rfl, .none⟩
    | some e => exact ⟨some e', rfl, .some he⟩
  cases increment with
  | none =>
    cases h with
    | loop ht hb =>
      obtain ⟨test', rfl, ht'⟩ := htest ht
      exact ⟨test', none, _, rfl, ht', .none, hb⟩
  | some e =>
    cases h with
    | loop ht hturn =>
      obtain ⟨test', rfl, ht'⟩ := htest ht
      cases hturn with
      | block hss =>
        obtain _ | ⟨hb, _ | ⟨he, _ | _⟩⟩ := hss
        cases he with
        | expression he => exact ⟨test', some _, _, rfl, ht', .some he, hb⟩

/-- The statement that a `for` statement stands for differs from another in the spelling of names
if their clauses and bodies do. -/
theorem forLoop_respelled {initial : Option Stmt} {test increment : Option Expr} {body s' : Stmt}
    (h : (Stmt.forLoop initial test increment body).Respelled R s') :
    ∃ (initial' : Option Stmt) (test' increment' : Option Expr) (body' : Stmt),
      s' = .forLoop initial' test' increment' body' ∧
      Option.Rel (Stmt.Respelled R) initial initial' ∧
      Option.Rel (Expr.Respelled R) test test' ∧
      Option.Rel (Expr.Respelled R) increment increment' ∧ body.Respelled R body' := by
  cases initial with
  | none =>
    obtain ⟨test', increment', body', rfl, ht, hn, hb⟩ := loop_respelled h
    exact ⟨none, test', increment', body', rfl, .none, ht, hn, hb⟩
  | some s =>
    cases h with
    | block hss =>
      obtain _ | ⟨hs, _ | ⟨hloop, _ | _⟩⟩ := hss
      obtain ⟨test', increment', body', rfl, ht, hn, hb⟩ := loop_respelled hloop
      exact ⟨some _, test', increment', body', rfl, .some hs, ht, hn, hb⟩

/-- **Whatever names of a passage are spelled anew**, it is written with tokens spelled anew. -/
def Passage.Respells (R : Renaming) (l room : Nat) (ts : List Token) : Passage → Prop
  | .statement s isOpen => ∀ s', s.Respelled R s' →
    ∃ ts', Respelled R ts ts' ∧ Passage.Written (.statement s' isOpen) l room ts'
  | .declaration s isOpen => ∀ s', s.Respelled R s' →
    ∃ ts', Respelled R ts ts' ∧ Passage.Written (.declaration s' isOpen) l room ts'
  | .declarations ss => ∀ ss', Stmt.AllRespelled R ss ss' →
    ∃ ts', Respelled R ts ts' ∧ Passage.Written (.declarations ss') l room ts'
  | .body ss => ∀ ss', Stmt.AllRespelled R ss ss' →
    ∃ ts', Respelled R ts ts' ∧ Passage.Written (.body ss') l room ts'
  | .function d => ∀ d', d.Respelled R d' →
    ∃ ts', Respelled R ts ts' ∧ Passage.Written (.function d') l room ts'
  | .methods ds => ∀ ds', FunDecl.AllRespelled R ds ds' →
    ∃ ts', Respelled R ts ts' ∧ Passage.Written (.methods ds') l room ts'

/-- **Written with names spelled anew**, a passage differs in these names alone. -/
theorem Passage.Written.respelled {φ : Passage} {l room : Nat} {ts : List Token}
    (h : φ.Written l room ts) : φ.Respells R l room ts := by
  induction h with
  | @expression _ semicolon _ _ _ he hsemicolon =>
    intro s' hs
    cases hs with
    | expression he' =>
      obtain ⟨ts', hts, hwritten⟩ := Grammar.Written.respelled he _ he'
      exact ⟨_, hts.before semicolon, .expression hwritten hsemicolon⟩
  | @print _ keyword semicolon _ _ _ hk he hsemicolon =>
    intro s' hs
    cases hs with
    | print he' =>
      obtain ⟨ts', hts, hwritten⟩ := Grammar.Written.respelled he _ he'
      exact ⟨_, (hts.before semicolon).keep keyword, .print hk hwritten hsemicolon⟩
  | leave hk hl hsemicolon =>
    intro s' hs
    cases hs
    exact ⟨_, .refl R _, .leave hk hl hsemicolon⟩
  | @giveBack _ keyword semicolon _ _ _ hk he hsemicolon =>
    intro s' hs
    cases hs with
    | giveBack _ he' =>
      obtain ⟨ts', hts, hwritten⟩ := he.respelled he'
      exact ⟨_, (hts.before semicolon).keep keyword, .giveBack hk hwritten hsemicolon⟩
  | @loop _ _ _ keyword left right _ _ _ _ hk hleft htest hright _ ih =>
    intro s' hs
    cases hs with
    | loop ht hb =>
      obtain ⟨ts', hts, htest⟩ := Grammar.Written.respelled htest _ ht
      obtain ⟨us', hus, hbody⟩ := ih _ hb
      exact ⟨_, ((hts.append (hus.keep right)).keep left).keep keyword,
        .loop hk hleft htest hright hbody⟩
  | @branch _ _ _ keyword left right _ _ _ _ hk hleft htest hright _ ih =>
    intro s' hs
    cases hs with
    | branch ht hy =>
      obtain ⟨ts', hts, htest⟩ := Grammar.Written.respelled htest _ ht
      obtain ⟨us', hus, hyes⟩ := ih _ hy
      exact ⟨_, ((hts.append (hus.keep right)).keep left).keep keyword,
        .branch hk hleft htest hright hyes⟩
  | @branchElse _ _ _ _ keyword left right other _ _ _ _ _ hk hleft htest hright _ hother _ ihy
      ihn =>
    intro s' hs
    cases hs with
    | branchElse ht hy hn =>
      obtain ⟨ts', hts, htest⟩ := Grammar.Written.respelled htest _ ht
      obtain ⟨us', hus, hyes⟩ := ihy _ hy
      obtain ⟨vs', hvs, hno⟩ := ihn _ hn
      exact ⟨_, ((hts.append ((hus.append (hvs.keep other)).keep right)).keep left).keep keyword,
        .branchElse hk hleft htest hright hyes hother hno⟩
  | @forLoop _ _ _ _ _ keyword left semicolon right _ _ _ _ _ _ hk hleft hfirst htest hsemicolon
      hincrement hright _ ih =>
    intro s' hs
    obtain ⟨initial', test', increment', body', rfl, hi, ht, hn, hb⟩ := forLoop_respelled hs
    obtain ⟨ts', hts, hfirst⟩ := hfirst.respelled hi
    obtain ⟨us', hus, htest⟩ := htest.respelled ht
    obtain ⟨vs', hvs, hincrement⟩ := hincrement.respelled hn
    obtain ⟨ws', hws, hbody⟩ := ih _ hb
    exact ⟨_, ((hts.append (hus.append ((hvs.append (hws.keep right)).keep semicolon))).keep
      left).keep keyword,
      .forLoop hk hleft hfirst htest hsemicolon hincrement hright hbody⟩
  | @block _ brace _ _ _ hbrace _ ih =>
    intro s' hs
    cases hs with
    | block hb =>
      obtain ⟨ts', hts, hbody⟩ := ih _ hb
      exact ⟨_, hts.keep brace, .block hbrace hbody⟩
  | ofStatement _ ih =>
    intro s' hs
    obtain ⟨ts', hts, hwritten⟩ := ih s' hs
    exact ⟨ts', hts, .ofStatement hwritten⟩
  | @var keyword _ _ _ _ hk hwritten =>
    intro s' hs
    obtain ⟨ts', hts, hwritten⟩ := hwritten.respelled hs
    exact ⟨_, hts.keep keyword, .var hk hwritten⟩
  | @function keyword _ _ _ _ hk _ ih =>
    intro s' hs
    cases hs with
    | function hd =>
      obtain ⟨ts', hts, hwritten⟩ := ih _ hd
      exact ⟨_, hts.keep keyword, .function hk hwritten⟩
  | @classDecl keyword name left right superclass _ _ _ ts _ hk hroom hname hsuper hleft _ hright
      ih =>
    intro s' hs
    cases hs with
    | classDecl _ hms =>
      cases hsuper
      obtain ⟨us', hus, hmethods⟩ := ih _ hms
      have hsuper' : SuperclassWritten none [] := rfl
      exact ⟨_, (((hus.before right).keep left).keep name).keep keyword,
        .classDecl hk hroom hname hsuper' hleft hmethods hright⟩
    | @derived _ t' _ _ _ ht hms =>
      obtain ⟨less, n, hless, hn, hr, rfl⟩ := hsuper
      cases hr
      obtain ⟨us', hus, hmethods⟩ := ih _ hms
      have hsuper' : SuperclassWritten (some ⟨t', none⟩) [less, t'] :=
        ⟨less, t', hless, ht.kind.trans hn, rfl, rfl⟩
      exact ⟨_, ((Respelled.keep less (.cons ht ((hus.before right).keep left))).keep name).keep
        keyword, .classDecl hk hroom hname hsuper' hleft hmethods hright⟩
  | noDeclarations =>
    intro ss' hss
    cases hss
    exact ⟨[], .nil, .noDeclarations⟩
  | moreDeclarations _ _ ih ihs =>
    intro ss' hss
    cases hss with
    | cons hs hss =>
      obtain ⟨ts', hts, hwritten⟩ := ih _ hs
      obtain ⟨us', hus, hrest⟩ := ihs _ hss
      exact ⟨_, hts.append hus, .moreDeclarations hwritten hrest⟩
  | @body _ right _ _ _ hroom _ hright ih =>
    intro ss' hss
    obtain ⟨ts', hts, hwritten⟩ := ih _ hss
    exact ⟨_, hts.before right, .body hroom hwritten hright⟩
  | @functionDecl name left right brace _ _ _ _ _ _ hname hleft hparams hright hbrace _ ih =>
    intro d' hd
    cases hd with
    | mk _ hps hb =>
      obtain ⟨ts', hts, hparams⟩ := hparams.respelled hps
      obtain ⟨us', hus, hbody⟩ := ih _ hb
      exact ⟨_, ((hts.append ((hus.keep brace).keep right)).keep left).keep name,
        .functionDecl hname hleft hparams hright hbrace hbody⟩
  | noMethods =>
    intro ds' hds
    cases hds
    exact ⟨[], .nil, .noMethods⟩
  | moreMethods _ _ ih ihs =>
    intro ds' hds
    cases hds with
    | cons hd hds =>
      obtain ⟨ts', hts, hwritten⟩ := ih _ hd
      obtain ⟨us', hus, hrest⟩ := ihs _ hds
      exact ⟨_, hts.append hus, .moreMethods hwritten hrest⟩

end Grammar
end LoxKit
