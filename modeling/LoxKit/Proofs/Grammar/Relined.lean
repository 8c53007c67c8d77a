import LoxKit.Proofs.Grammar.Passage
import LoxKit.Proofs.Tree.Unlined

/-!
# The same tokens on other lines

Tokens that differ from others in their lines alone (`Relined`) write the same passage, but for
the lines of its tokens (`Passage.Written.relined`).
-/
namespace LoxKit
namespace Grammar

/-- The tokens of one list are those of the other, perhaps on other lines. -/
def Relined (ts ts' : List Token) : Prop := ts'.map Token.unlined = ts.map Token.unlined

namespace Relined

variable {t : Token} {ts us ts' : List Token}

theorem cons (h : Relined (t :: ts) ts') : ∃ t' us', ts' = t' :: us' ∧ t'.unlined = t.unlined ∧
    Relined ts us' := by
  obtain ⟨t', us', rfl, ht, hus⟩ := List.map_eq_cons_iff.mp h
  exact ⟨t', us', rfl, ht, hus⟩

theorem append (h : Relined (ts ++ us) ts') : ∃ vs ws, ts' = vs ++ ws ∧ Relined ts vs ∧
    Relined us ws := by
  unfold Relined at h
  rw [List.map_append] at h
  obtain ⟨vs, ws, rfl, hvs, hws⟩ := List.map_eq_append_iff.mp h
  exact ⟨vs, ws, rfl, hvs, hws⟩

theorem nil (h : Relined [] ts') : ts' = [] := List.map_eq_nil_iff.mp h

theorem one (h : Relined [t] ts') : ∃ t', ts' = [t'] ∧ t'.unlined = t.unlined := by
  obtain ⟨t', us', rfl, ht, hus⟩ := h.cons
  exact ⟨t', by rw [hus.nil], ht⟩

/-- A token of a kind, and the rest. -/
theorem token {k : TokenKind} (h : Relined (t :: ts) ts') (hk : t.kind = k) :
    ∃ t' us', ts' = t' :: us' ∧ t'.kind = k ∧ t'.unlined = t.unlined ∧ Relined ts us' := by
  obtain ⟨t', us', rfl, ht, hus⟩ := h.cons
  exact ⟨t', us', rfl, (Token.kind_of_unlined ht).trans hk, ht, hus⟩

/-- A last token of a kind. -/
theorem last {k : TokenKind} (h : Relined [t] ts') (hk : t.kind = k) :
    ∃ t', ts' = [t'] ∧ t'.kind = k ∧ t'.unlined = t.unlined := by
  obtain ⟨t', rfl, ht⟩ := h.one
  exact ⟨t', rfl, (Token.kind_of_unlined ht).trans hk, ht⟩

/-- A keyword with a part in parentheses, and the rest. -/
theorem guarded {keyword left right : Token} {k : TokenKind}
    (h : Relined (keyword :: left :: (ts ++ right :: us)) ts') (hk : keyword.kind = k)
    (hleft : left.kind = .leftParen) (hright : right.kind = .rightParen) :
    ∃ keyword' left' vs right' ws, ts' = keyword' :: left' :: (vs ++ right' :: ws) ∧
      keyword'.kind = k ∧ left'.kind = .leftParen ∧ right'.kind = .rightParen ∧
      Relined ts vs ∧ Relined us ws := by
  obtain ⟨keyword', _, rfl, hk', -, hrest⟩ := h.token hk
  obtain ⟨left', _, rfl, hleft', -, hrest⟩ := hrest.token hleft
  obtain ⟨vs, _, rfl, hvs, hrest⟩ := hrest.append
  obtain ⟨right', ws, rfl, hright', -, hws⟩ := hrest.token hright
  exact ⟨keyword', left', vs, right', ws, rfl, hk', hleft', hright', hvs, hws⟩

end Relined

/-- A token on another line is the same expression. -/
theorem atom?_unlined (t : Token) : atom? t.unlined = (atom? t).map Expr.unlined := by
  unfold atom? Literal.ofToken?
  cases h : t.kind <;> simp [h, Expr.unlined] <;> rfl

/-- The tokens write a phrase that differs in its lines alone. -/
def Phrase.WrittenAlike (room : Nat) (ts : List Token) : Phrase → Prop
  | .expr t e => ∃ e', e'.unlined = e.unlined ∧ Written (.expr t e') room ts
  | .arguments es =>
    ∃ es', Expr.unlinedAll es' = Expr.unlinedAll es ∧ Written (.arguments es') room ts

/-- What becomes of a target does not depend on lines. -/
theorem assigned?_alike {value value' target target' e : Expr}
    (hvalue : value'.unlined = value.unlined) (htarget : target'.unlined = target.unlined)
    (h : assigned? value target = some e) :
    ∃ e', e'.unlined = e.unlined ∧ assigned? value' target' = some e' := by
  cases target <;> cases h <;> cases target' <;> simp only [Expr.unlined] at htarget <;>
    first
    | (refine ⟨_, ?_, rfl⟩; simp_all [Expr.unlined])
    | simp at htarget

/-- **Tokens on other lines write the same phrase.** -/
theorem Written.relined {φ : Phrase} {room : Nat} {ts ts' : List Token} (h : Written φ room ts)
    (hts : Relined ts ts') : φ.WrittenAlike room ts' := by
  induction h generalizing ts' with
  | tighter ht _ ih =>
    obtain ⟨e, he, hwritten⟩ := ih hts
    exact ⟨e, he, .tighter ht hwritten⟩
  | comma _ hop _ ihl ihr =>
    obtain ⟨vs, _, rfl, hvs, hrest⟩ := hts.append
    obtain ⟨op, ws, rfl, hop, hop', hws⟩ := hrest.token hop
    obtain ⟨l, hl, hleft⟩ := ihl hvs
    obtain ⟨r, hr, hright⟩ := ihr hws
    exact ⟨_, by simp only [Expr.unlined, hl, hr, hop'], .comma hleft hop hright⟩
  | conditional _ hmark _ hcolon _ iht ihy ihn =>
    obtain ⟨vs, _, rfl, hvs, hrest⟩ := hts.append
    obtain ⟨mark, _, rfl, hmark, -, hrest⟩ := hrest.token hmark
    obtain ⟨ws, _, rfl, hws, hrest⟩ := hrest.append
    obtain ⟨colon, xs, rfl, hcolon, -, hxs⟩ := hrest.token hcolon
    obtain ⟨t, ht, htest⟩ := iht hvs
    obtain ⟨y, hy, hyes⟩ := ihy hws
    obtain ⟨n, hn, hno⟩ := ihn hxs
    exact ⟨_, by simp only [Expr.unlined, ht, hy, hn], .conditional htest hmark hyes hcolon hno⟩
  | assign _ hequals _ he iht ihv =>
    obtain ⟨vs, _, rfl, hvs, hrest⟩ := hts.append
    obtain ⟨equals, ws, rfl, hequals, -, hws⟩ := hrest.token hequals
    obtain ⟨t, ht, htarget⟩ := iht hvs
    obtain ⟨v, hv, hvalue⟩ := ihv hws
    obtain ⟨e, he', hassigned⟩ := assigned?_alike hv ht he
    exact ⟨e, he', .assign htarget hequals hvalue hassigned⟩
  | @operator level _ _ _ _ _ _ _ hop _ ihl ihr =>
    obtain ⟨vs, _, rfl, hvs, hrest⟩ := hts.append
    obtain ⟨op, ws, rfl, hop', hws⟩ := hrest.cons
    obtain ⟨l, hl, hleft⟩ := ihl hvs
    obtain ⟨r, hr, hright⟩ := ihr hws
    refine ⟨_, ?_, .operator hleft (by rwa [Token.kind_of_unlined hop']) hright⟩
    cases level <;> simp only [Level.node, Expr.unlined, hl, hr, hop']
  | prefixed hop _ ih =>
    obtain ⟨op, us, rfl, hop', hus⟩ := hts.cons
    obtain ⟨e, he, hwritten⟩ := ih hus
    exact ⟨_, by simp only [Expr.unlined, he, hop'],
      .prefixed (by rwa [Token.kind_of_unlined hop']) hwritten⟩
  | callNone _ hleft hparen ih =>
    obtain ⟨vs, _, rfl, hvs, hrest⟩ := hts.append
    obtain ⟨left, _, rfl, hleft, -, hrest⟩ := hrest.token hleft
    obtain ⟨paren, rfl, hparen, hparen'⟩ := hrest.last hparen
    obtain ⟨f, hf, hwritten⟩ := ih hvs
    exact ⟨_, by simp only [Expr.unlined, Expr.unlinedAll, hf, hparen'],
      .callNone hwritten hleft hparen⟩
  | call _ hleft _ hlen hparen ihf iha =>
    obtain ⟨vs, _, rfl, hvs, hrest⟩ := hts.append
    obtain ⟨left, _, rfl, hleft, -, hrest⟩ := hrest.token hleft
    obtain ⟨ws, _, rfl, hws, hrest⟩ := hrest.append
    obtain ⟨paren, rfl, hparen, hparen'⟩ := hrest.last hparen
    obtain ⟨f, hf, hwritten⟩ := ihf hvs
    obtain ⟨es, hes, hargs⟩ := iha hws
    have hcount := congrArg List.length hes
    rw [Expr.unlinedAll_eq_map, Expr.unlinedAll_eq_map, List.length_map, List.length_map] at hcount
    exact ⟨_, by simp only [Expr.unlined, hf, hes, hparen'],
      .call hwritten hleft hargs (by omega) hparen⟩
  | get _ hdot hname ih =>
    obtain ⟨vs, _, rfl, hvs, hrest⟩ := hts.append
    obtain ⟨dot, _, rfl, hdot, -, hrest⟩ := hrest.token hdot
    obtain ⟨name, rfl, hname, hname'⟩ := hrest.last hname
    obtain ⟨o, ho, hwritten⟩ := ih hvs
    exact ⟨_, by simp only [Expr.unlined, ho, hname'], .get hwritten hdot hname⟩
  | @atom t e room he =>
    obtain ⟨t', rfl, ht⟩ := hts.one
    have hatom : (atom? t').map Expr.unlined = (atom? t).map Expr.unlined := by
      rw [← atom?_unlined, ht, atom?_unlined]
    rw [he] at hatom
    obtain ⟨e', he', hsame⟩ := Option.map_eq_some_iff.mp hatom
    exact ⟨e', hsame, @Written.atom t' e' room he'⟩
  | @super _ _ _ room hk hd hm =>
    obtain ⟨keyword, _, rfl, hk, hk', hrest⟩ := hts.token hk
    obtain ⟨dot, _, rfl, hd, -, hrest⟩ := hrest.token hd
    obtain ⟨method, rfl, hm, hm'⟩ := hrest.last hm
    exact ⟨_, by simp only [Expr.unlined, Reference.unlined, hk', hm'],
      @Written.super keyword dot method room hk hd hm⟩
  | group hleft _ hright ih =>
    obtain ⟨left, _, rfl, hleft, -, hrest⟩ := hts.token hleft
    obtain ⟨vs, _, rfl, hvs, hrest⟩ := hrest.append
    obtain ⟨right, rfl, hright, -⟩ := hrest.last hright
    obtain ⟨e, he, hwritten⟩ := ih hvs
    exact ⟨_, by simp only [Expr.unlined, he], .group hleft hwritten hright⟩
  | argument _ ih =>
    obtain ⟨e, he, hwritten⟩ := ih hts
    exact ⟨[e], by simp only [Expr.unlinedAll, he], .argument hwritten⟩
  | moreArguments _ hcomma _ ihe ihs =>
    obtain ⟨vs, _, rfl, hvs, hrest⟩ := hts.append
    obtain ⟨comma, ws, rfl, hcomma, -, hws⟩ := hrest.token hcomma
    obtain ⟨e, he, hwritten⟩ := ihe hvs
    obtain ⟨es, hes, hargs⟩ := ihs hws
    exact ⟨e :: es, by simp only [Expr.unlinedAll, he, hes], .moreArguments hwritten hcomma hargs⟩

/-! ## Statements -/

theorem ClauseWritten.relined {room : Nat} {e : Option Expr} {ts ts' : List Token}
    (h : ClauseWritten room e ts) (hts : Relined ts ts') :
    ∃ e' : Option Expr, e'.map Expr.unlined = e.map Expr.unlined ∧ ClauseWritten room e' ts' := by
  cases e with
  | none =>
    cases h
    exact ⟨none, rfl, hts.nil⟩
  | some e =>
    obtain ⟨e', he, hwritten⟩ := Written.relined h hts
    exact ⟨some e', congrArg some he, hwritten⟩

theorem InitialWritten.relined {room : Nat} {e : Option Expr} {ts ts' : List Token}
    (h : InitialWritten room e ts) (hts : Relined ts ts') :
    ∃ e' : Option Expr, e'.map Expr.unlined = e.map Expr.unlined ∧ InitialWritten room e' ts' := by
  cases e with
  | none =>
    cases h
    exact ⟨none, rfl, hts.nil⟩
  | some e =>
    obtain ⟨equals, us, hequals, he, rfl⟩ := h
    obtain ⟨equals', us', rfl, hequals, -, hus⟩ := hts.token hequals
    obtain ⟨e', he', hwritten⟩ := he.relined hus
    exact ⟨some e', congrArg some he', equals', us', hequals, hwritten, rfl⟩

theorem VariableWritten.relined {room : Nat} {s : Stmt} {ts ts' : List Token}
    (h : VariableWritten room s ts) (hts : Relined ts ts') :
    ∃ s', s'.unlined = s.unlined ∧ VariableWritten room s' ts' := by
  cases h with
  | mk hroom hname hinitial hsemicolon =>
    obtain ⟨name, _, rfl, hname, hname', hrest⟩ := hts.token hname
    obtain ⟨us, _, rfl, hus, hrest⟩ := hrest.append
    obtain ⟨semicolon, rfl, hsemicolon, -⟩ := hrest.last hsemicolon
    obtain ⟨e, he, hwritten⟩ := hinitial.relined hus
    exact ⟨_, by simp only [Stmt.unlined, he, hname'], .mk hroom hname hwritten hsemicolon⟩

theorem FirstWritten.relined {room : Nat} {s : Option Stmt} {ts ts' : List Token}
    (h : FirstWritten room s ts) (hts : Relined ts ts') :
    ∃ s' : Option Stmt, s'.map Stmt.unlined = s.map Stmt.unlined ∧ FirstWritten room s' ts' := by
  cases h with
  | none hsemicolon =>
    obtain ⟨semicolon, rfl, hsemicolon, -⟩ := hts.last hsemicolon
    exact ⟨Option.none, rfl, .none hsemicolon⟩
  | var hkeyword hs =>
    obtain ⟨keyword, us, rfl, hkeyword, -, hus⟩ := hts.token hkeyword
    obtain ⟨s, hs', hwritten⟩ := hs.relined hus
    exact ⟨some s, congrArg some hs', .var hkeyword hwritten⟩
  | expression he hsemicolon =>
    obtain ⟨us, _, rfl, hus, hrest⟩ := hts.append
    obtain ⟨semicolon, rfl, hsemicolon, -⟩ := hrest.last hsemicolon
    obtain ⟨e, he', hwritten⟩ := he.relined hus
    exact ⟨_, by simp only [Option.map_some, Stmt.unlined, he'], .expression hwritten hsemicolon⟩

theorem ParamsWritten.relined {params ts ts' : List Token} (h : ParamsWritten params ts)
    (hts : Relined ts ts') :
    ∃ params' : List Token, Relined params params' ∧ ParamsWritten params' ts' := by
  rcases h with ⟨rfl, rfl⟩ | ⟨hparams, hlen⟩
  · exact ⟨[], rfl, .inl ⟨rfl, hts.nil⟩⟩
  · have hlist : ∃ params' : List Token, Relined params params' ∧
        CommaList (fun (p : Token) ts => ts = [p] ∧ p.kind = .identifier) params' ts' := by
      clear hlen
      induction hparams generalizing ts' with
      | one hp =>
        obtain ⟨rfl, hp⟩ := hp
        obtain ⟨p, rfl, hp, hp'⟩ := hts.last hp
        exact ⟨[p], by simp [Relined, hp'], .one ⟨rfl, hp⟩⟩
      | more hp hcomma _ ih =>
        obtain ⟨rfl, hp⟩ := hp
        obtain ⟨p, _, rfl, hp, hp', hrest⟩ := hts.token hp
        obtain ⟨comma, us, rfl, hcomma, -, hus⟩ := hrest.token hcomma
        obtain ⟨ps, hps, hwritten⟩ := ih hus
        exact ⟨p :: ps, by simpa [Relined, hp'] using hps, .more ⟨rfl, hp⟩ hcomma hwritten⟩
    obtain ⟨params', hsame, hwritten⟩ := hlist
    have hcount := congrArg List.length hsame
    rw [List.length_map, List.length_map] at hcount
    exact ⟨params', hsame, .inr ⟨hwritten, by omega⟩⟩

theorem SuperclassWritten.relined {r : Option Reference} {ts ts' : List Token}
    (h : SuperclassWritten r ts) (hts : Relined ts ts') :
    ∃ r' : Option Reference, r'.map Reference.unlined = r.map Reference.unlined ∧
      SuperclassWritten r' ts' := by
  cases r with
  | none =>
    cases h
    exact ⟨none, rfl, hts.nil⟩
  | some r =>
    obtain ⟨less, name, hless, hname, rfl, rfl⟩ := h
    obtain ⟨less, _, rfl, hless, -, hrest⟩ := hts.token hless
    obtain ⟨name', rfl, hname, hname'⟩ := hrest.last hname
    exact ⟨some ⟨name', none⟩, by simp [Reference.unlined, hname'], less, name', hless, hname, rfl,
      rfl⟩

end Grammar

/-- The loop a `for` statement stands for, without its lines. -/
theorem Stmt.unlined_forLoop (initial : Option Stmt) (test increment : Option Expr) (body : Stmt) :
    (Stmt.forLoop initial test increment body).unlined = .forLoop (initial.map Stmt.unlined)
      (test.map Expr.unlined) (increment.map Expr.unlined) body.unlined := by
  cases initial <;> cases test <;> cases increment <;>
    simp [Stmt.forLoop, Stmt.unlined, Stmt.unlinedAll, Expr.unlined]

namespace Grammar

/-- The tokens write a passage that differs in its lines alone. -/
def Passage.WrittenAlike (l room : Nat) (ts : List Token) : Passage → Prop
  | .statement s isOpen =>
    ∃ s', s'.unlined = s.unlined ∧ Passage.Written (.statement s' isOpen) l room ts
  | .declaration s isOpen =>
    ∃ s', s'.unlined = s.unlined ∧ Passage.Written (.declaration s' isOpen) l room ts
  | .declarations ss => ∃ ss', Stmt.unlinedAll ss' = Stmt.unlinedAll ss ∧
      Passage.Written (.declarations ss') l room ts
  | .body ss =>
    ∃ ss', Stmt.unlinedAll ss' = Stmt.unlinedAll ss ∧ Passage.Written (.body ss') l room ts
  | .function d => ∃ d', d'.unlined = d.unlined ∧ Passage.Written (.function d') l room ts
  | .methods ds => ∃ ds', FunDecl.unlinedAll ds' = FunDecl.unlinedAll ds ∧
      Passage.Written (.methods ds') l room ts

/-- **Tokens on other lines write the same passage.** -/
theorem Passage.Written.relined {φ : Passage} {l room : Nat} {ts ts' : List Token}
    (h : φ.Written l room ts) (hts : Relined ts ts') : φ.WrittenAlike l room ts' := by
  induction h generalizing ts' with
  | expression he hsemicolon =>
    obtain ⟨us, _, rfl, hus, hrest⟩ := hts.append
    obtain ⟨semicolon, rfl, hsemicolon, -⟩ := hrest.last hsemicolon
    obtain ⟨e, he', hwritten⟩ := Grammar.Written.relined he hus
    exact ⟨_, by simp only [Stmt.unlined, he'], .expression hwritten hsemicolon⟩
  | print hk he hsemicolon =>
    obtain ⟨keyword, _, rfl, hk, -, hrest⟩ := hts.token hk
    obtain ⟨us, _, rfl, hus, hrest⟩ := hrest.append
    obtain ⟨semicolon, rfl, hsemicolon, -⟩ := hrest.last hsemicolon
    obtain ⟨e, he', hwritten⟩ := Grammar.Written.relined he hus
    exact ⟨_, by simp only [Stmt.unlined, he'], .print hk hwritten hsemicolon⟩
  | leave hk hl hsemicolon =>
    obtain ⟨keyword, _, rfl, hk, hk', hrest⟩ := hts.token hk
    obtain ⟨semicolon, rfl, hsemicolon, -⟩ := hrest.last hsemicolon
    exact ⟨_, by simp only [Stmt.unlined, hk'], .leave hk hl hsemicolon⟩
  | giveBack hk he hsemicolon =>
    obtain ⟨keyword, _, rfl, hk, hk', hrest⟩ := hts.token hk
    obtain ⟨us, _, rfl, hus, hrest⟩ := hrest.append
    obtain ⟨semicolon, rfl, hsemicolon, -⟩ := hrest.last hsemicolon
    obtain ⟨e, he', hwritten⟩ := he.relined hus
    exact ⟨_, by simp only [Stmt.unlined, hk', he'], .giveBack hk hwritten hsemicolon⟩
  | loop hk hleft htest hright _ ih =>
    obtain ⟨keyword, left, us, right, vs, rfl, hk, hleft, hright, hus, hvs⟩ :=
      hts.guarded hk hleft hright
    obtain ⟨test, ht, htest⟩ := Grammar.Written.relined htest hus
    obtain ⟨body, hb, hbody⟩ := ih hvs
    exact ⟨_, by simp only [Stmt.unlined, ht, hb], .loop hk hleft htest hright hbody⟩
  | branch hk hleft htest hright _ ih =>
    obtain ⟨keyword, left, us, right, vs, rfl, hk, hleft, hright, hus, hvs⟩ :=
      hts.guarded hk hleft hright
    obtain ⟨test, ht, htest⟩ := Grammar.Written.relined htest hus
    obtain ⟨yes, hy, hyes⟩ := ih hvs
    exact ⟨_, by simp only [Stmt.unlined, ht, hy], .branch hk hleft htest hright hyes⟩
  | branchElse hk hleft htest hright _ hother _ ihy ihn =>
    obtain ⟨keyword, left, us, right, _, rfl, hk, hleft, hright, hus, hrest⟩ :=
      hts.guarded hk hleft hright
    obtain ⟨vs, _, rfl, hvs, hrest⟩ := hrest.append
    obtain ⟨other, ws, rfl, hother, -, hws⟩ := hrest.token hother
    obtain ⟨test, ht, htest⟩ := Grammar.Written.relined htest hus
    obtain ⟨yes, hy, hyes⟩ := ihy hvs
    obtain ⟨no, hn, hno⟩ := ihn hws
    exact ⟨_, by simp only [Stmt.unlined, ht, hy, hn],
      .branchElse hk hleft htest hright hyes hother hno⟩
  | forLoop hk hleft hfirst htest hsemicolon hincrement hright _ ih =>
    obtain ⟨keyword, _, rfl, hk, -, hrest⟩ := hts.token hk
    obtain ⟨left, _, rfl, hleft, -, hrest⟩ := hrest.token hleft
    obtain ⟨us, _, rfl, hus, hrest⟩ := hrest.append
    obtain ⟨vs, _, rfl, hvs, hrest⟩ := hrest.append
    obtain ⟨semicolon, _, rfl, hsemicolon, -, hrest⟩ := hrest.token hsemicolon
    obtain ⟨ws, _, rfl, hws, hrest⟩ := hrest.append
    obtain ⟨right, xs, rfl, hright, -, hxs⟩ := hrest.token hright
    obtain ⟨first, hf, hfirst⟩ := hfirst.relined hus
    obtain ⟨test, ht, htest⟩ := htest.relined hvs
    obtain ⟨increment, hi, hincrement⟩ := hincrement.relined hws
    obtain ⟨body, hb, hbody⟩ := ih hxs
    exact ⟨_, by simp only [Stmt.unlined_forLoop, hf, ht, hi, hb],
      .forLoop hk hleft hfirst htest hsemicolon hincrement hright hbody⟩
  | block hbrace _ ih =>
    obtain ⟨brace, us, rfl, hbrace, -, hus⟩ := hts.token hbrace
    obtain ⟨ss, hss, hbody⟩ := ih hus
    exact ⟨_, by simp only [Stmt.unlined, hss], .block hbrace hbody⟩
  | ofStatement _ ih =>
    obtain ⟨s, hs, hwritten⟩ := ih hts
    exact ⟨s, hs, .ofStatement hwritten⟩
  | var hk hs =>
    obtain ⟨keyword, us, rfl, hk, -, hus⟩ := hts.token hk
    obtain ⟨s, hs', hwritten⟩ := hs.relined hus
    exact ⟨s, hs', .var hk hwritten⟩
  | function hk _ ih =>
    obtain ⟨keyword, us, rfl, hk, -, hus⟩ := hts.token hk
    obtain ⟨d, hd, hwritten⟩ := ih hus
    exact ⟨_, by simp only [Stmt.unlined, hd], .function hk hwritten⟩
  | classDecl hk hroom hname hsuper hleft _ hright ih =>
    obtain ⟨keyword, _, rfl, hk, -, hrest⟩ := hts.token hk
    obtain ⟨name, _, rfl, hname, hname', hrest⟩ := hrest.token hname
    obtain ⟨us, _, rfl, hus, hrest⟩ := hrest.append
    obtain ⟨left, _, rfl, hleft, -, hrest⟩ := hrest.token hleft
    obtain ⟨vs, _, rfl, hvs, hrest⟩ := hrest.append
    obtain ⟨right, rfl, hright, -⟩ := hrest.last hright
    obtain ⟨r, hr, hsuper⟩ := hsuper.relined hus
    obtain ⟨ds, hds, hmethods⟩ := ih hvs
    exact ⟨_, by simp only [Stmt.unlined, hname', hr, hds],
      .classDecl hk hroom hname hsuper hleft hmethods hright⟩
  | noDeclarations =>
    cases hts.nil
    exact ⟨[], rfl, .noDeclarations⟩
  | moreDeclarations _ _ ih ihs =>
    obtain ⟨us, vs, rfl, hus, hvs⟩ := hts.append
    obtain ⟨s, hs, hwritten⟩ := ih hus
    obtain ⟨ss, hss, hrest⟩ := ihs hvs
    exact ⟨s :: ss, by simp only [Stmt.unlinedAll, hs, hss], .moreDeclarations hwritten hrest⟩
  | body hroom _ hright ih =>
    obtain ⟨us, _, rfl, hus, hrest⟩ := hts.append
    obtain ⟨right, rfl, hright, -⟩ := hrest.last hright
    obtain ⟨ss, hss, hwritten⟩ := ih hus
    exact ⟨ss, hss, .body hroom hwritten hright⟩
  | functionDecl hname hleft hparams hright hbrace _ ih =>
    obtain ⟨name, _, rfl, hname, hname', hrest⟩ := hts.token hname
    obtain ⟨left, _, rfl, hleft, -, hrest⟩ := hrest.token hleft
    obtain ⟨us, _, rfl, hus, hrest⟩ := hrest.append
    obtain ⟨right, _, rfl, hright, -, hrest⟩ := hrest.token hright
    obtain ⟨brace, vs, rfl, hbrace, -, hvs⟩ := hrest.token hbrace
    obtain ⟨params, hp, hparams⟩ := hparams.relined hus
    obtain ⟨ss, hss, hbody⟩ := ih hvs
    refine ⟨_, ?_, .functionDecl hname hleft hparams hright hbrace hbody⟩
    rw [FunDecl.unlined, FunDecl.unlined, hname', hss, show params.map Token.unlined = _ from hp]
  | noMethods =>
    cases hts.nil
    exact ⟨[], rfl, .noMethods⟩
  | moreMethods _ _ ih ihs =>
    obtain ⟨us, vs, rfl, hus, hvs⟩ := hts.append
    obtain ⟨d, hd, hwritten⟩ := ih hus
    obtain ⟨ds, hds, hrest⟩ := ihs hvs
    exact ⟨d :: ds, by simp only [FunDecl.unlinedAll, hd, hds], .moreMethods hwritten hrest⟩

end Grammar
end LoxKit
