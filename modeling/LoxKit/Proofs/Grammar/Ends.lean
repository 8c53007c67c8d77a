import LoxKit.Proofs.Grammar.RuleAgreement
import LoxKit.Proofs.Grammar.StatementLeads

/-!
# Reading ends

However malformed a token list is, reading moves through it from left to right and ends.  Every
rule goes `Onward`: it is left at a place that is not in front of where it began nor behind the
closing token, what it does does not depend on what is beyond that token, and it gives up for want
of room only if there is less than the tokens ahead can take.  Every loop gets on (`GetsOn`): a
turn ends it or leaves strictly fewer tokens ahead.  So the bound that a loop is given does not
matter if it is greater than the number of the tokens ahead (`GetsOn.bound`), and the bounds that
stand in the rules are never reached.

`reading_ends` says both of all rules and loops, and what follows for a program and for a sole
expression.
-/
namespace LoxKit
namespace Grammar

variable {α β σ : Type} {z : Token} {most width room : Nat}

/-- The cursor in front of some tokens and the closing one. -/
def facing (us : List Token) (z : Token) (beyond : List Token) (l : Nat) (ds : List Diagnostic) :
    Cursor :=
  { rest := us ++ z :: beyond, loops := l, diagnostics := ds }

theorem facing_inj {us vs beyond : List Token} {l : Nat} {ds ds' : List Diagnostic}
    (h : facing us z beyond l ds = facing vs z beyond l ds') : us = vs ∧ ds = ds' :=
  ⟨List.append_cancel_right (congrArg Cursor.rest h), congrArg Cursor.diagnostics h⟩

/-! ## Rules -/

/-- **Reading goes onward** from any place with at most so many tokens in front of the closing one,
and is cut off for want of room only where there is too little of it. -/
def Onward (z : Token) (most : Nat) (short : Nat → Prop) (p : Reader α) : Prop :=
  ∀ us l, (∀ t ∈ us, t.isEnd = false) → us.length ≤ most → ∃ vs ds', vs <:+ us ∧
    ((∃ a, ∀ beyond ds, p (facing us z beyond l ds) = .ok a (facing vs z beyond l (ds ++ ds'))) ∨
      ∃ e, (e = .tooDeep → short us.length) ∧
        ∀ beyond ds, p (facing us z beyond l ds) = .error e (facing vs z beyond l (ds ++ ds')))

/-- What agrees with itself whatever is beyond the closing token goes onward. -/
theorem Onward.of_agree {short : Nat → Prop} {p : Reader α} {Q : Nat → α → Nat → Prop}
    (hz : z.isEnd) (h : ∀ S : Sides, S.stop.isEnd → ∀ m ≤ most, S.Agree m (short m) p p (Q m)) :
    Onward z most short p := by
  intro us l hus hlen
  -- the run with nothing recorded and nothing beyond is beside every other
  let S (beyond : List Token) (ds : List Diagnostic) : Sides := .closing hz [] beyond [] ds
  have hbeside (beyond : List Token) (ds : List Diagnostic) :=
    h (S beyond ds) hz us.length hlen us l [] (Sides.closing_inside hus) rfl
  have hright (beyond : List Token) (ds : List Diagnostic) :
      (S beyond ds).right us l [] = facing us z beyond l ds :=
    congrArg (facing us z beyond l) (List.append_nil ds)
  obtain ⟨vs, ds', hvs, ⟨a, hrun, -⟩ | ⟨e, hrun, -, hcut⟩⟩ := hbeside [] []
  · refine ⟨vs, ds', hvs, .inl ⟨a, fun beyond ds => ?_⟩⟩
    obtain ⟨ws, ds'', -, ⟨b, hrun', hother, -⟩ | ⟨_, hrun', -⟩⟩ := hbeside beyond ds
    · obtain ⟨rfl, hsame⟩ := EStateM.Result.ok.inj (hrun.symm.trans hrun')
      obtain ⟨rfl, rfl⟩ := facing_inj hsame
      rw [hright] at hother
      exact hother
    · cases hrun.symm.trans hrun'
  · refine ⟨vs, ds', hvs, .inr ⟨e, ?_, fun beyond ds => ?_⟩⟩
    · rintro rfl
      exact hcut
    · obtain ⟨ws, ds'', -, ⟨_, hrun', -⟩ | ⟨e', hrun', hother, -⟩⟩ := hbeside beyond ds
      · cases hrun.symm.trans hrun'
      · obtain ⟨rfl, hsame⟩ := EStateM.Result.error.inj (hrun.symm.trans hrun')
        obtain ⟨rfl, rfl⟩ := facing_inj hsame
        rw [hright] at hother
        exact hother

/-- **Every rule of the grammar goes onward**, and so does moving over a token and recovering. -/
structure RulesOnward (z : Token) (most width room : Nat) : Prop where
  advance : Onward z most (fun _ => False) (modify Cursor.advance)
  recover : Onward z most (fun _ => False) (modify Cursor.recover)
  tier : ∀ tier : Tier,
    Onward z most (fun m => room < 24 * m + tier.base) (tier.read width room)
  variableDecl : Onward z most (fun m => room < 24 * m + 4) (variableDecl width room)
  functionDecl : ∀ kind, Onward z most (fun m => room < 24 * m + 35)
    (functionDecl width room kind (block width room))
  classDecl : Onward z most (fun m => room < 24 * m + 35)
    (classDecl width (room + 2) (Grammar.functionDecl width room .method (block width room)))
  statement : Onward z most (fun m => room < 24 * m + 31) (statement width room)
  block : Onward z most (fun m => room < 24 * m + 35) (block width room)
  declaration : Onward z most (fun m => room < 24 * m + 33) (declaration width room)
  topLevel : Onward z most (fun _ => False) (topLevel width room)

/-- Moving over a token stays at the closing one. -/
theorem onward_advance (hz : z.isEnd) :
    Onward z most (fun _ => False) (modify Cursor.advance) := by
  intro us l hus _
  refine ⟨us.tail, [], List.tail_suffix us, .inl ⟨(), fun beyond ds => ?_⟩⟩
  show EStateM.Result.ok () (facing us z beyond l ds).advance = _
  rw [List.append_nil, Cursor.advance]
  cases us with
  | nil => exact congrArg (EStateM.Result.ok ()) (if_pos hz)
  | cons t us =>
    have ht : (facing (t :: us) z beyond l ds).atEnd = false := hus t List.mem_cons_self
    rw [ht]
    rfl

/-- Recovery gives up tokens, but not the closing one. -/
theorem onward_recover (hz : z.isEnd) :
    Onward z most (fun _ => False) (modify Cursor.recover) := by
  intro us l hus _
  obtain ⟨vs, hvs, -, hresume⟩ := Sides.resume_closing hz hus
  refine ⟨vs, [], hvs, .inl ⟨(), fun beyond ds => ?_⟩⟩
  show EStateM.Result.ok () (facing us z beyond l ds).recover = _
  rw [List.append_nil, Cursor.recover]
  exact congrArg (fun ts => EStateM.Result.ok () { facing us z beyond l ds with rest := ts })
    (hresume beyond)

theorem rulesOnward (hz : z.isEnd) (hwidth : most < width) (room : Nat) :
    RulesOnward z most width room where
  advance := onward_advance hz
  recover := onward_recover hz
  tier tier := .of_agree hz fun S _ m hm => S.tiersAgree hwidth hwidth room tier m hm
  variableDecl := .of_agree hz fun _ hend m hm =>
    Sides.variableAgrees hend hwidth hwidth room m hm
  functionDecl kind := .of_agree hz fun S hend m hm =>
    Sides.functionAgrees hwidth hwidth kind hm (fun (hroom : room < 4) => by omega) fun k hk =>
      (S.statementsAgree hend hwidth hwidth room).block.within (by omega) fun hroom => by omega
  classDecl := .of_agree hz fun S hend m hm =>
    Sides.classAgrees hend hwidth hwidth hm (fun (hroom : room + 2 < 4) => by omega) fun k hk =>
      Sides.functionAgrees hwidth hwidth .method (by omega) (fun (hroom : room < 4) => by omega)
        fun j hj => (S.statementsAgree hend hwidth hwidth room).block.within (by omega)
          fun hroom => by omega
  statement := .of_agree hz fun S hend m hm =>
    (S.statementsAgree hend hwidth hwidth room).statement m hm
  block := .of_agree hz fun S hend m hm =>
    (S.statementsAgree hend hwidth hwidth room).block m hm
  declaration := .of_agree hz fun S hend m hm =>
    (S.statementsAgree hend hwidth hwidth room).declaration m hm
  topLevel := .of_agree hz fun _ hend m hm => Sides.topLevelAgrees hend hwidth hwidth room hm

/-! ## Loops -/

/-- **A loop gets on** from any place with at most so many tokens in front of the closing one: a
turn ends it, or goes over to the next with strictly fewer tokens ahead. -/
def GetsOn (z : Token) (most : Nat) (loop : Nat → σ → Reader β) : Prop :=
  ∀ s us l beyond ds, (∀ t ∈ us, t.isEnd = false) → us.length ≤ most →
    (∃ r, ∀ n, loop (n + 1) s (facing us z beyond l ds) = r) ∨
      ∃ s' vs ds', vs <:+ us ∧ vs.length < us.length ∧
        ∀ n, loop (n + 1) s (facing us z beyond l ds) = loop n s' (facing vs z beyond l ds')

/-- **The bound of a loop does not matter** if it is greater than the number of the tokens
ahead. -/
theorem GetsOn.bound {loop : Nat → σ → Reader β} (h : GetsOn z most loop) :
    ∀ n n' s us l beyond ds, (∀ t ∈ us, t.isEnd = false) → us.length ≤ most →
      us.length < n → us.length < n' →
      loop n s (facing us z beyond l ds) = loop n' s (facing us z beyond l ds) := by
  intro n
  induction n with
  | zero => exact fun _ _ us _ _ _ _ _ hn => absurd hn (Nat.not_lt_zero us.length)
  | succ n ih =>
    intro n' s us l beyond ds hus hmost hn hn'
    obtain ⟨n', rfl⟩ := Nat.exists_eq_add_one_of_ne_zero (Nat.ne_zero_of_lt hn')
    obtain ⟨r, hr⟩ | ⟨s', vs, ds', hvs, hlt, hnext⟩ := h s us l beyond ds hus hmost
    · rw [hr, hr]
    · rw [hnext, hnext]
      exact ih n' s' vs l beyond ds' (fun t ht => hus t (hvs.subset ht)) (by omega) (by omega)
        (by omega)

/-- A loop that agrees with itself turn by turn gets on. -/
theorem GetsOn.of_loopsAgree {loop : Nat → σ → Reader β} {Q : Nat → β → Nat → Prop} (hz : z.isEnd)
    (h : ∀ S : Sides, S.stop.isEnd → ∀ m ≤ most, S.LoopsAgree m True loop loop (Q m)) :
    GetsOn z most loop := by
  intro s us l beyond ds hus hlen
  have hturn := h (.closing hz beyond beyond ds ds) hz us.length hlen s us l []
    (Sides.closing_inside hus) rfl
  have hleft : (Sides.closing hz beyond beyond ds ds).left us l [] = facing us z beyond l ds :=
    congrArg (facing us z beyond l) (List.append_nil ds)
  rw [hleft] at hturn
  obtain ⟨vs, ds', hvs, ⟨a, hends, -⟩ | ⟨e, hends, -⟩ | ⟨s', hlt, hnext, -⟩⟩ := hturn
  · exact .inl ⟨_, hends⟩
  · exact .inl ⟨_, hends⟩
  · exact .inr ⟨s', vs, ds ++ ds', hvs, hlt, hnext⟩

/-! ### The loops of the grammar -/

/-- **Every loop of the grammar gets on**, and so does recovery. -/
structure LoopsGetOn (z : Token) (most width room : Nat) : Prop where
  program : GetsOn z most (topLevels width room)
  block : GetsOn z most (untilBrace (declaration width room))
  classBody : GetsOn z most
    (untilBrace (do return some (← functionDecl width room .method (Grammar.block width room))))
  parameters : GetsOn z most (commaList "parameters" (expect .identifier "parameter name"))
  arguments : GetsOn z most (commaList "arguments" (conditional width room))
  comma : GetsOn z most (chain (· == .comma) (conditional width room) .binary)
  operators : ∀ level : Level, GetsOn z most
    (chain level.operators ((Tier.operand level).read width room) level.node)
  calls : GetsOn z most (suffixes width (conditional width room))
  recovery : ∀ previous us beyond, (∀ t ∈ us, t.isEnd = false) →
    resumeBehind previous (us ++ z :: beyond) = us ++ z :: beyond ∨
      ∃ t vs, us = t :: vs ∧
        resumeBehind previous (us ++ z :: beyond) = resumeBehind t (vs ++ z :: beyond)

/-- A turn of recovery stays where it is, or moves over one token. -/
theorem resumeBehind_turn (hz : z.isEnd) (previous : Token) (us beyond : List Token) :
    resumeBehind previous (us ++ z :: beyond) = us ++ z :: beyond ∨
      ∃ t vs, us = t :: vs ∧
        resumeBehind previous (us ++ z :: beyond) = resumeBehind t (vs ++ z :: beyond) := by
  cases us with
  | nil =>
    left
    rw [List.nil_append, resumeBehind, hz]
    rfl
  | cons t vs =>
    rw [List.cons_append, resumeBehind]
    by_cases hhere : (t.isEnd || previous.kind == .semicolon || t.kind.startsStatement) = true
    · exact .inl (if_pos hhere)
    · exact .inr ⟨t, vs, rfl, if_neg hhere⟩

theorem loopsGetOn (hz : z.isEnd) (hwidth : most < width) (room : Nat) :
    LoopsGetOn z most width room where
  program := .of_loopsAgree hz fun _ hend m hm =>
    Sides.topLevels_loopsAgree hend (by omega) (by omega) room
  block := .of_loopsAgree hz fun S hend m hm => Sides.untilBrace_loopsAgree hend
    (((S.statementsAgree hend hwidth hwidth room).declaration m hm).mono (fun _ => trivial)
      fun _ _ hk => hk)
  classBody := .of_loopsAgree hz fun S hend m hm => Sides.untilBrace_loopsAgree hend <|
    (Sides.functionAgrees hwidth hwidth .method hm (fun _ => trivial) fun k hk =>
      (S.statementsAgree hend hwidth hwidth room).block.within (by omega) fun _ => trivial).bind
        fun d _ _ hk => .pure (by omega)
  parameters := .of_loopsAgree hz fun _ _ m hm => Sides.commaList_loopsAgree _ <|
    .expect (Sides.spares_kind (by decide)) _
  arguments := .of_loopsAgree hz fun S _ m hm => Sides.commaList_loopsAgree _ <|
    (S.conditionalAgrees hwidth hwidth room).within hm fun _ => trivial
  comma := .of_loopsAgree hz fun S _ m hm => Sides.chain_loopsAgree (Sides.spares rfl) _
    fun k hk => (S.conditionalAgrees hwidth hwidth room).within (by omega) fun _ => trivial
  operators level := .of_loopsAgree hz fun S _ m hm =>
    Sides.chain_loopsAgree (Sides.spares (by cases level <;> rfl)) _ fun k hk =>
      (S.tiersAgree hwidth hwidth room (Tier.operand level)).within (by omega) fun _ => trivial
  calls := .of_loopsAgree hz fun S _ m hm =>
    Sides.suffixes_loopsAgree (fun k hk =>
      (S.conditionalAgrees hwidth hwidth room).within (by omega) fun _ => trivial) (by omega)
        (by omega)
  recovery previous us beyond _ := resumeBehind_turn hz previous us beyond

/-! ## A whole token list -/

/-- The token about to be consumed is one of the list. -/
theorem facing_current_mem {ts us : List Token} (hus : us <:+ ts) (beyond : List Token) (l : Nat)
    (ds : List Diagnostic) : (facing us z beyond l ds).current ∈ ts ++ [z] := by
  cases us with
  | nil => exact List.mem_append_right _ List.mem_cons_self
  | cons t us => exact List.mem_append_left _ (hus.subset List.mem_cons_self)

/-- What agrees with a reader that yields something does so too, wherever the list goes on beyond
its closing token. -/
theorem yields_alike {ts : List Token} {p q : Reader α} {deep : Prop} {Q : α → Nat → Prop} {a : α}
    {d : Cursor} (hz : z.isEnd) (hts : ∀ t ∈ ts, t.isEnd = false)
    (hrun : p (facing ts z [] 0 []) = .ok a d) {beyond : List Token}
    (h : (Sides.closing hz [] beyond [] []).Agree ts.length deep p q Q) :
    ∃ vs ds, vs <:+ ts ∧ d = facing vs z [] 0 ds ∧ Q a vs.length ∧
      q (facing ts z beyond 0 []) = .ok a (facing vs z beyond 0 ds) := by
  obtain ⟨vs, ds, hvs, ⟨b, hp, hq, hQ⟩ | ⟨e, hp, -⟩⟩ := h ts 0 [] (Sides.closing_inside hts) rfl
  · obtain ⟨rfl, rfl⟩ := EStateM.Result.ok.inj (hrun.symm.trans hp)
    exact ⟨vs, ds, hvs, rfl, hQ, hq⟩
  · cases hrun.symm.trans hp

/-- Reading a sole expression is never cut off. -/
theorem soleExpression_ok (c : Cursor) : ∃ e d, soleExpression width room c = .ok e d := by
  unfold soleExpression
  cases closedExpression width room c with
  | ok e d => exact ⟨some e, d, rfl⟩
  | error halt d =>
    cases halt with
    | fault => exact ⟨none, d, rfl⟩
    | tooDeep => exact ⟨none, _, rfl⟩

/-- **Reading a token list ends**, however malformed the list is, in whatever room.  Rules go
onward and loops get on, the token ahead is always one of the list, and the bound on repetitions
has no part in the result: a program is read up to the closing token, and a sole expression up to
where it ends or is cut off, within any larger bound and whatever is beyond that token. -/
theorem reading_ends {ts : List Token} {z : Token} (hz : z.isEnd)
    (hts : ∀ t ∈ ts, t.isEnd = false) (room : Nat) :
    (∀ width, ts.length < width →
      RulesOnward z ts.length width room ∧ LoopsGetOn z ts.length width room) ∧
    (∀ us, us <:+ ts → ∀ beyond l ds, (facing us z beyond l ds).current ∈ ts ++ [z]) ∧
    (∃ p ds, Program.ofTokens room (ts ++ [z]) = ⟨p, ds⟩ ∧
      ∀ width n beyond, ts.length < width → ts.length < n →
        topLevels width room n [] (facing ts z beyond 0 []) = .ok p (facing [] z beyond 0 ds)) ∧
    ∃ e ds vs, Expr.ofTokens? room (ts ++ [z]) = ⟨e, ds⟩ ∧ vs <:+ ts ∧
      ∀ width beyond, ts.length < width →
        soleExpression width room (facing ts z beyond 0 []) =
          .ok e (facing vs z beyond 0 ds) := by
  have hlen : ts.length < (ts ++ [z]).length := by simp
  refine ⟨fun width hwidth => ⟨rulesOnward hz hwidth room, loopsGetOn hz hwidth room⟩,
    fun us hus => facing_current_mem hus, ?_, ?_⟩
  · obtain ⟨p, d, hrun⟩ := topLevels_ok (ts ++ [z]).length [] (facing ts z [] 0 [])
    refine ⟨p, d.diagnostics, Program.ofTokens_of_topLevels hrun,
      fun width n beyond hwidth hn => ?_⟩
    obtain ⟨vs, ds, -, rfl, hnone, hread⟩ := yields_alike hz hts hrun
      (Sides.topLevelsAgree hz hlen hwidth room _ n [] ts.length (Nat.le_refl _) hlen hn)
    obtain rfl := List.eq_nil_of_length_eq_zero hnone
    exact hread
  · obtain ⟨e, d, hrun⟩ := soleExpression_ok (facing ts z [] 0 [])
    obtain ⟨vs, ds, hvs, rfl, -⟩ := yields_alike hz hts hrun
      (Sides.soleExpressionAgrees (S := .closing hz [] [] [] []) hz hlen hlen room (Nat.le_refl _))
    refine ⟨e, ds, vs, ?_, hvs, fun width beyond hwidth => ?_⟩
    · unfold Expr.ofTokens?
      rw [show { rest := ts ++ [z] } = facing ts z [] 0 [] from rfl, hrun]
      rfl
    · obtain ⟨vs', ds', -, hsame, -, hread⟩ := yields_alike hz hts hrun
        (Sides.soleExpressionAgrees hz hlen hwidth room (Nat.le_refl _))
      obtain ⟨rfl, rfl⟩ := facing_inj hsame
      exact hread

/-- The tokens of `} fun f ( ; class {`, up to the closing one. -/
def brokenOff : List Token :=
  [⟨.rightBrace, "\x7d", 1⟩, ⟨.funWord, "fun", 1⟩, ⟨.identifier, "f", 1⟩, ⟨.leftParen, "(", 1⟩,
    ⟨.semicolon, ";", 1⟩, ⟨.classWord, "class", 1⟩, ⟨.leftBrace, "\x7b", 1⟩]

/-- Three declarations are cut off, and nothing is left. -/
theorem reading_ends_of_brokenOff :
    LoopsGetOn (.endAt 1) 7 8 40 ∧ ∃ ds, ds.length = 3 ∧
      Program.ofTokens 40 (brokenOff ++ [.endAt 1]) = ⟨[], ds⟩ ∧
      ∀ width n beyond, 7 < width → 7 < n →
        topLevels width 40 n [] (facing brokenOff (.endAt 1) beyond 0 []) =
          .ok [] (facing [] (.endAt 1) beyond 0 ds) := by
  have hts : ∀ t ∈ brokenOff, t.isEnd = false := by decide
  have hend : (Token.endAt 1).isEnd := rfl
  obtain ⟨hrules, -, ⟨p, ds, hprogram, hends⟩, -⟩ := reading_ends hend hts 40
  have hresult : (Program.ofTokens 40 (brokenOff ++ [.endAt 1])).result = [] := by rfl
  have hcount : (Program.ofTokens 40 (brokenOff ++ [.endAt 1])).diagnostics.length = 3 := by rfl
  rw [hprogram] at hresult hcount
  subst hresult
  exact ⟨(hrules 8 (by decide)).2, ds, hcount, hprogram, hends⟩

end Grammar
end LoxKit
