import LoxKit.Proofs.Grammar.Genuine
import LoxKit.Grammar.Statement

/-!
# The shape of what is read

Whatever is read from scanned tokens has its shape and knows no distances yet
(`Program.fresh_ofTokens`, `Expr.fresh_ofTokens?`).  A step of reading only ever drops
tokens, so what is behind it was scanned as well (`Yields`).  What reading finds wrong is never
taken for a problem of a run (`Program.static_ofTokens`).
-/
namespace LoxKit
namespace Grammar

variable {α β : Type}

/-! ## What a step yields -/

/-- The tokens ahead fit their texts, and nothing that was found wrong arose in a run. -/
def Cursor.Genuine (c : Cursor) : Prop :=
  (∀ t ∈ c.rest, t.Genuine) ∧ ∀ x ∈ c.diagnostics, x.runtime = false

/-- **What a step of reading yields** on tokens that fit their texts, if it yields
anything. -/
def Yields (p : Reader α) (Q : α → Prop) : Prop :=
  ∀ c : Cursor, c.Genuine →
    match p c with
    | .ok a d => d.Genuine ∧ Q a
    | .error _ d => d.Genuine

namespace Yields

theorem mono {p : Reader α} {Q R : α → Prop} (h : Yields p Q) (hQR : ∀ a, Q a → R a) :
    Yields p R := by
  intro c hc
  have hp := h c hc
  cases hpc : p c with
  | ok a d => rw [hpc] at hp; exact ⟨hp.1, hQR a hp.2⟩
  | error e d => rw [hpc] at hp; exact hp

theorem bind {p : Reader α} {f : α → Reader β} {Q : α → Prop} {R : β → Prop} (hp : Yields p Q)
    (hf : ∀ a, Q a → Yields (f a) R) : Yields (p >>= f) R := by
  intro c hc
  have h := hp c hc
  simp only [Bind.bind, EStateM.bind]
  cases hpc : p c with
  | ok a d => rw [hpc] at h; exact hf a h.2 d h.1
  | error e d => rw [hpc] at h; exact h

theorem pure {a : α} {Q : α → Prop} (h : Q a) : Yields (Pure.pure a) Q := fun _ hc => ⟨hc, h⟩

theorem throw (e : Halt) (Q : α → Prop) : Yields (MonadExcept.throw e) Q := fun _ hc => hc

theorem get : Yields MonadState.get Cursor.Genuine := fun _ hc => ⟨hc, hc⟩

theorem set {d : Cursor} (h : d.Genuine) : Yields (MonadStateOf.set d) fun _ => True :=
  fun _ _ => ⟨h, trivial⟩

theorem modify {g : Cursor → Cursor} (h : ∀ c : Cursor, c.Genuine → (g c).Genuine) :
    Yields (modifyThe Cursor g) fun _ => True := fun c hc => ⟨h c hc, trivial⟩

theorem ite {P : Prop} [Decidable P] {p q : Reader α} {Q : α → Prop} (hp : P → Yields p Q)
    (hq : ¬P → Yields q Q) : Yields (if P then p else q) Q := by
  split
  · exact hp ‹_›
  · exact hq ‹_›

end Yields

/-! ## Single steps -/

theorem Cursor.Genuine.current {c : Cursor} (h : c.Genuine) : c.current.Genuine := by
  unfold Cursor.current
  cases hr : c.rest with
  | nil => exact Token.genuine_endAt 0
  | cons t rest => exact h.1 t (by simp [hr])

theorem Cursor.Genuine.advance {c : Cursor} (h : c.Genuine) : c.advance.Genuine := by
  unfold Cursor.advance
  split
  · exact h
  · exact ⟨fun t ht => h.1 t (List.mem_of_mem_tail ht), h.2⟩

theorem Cursor.Genuine.blame {c : Cursor} (h : c.Genuine) (t : Token) (f : Fault) :
    (c.blame t f).Genuine := by
  refine ⟨h.1, fun x hx => ?_⟩
  rcases List.mem_append.mp hx with hx | hx
  · exact h.2 x hx
  · rw [List.mem_singleton.mp hx]
    rfl

theorem yields_need (room : Nat) : Yields (need room) fun _ => True :=
  .ite (fun _ => .throw _ _) fun _ => .pure trivial

theorem yields_current : Yields current fun _ => True := .bind .get fun _ _ => .pure trivial

theorem yields_atEnd : Yields atEnd fun _ => True := .bind .get fun _ _ => .pure trivial

theorem yields_check (kind : TokenKind) : Yields (check kind) fun _ => True :=
  .bind .get fun _ _ => .pure trivial

theorem yields_accept? (wanted : TokenKind → Bool) :
    Yields (accept? wanted) fun t => ∀ t' ∈ t, t'.Genuine ∧ wanted t'.kind := by
  refine .bind .get fun c hc => .ite (fun h => ?_) fun _ => .pure (by simp)
  refine .bind (.set hc.advance) fun _ _ => .pure ?_
  rintro t ht
  cases ht
  exact ⟨hc.current, by simp_all⟩

theorem yields_accept (kind : TokenKind) : Yields (accept kind) fun _ => True :=
  .bind (yields_accept? _) fun _ _ => .pure trivial

theorem yields_blame (t : Token) (f : Fault) : Yields (blame t f) fun _ => True :=
  .modify fun _ hc => hc.blame t f

theorem yields_fail (f : Fault) (Q : α → Prop) : Yields (fail f) Q :=
  .bind yields_current fun t _ => .bind (yields_blame t f) fun _ _ => .throw _ _

theorem yields_expect (kind : TokenKind) (what : String) :
    Yields (expect kind what) fun t => t.Genuine ∧ t.kind = kind := by
  refine .bind (yields_accept? _) fun t ht => ?_
  cases t with
  | none => exact yields_fail _ _
  | some t => exact .pure (by simpa using ht t rfl)

/-- A name is read where one is expected. -/
theorem yields_expect_identifier (what : String) :
    Yields (expect .identifier what) Token.IsName :=
  (yields_expect _ _).mono fun _ h => h.1.name h.2

theorem yields_behind? {p : Reader α} {Q : α → Prop} (kind : TokenKind) (hp : Yields p Q) :
    Yields (behind? kind p) fun a => ∀ a' ∈ a, Q a' :=
  .bind (yields_accept kind) fun _ _ => .ite
    (fun _ => .bind hp fun _ h => .pure (by simpa using h)) fun _ => .pure (by simp)

theorem yields_unless? {p : Reader α} {Q : α → Prop} (kind : TokenKind) (hp : Yields p Q) :
    Yields (unless? kind p) fun a => ∀ a' ∈ a, Q a' :=
  .bind (yields_check kind) fun _ _ => .ite (fun _ => .pure (by simp))
    fun _ => .bind hp fun _ h => .pure (by simpa using h)

theorem yields_withLoops {p : Reader α} {Q : α → Prop} (count : Nat → Nat) (hp : Yields p Q) :
    Yields (withLoops count p) Q := by
  intro c hc
  have h := hp { c with loops := count c.loops } hc
  unfold withLoops
  cases hpc : p { c with loops := count c.loops } with
  | ok a d => rw [hpc] at h; exact h
  | error e d => rw [hpc] at h; exact h

/-- Resuming only drops tokens. -/
theorem mem_of_mem_resumeBehind {t : Token} {ts : List Token} :
    ∀ {previous : Token}, t ∈ resumeBehind previous ts → t ∈ ts := by
  induction ts with
  | nil => exact fun h => h
  | cons t' ts ih =>
    intro previous h
    unfold resumeBehind at h
    split at h
    · exact h
    · exact List.mem_cons_of_mem _ (ih h)

theorem Cursor.Genuine.recover {c : Cursor} (h : c.Genuine) : c.recover.Genuine := by
  refine ⟨fun t ht => ?_, h.2⟩
  simp only [Cursor.recover] at ht
  cases hr : c.rest with
  | nil => simp [hr, resume] at ht
  | cons t' rest =>
    rw [hr, resume] at ht
    split at ht
    · exact h.1 t (by rw [hr]; exact ht)
    · exact h.1 t (by rw [hr]; exact List.mem_cons_of_mem _ (mem_of_mem_resumeBehind ht))

theorem yields_orResume {p : Reader α} {Q : α → Prop} (hp : Yields p Q) :
    Yields (orResume p) fun a => ∀ a' ∈ a, Q a' := by
  intro c hc
  have h := hp c hc
  unfold orResume
  cases hpc : p c with
  | ok a d => rw [hpc] at h; exact ⟨h.1, by simpa using h.2⟩
  | error e d =>
    rw [hpc] at h
    cases e with
    | fault => exact ⟨h.recover, by simp⟩
    | tooDeep => exact h

theorem yields_orGiveUp {p : Reader (Option α)} {Q : α → Prop}
    (hp : Yields p fun a => ∀ a' ∈ a, Q a') : Yields (orGiveUp p) fun a => ∀ a' ∈ a, Q a' := by
  intro c hc
  have h := hp c hc
  unfold orGiveUp
  cases hpc : p c with
  | ok a d => rw [hpc] at h; exact h
  | error e d =>
    rw [hpc] at h
    cases e with
    | fault => exact h
    | tooDeep => exact ⟨(h.blame d.current .tooDeep).recover, by simp⟩

theorem yields_commaList {item : Reader α} {Q : α → Prop} (what : String)
    (hitem : Yields item Q) :
    ∀ n done, (∀ a ∈ done, Q a) → Yields (commaList what item n done) fun as => ∀ a ∈ as, Q a := by
  intro n
  induction n with
  | zero => exact fun done h => .pure (by simpa using h)
  | succ n ih =>
    intro done h
    have hrest : Yields (do
        let x ← item
        if ← accept .comma then commaList what item n (x :: done)
        else return (x :: done).reverse) fun as => ∀ a ∈ as, Q a := by
      refine .bind hitem fun x hx => .bind (yields_accept _) fun _ _ =>
        .ite (fun _ => ?_) fun _ => ?_
      · exact ih _ (by simpa using ⟨hx, h⟩)
      · exact .pure (by simpa [or_imp, forall_and] using ⟨h, hx⟩)
    unfold commaList
    split
    · exact .bind yields_current fun t _ => .bind (yields_blame t _) fun _ _ => hrest
    · exact hrest

theorem yields_untilBrace {item : Reader (Option α)} {Q : α → Prop}
    (hitem : Yields item fun a => ∀ a' ∈ a, Q a') :
    ∀ n done, (∀ a ∈ done, Q a) → Yields (untilBrace item n done) fun as => ∀ a ∈ as, Q a := by
  intro n
  induction n with
  | zero => exact fun done h => .pure (by simpa using h)
  | succ n ih =>
    intro done h
    refine .bind (yields_check _) fun _ _ => .bind yields_atEnd fun _ _ => .ite
      (fun _ => .pure (by simpa using h)) fun _ => .bind hitem fun x hx => ?_
    cases x with
    | none => exact ih done h
    | some x => exact ih _ (by simpa using ⟨hx x rfl, h⟩)

end Grammar

/-! ## Expressions -/

/-- **A shaped expression** of which no distance is known. -/
def Expr.Fresh (e : Expr) : Prop := e.Shaped ∧ e.bare = e

/-- **A shaped statement** of which no distance is known. -/
def Stmt.Fresh (s : Stmt) : Prop := s.Shaped ∧ s.bare = s

/-- **A shaped function** of which no distance is known. -/
def FunDecl.Fresh (d : FunDecl) : Prop := d.Shaped ∧ d.bare = d

theorem Expr.fresh_all {es : List Expr} (h : ∀ e ∈ es, e.Fresh) :
    Expr.AllShaped es ∧ Expr.bareAll es = es := by
  refine ⟨Expr.allShaped_iff.mpr fun e he => (h e he).1, ?_⟩
  rw [Expr.bareAll_eq_map]
  exact (List.map_congr_left fun e he => (h e he).2).trans (List.map_id es)

namespace Grammar

theorem yields_chain {operators : TokenKind → Bool} {operand : Reader Expr}
    {node : Expr → Token → Expr → Expr} (hoperand : Yields operand Expr.Fresh)
    (hnode : ∀ l op r, operators op.kind → l.Fresh → r.Fresh → (node l op r).Fresh) :
    ∀ n left, left.Fresh → Yields (chain operators operand node n left) Expr.Fresh := by
  intro n
  induction n with
  | zero => exact fun left h => .pure h
  | succ n ih =>
    intro left h
    refine .bind (yields_accept? _) fun op hop => ?_
    cases op with
    | none => exact .pure h
    | some op => exact .bind hoperand fun r hr => ih _ (hnode left op r (hop op rfl).2 h hr)

theorem yields_arguments {argument : Reader Expr} (h : Yields argument Expr.Fresh)
    (width : Nat) : Yields (arguments width argument) fun es => ∀ e ∈ es, e.Fresh := by
  refine .bind (yields_unless? _ (yields_commaList _ h width [] (by simp))) fun es hes => .pure ?_
  cases es with
  | none => simp
  | some es => exact hes es rfl

theorem yields_suffixes {argument : Reader Expr} (h : Yields argument Expr.Fresh)
    (width : Nat) :
    ∀ n target, target.Fresh → Yields (suffixes width argument n target) Expr.Fresh := by
  intro n
  induction n with
  | zero => exact fun target h => .pure h
  | succ n ih =>
    intro target ht
    refine .bind (yields_accept _) fun _ _ => .ite (fun _ => ?_) fun _ =>
      .bind (yields_accept _) fun _ _ => .ite (fun _ => ?_) fun _ => .pure ht
    · refine .bind (yields_arguments h width) fun args hargs =>
        .bind (yields_expect _ _) fun paren _ => ih _ ?_
      have hall := Expr.fresh_all hargs
      exact ⟨⟨ht.1, hall.1⟩, by rw [Expr.bare, ht.2, hall.2]⟩
    · exact .bind (yields_expect _ _) fun p _ => ih _ ⟨ht.1, by rw [Expr.bare, ht.2]⟩

/-- A level whose nodes evaluate both operands has such operators. -/
theorem Level.isBinaryOperator_of_operators {level : Level} {k : TokenKind}
    (h : level.operators k) : level = .either ∨ level = .both ∨ k.isBinaryOperator := by
  unfold Level.operators at h
  split at h
  all_goals first
    | exact .inl rfl
    | exact .inr (.inl rfl)
    | exact .inr (.inr rfl)
    | cases h

theorem Level.fresh_node (level : Level) (l : Expr) (op : Token) (r : Expr)
    (h : level.operators op.kind) (hl : l.Fresh) (hr : r.Fresh) : (level.node l op r).Fresh := by
  rcases Level.isBinaryOperator_of_operators h with rfl | rfl | hop
  · exact ⟨⟨hl.1, hr.1⟩, by rw [Level.node, Expr.bare, hl.2, hr.2]⟩
  · exact ⟨⟨hl.1, hr.1⟩, by rw [Level.node, Expr.bare, hl.2, hr.2]⟩
  · have hlogical : (Expr.logical l op r).Fresh :=
      ⟨⟨hl.1, hr.1⟩, by rw [Expr.bare, hl.2, hr.2]⟩
    have hbinary : (Expr.binary l op r).Fresh :=
      ⟨⟨hop, hl.1, hr.1⟩, by rw [Expr.bare, hl.2, hr.2]⟩
    cases level with
    | either | both => exact hlogical
    | _ => exact hbinary

theorem fresh_assigned? {value target e : Expr} (h : assigned? value target = some e)
    (hv : value.Fresh) (ht : target.Fresh) : e.Fresh := by
  unfold assigned? at h
  split at h
  · cases h
    exact ⟨⟨ht.1, hv.1⟩, by rw [Expr.bare, hv.2, Expr.name.inj ht.2]⟩
  · cases h
    exact ⟨⟨ht.1, hv.1⟩, by rw [Expr.bare, hv.2, (Expr.get.inj ht.2).1]⟩
  · cases h

theorem fresh_atom {t : Token} (ht : t.Genuine) :
    ((atom? t).getD default).Fresh := by
  unfold atom?
  split
  · exact ⟨trivial, rfl⟩
  · exact ⟨trivial, rfl⟩
  · exact ⟨trivial, rfl⟩
  · cases Literal.ofToken? t <;> exact ⟨trivial, rfl⟩
  · cases Literal.ofToken? t <;> exact ⟨trivial, rfl⟩
  · exact ⟨ht.this ‹_›, rfl⟩
  · exact ⟨ht.name ‹_›, rfl⟩
  · exact ⟨trivial, rfl⟩

/-- The rules for expressions yield fresh expressions. -/
structure ExprRules (width room : Nat) : Prop where
  expression : Yields (expression width room) Expr.Fresh
  conditional : Yields (conditional width room) Expr.Fresh
  assignment : Yields (assignment width room) Expr.Fresh
  binary : ∀ level, Yields (binary width room level) Expr.Fresh
  unary : Yields (unary width room) Expr.Fresh
  call : Yields (call width room) Expr.Fresh
  primary : Yields (primary width room) Expr.Fresh

variable {width room : Nat}

theorem ExprRules.expression_succ (h : ExprRules width room) :
    Yields (Grammar.expression width (room + 2)) Expr.Fresh := by
  refine .bind h.conditional fun first hfirst => yields_chain h.conditional ?_ _ _ hfirst
  intro l op r hop hl hr
  refine ⟨⟨?_, hl.1, hr.1⟩, by rw [Expr.bare, hl.2, hr.2]⟩
  rw [show op.kind = .comma by simpa using hop]
  rfl

theorem ExprRules.conditional_succ (h : ExprRules width room) :
    Yields (Grammar.conditional width (room + 2)) Expr.Fresh := by
  refine .bind h.assignment fun t ht => .bind (yields_accept _) fun _ _ => .ite (fun _ => ?_)
    fun _ => .pure ht
  refine .bind h.conditional fun y hy => .bind (yields_expect _ _) fun _ _ =>
    .bind h.conditional fun n hn => .pure ?_
  exact ⟨⟨ht.1, hy.1, hn.1⟩, by rw [Expr.bare, ht.2, hy.2, hn.2]⟩

theorem ExprRules.assignment_succ (h : ExprRules width room) :
    Yields (Grammar.assignment width (room + 2)) Expr.Fresh := by
  refine .bind (h.binary _) fun target ht => .bind (yields_accept? _) fun equals _ => ?_
  cases equals with
  | none => exact .pure ht
  | some equals =>
    refine .bind h.conditional fun value hv => ?_
    cases he : assigned? value target with
    | some e => exact .pure (fresh_assigned? he hv ht)
    | none => exact .bind (yields_blame _ _) fun _ _ => .pure ht

theorem ExprRules.binary_succ (h : ExprRules width room) (level : Level) :
    Yields (Grammar.binary width (room + 2) level) Expr.Fresh := by
  cases hnext : level.tighter? with
  | some next =>
    rw [binary_of_tighter hnext]
    exact .bind (h.binary next) fun first hfirst =>
      yields_chain (h.binary next) level.fresh_node _ _ hfirst
  | none =>
    rw [binary_of_tightest hnext]
    exact .bind h.unary fun first hfirst => yields_chain h.unary level.fresh_node _ _ hfirst

theorem ExprRules.unary_succ (h : ExprRules width room) :
    Yields (Grammar.unary width (room + 2)) Expr.Fresh := by
  refine .bind (yields_need _) fun _ _ => .bind (yields_accept? _) fun op hop => ?_
  cases op with
  | none => exact h.call
  | some op =>
    refine .bind h.unary fun e he => .pure ?_
    exact ⟨⟨(hop op rfl).2, he.1⟩, by rw [Expr.bare, he.2]⟩

theorem ExprRules.call_succ (h : ExprRules width room) (h' : ExprRules width (room + 1)) :
    Yields (Grammar.call width (room + 3)) Expr.Fresh :=
  .bind h'.primary fun target ht => yields_suffixes h.conditional width _ target ht

theorem ExprRules.primary_succ (h : ExprRules width room) :
    Yields (Grammar.primary width (room + 2)) Expr.Fresh := by
  refine .bind (yields_need _) fun _ _ => .bind (yields_accept? _) fun t ht => ?_
  cases t with
  | some t => exact .pure (fresh_atom (ht t rfl).1)
  | none =>
    refine .bind (yields_accept? _) fun keyword hk => ?_
    cases keyword with
    | some keyword =>
      refine .bind (yields_expect _ _) fun _ _ => .bind (yields_expect _ _) fun m _ => .pure ?_
      exact ⟨(hk keyword rfl).1.super (by simpa using (hk keyword rfl).2), rfl⟩
    | none =>
      refine .bind (yields_accept _) fun _ _ => .ite (fun _ => ?_) fun _ => yields_fail _ _
      refine .bind h.expression fun e he => .bind (yields_expect _ _) fun _ _ => .pure ?_
      exact ⟨he.1, by rw [Expr.bare, he.2]⟩

theorem exprRules (width room : Nat) : ExprRules width room := by
  induction room using Nat.strongRecOn with
  | ind room ih =>
    match room with
    | 0 =>
      exact ⟨.throw _ _, .throw _ _, .throw _ _, fun _ => .throw _ _, .throw _ _, .throw _ _,
        .throw _ _⟩
    | 1 =>
      exact ⟨.throw _ _, .throw _ _, .throw _ _, fun _ => .throw _ _, .throw _ _, .throw _ _,
        .throw _ _⟩
    | room + 2 =>
      have h := ih room (by omega)
      refine ⟨h.expression_succ, h.conditional_succ, h.assignment_succ, h.binary_succ,
        h.unary_succ, ?_, h.primary_succ⟩
      cases room with
      | zero => exact .throw _ _
      | succ room => exact (ih room (by omega)).call_succ (ih (room + 1) (by omega))

end Grammar

/-! ## Statements -/

theorem Stmt.bareAll_eq_map (ss : List Stmt) : Stmt.bareAll ss = ss.map Stmt.bare := by
  induction ss with
  | nil => rfl
  | cons s ss ih => rw [Stmt.bareAll, List.map_cons, ih]

theorem Stmt.fresh_all {ss : List Stmt} (h : ∀ s ∈ ss, s.Fresh) :
    Stmt.AllShaped ss ∧ Stmt.bareAll ss = ss := by
  refine ⟨Stmt.allShaped_iff.mpr fun s hs => (h s hs).1, ?_⟩
  rw [Stmt.bareAll_eq_map]
  exact (List.map_congr_left fun s hs => (h s hs).2).trans (List.map_id ss)

theorem FunDecl.fresh_all {ds : List FunDecl} (h : ∀ d ∈ ds, d.Fresh) :
    FunDecl.AllShaped ds ∧ FunDecl.bareAll ds = ds := by
  refine ⟨FunDecl.allShaped_iff.mpr fun d hd => (h d hd).1, ?_⟩
  rw [FunDecl.bareAll_eq_map]
  exact (List.map_congr_left fun d hd => (h d hd).2).trans (List.map_id ds)

/-- An optional expression that is fresh if it is there. -/
theorem Expr.fresh_option {e : Option Expr} (h : ∀ e' ∈ e, e'.Fresh) :
    (∀ e' ∈ e, e'.Shaped) ∧ e.map Expr.bare = e := by
  cases e with
  | none => exact ⟨nofun, rfl⟩
  | some e =>
    have he := h e rfl
    exact ⟨fun e' h' => by cases h'; exact he.1, by rw [Option.map_some, he.2]⟩

/-- **A fresh statement that declares nothing.** -/
def Stmt.FreshBody (s : Stmt) : Prop := s.Fresh ∧ s.isDeclaration = false

theorem Stmt.fresh_block {body : List Stmt} (h : ∀ s ∈ body, s.Fresh) :
    (Stmt.block body).FreshBody := by
  have hall := Stmt.fresh_all h
  exact ⟨⟨hall.1, by rw [Stmt.bare, hall.2]⟩, rfl⟩

theorem Stmt.fresh_pair {s s' : Stmt} (h : s.Fresh) (h' : s'.Fresh) :
    (Stmt.block [s, s']).FreshBody :=
  Stmt.fresh_block (by simpa using ⟨h, h'⟩)

theorem Stmt.fresh_expression {e : Expr} (h : e.Fresh) : (Stmt.expression e).FreshBody :=
  ⟨⟨h.1, by rw [Stmt.bare, h.2]⟩, rfl⟩

theorem Stmt.fresh_loop {t : Expr} {body : Stmt} (ht : t.Fresh) (hbody : body.FreshBody) :
    (Stmt.loop t body).FreshBody :=
  ⟨⟨⟨ht.1, hbody.2, hbody.1.1⟩, by rw [Stmt.bare, ht.2, hbody.1.2]⟩, rfl⟩

theorem Stmt.fresh_forLoop {initial : Option Stmt} {test increment : Option Expr} {body : Stmt}
    (hi : ∀ s ∈ initial, s.Fresh) (ht : ∀ e ∈ test, e.Fresh) (hn : ∀ e ∈ increment, e.Fresh)
    (hb : body.FreshBody) : (Stmt.forLoop initial test increment body).FreshBody := by
  have htest : (test.getD (.literal (.bool true))).Fresh := by
    cases test with
    | none => exact ⟨trivial, rfl⟩
    | some e => exact ht e rfl
  have hturn : ∀ e ∈ increment, (Stmt.block [body, .expression e]).FreshBody := fun e he =>
    Stmt.fresh_pair hb.1 (Stmt.fresh_expression (hn e he)).1
  cases increment with
  | none =>
    have hloop := Stmt.fresh_loop htest hb
    cases initial with
    | none => exact hloop
    | some s => exact Stmt.fresh_pair (hi s rfl) hloop.1
  | some e =>
    have hloop := Stmt.fresh_loop htest (hturn e rfl)
    cases initial with
    | none => exact hloop
    | some s => exact Stmt.fresh_pair (hi s rfl) hloop.1

namespace Grammar

variable {width room : Nat}

theorem yields_expression (width room : Nat) :
    Yields (expression width room) Expr.Fresh := (exprRules width room).expression

theorem yields_variableDecl (width room : Nat) : Yields (variableDecl width room) Stmt.Fresh := by
  refine .bind (yields_need _) fun _ _ => .bind (yields_expect_identifier _) fun n hn =>
    .bind (yields_behind? _ (exprRules width room).conditional) fun e he =>
      .bind (yields_expect _ _) fun _ _ => .pure ?_
  have h := Expr.fresh_option he
  exact ⟨⟨hn, h.1⟩, by rw [Stmt.bare, h.2]⟩

theorem yields_expressionStatement (width room : Nat) :
    Yields (expressionStatement width room) Stmt.FreshBody :=
  .bind (yields_expression width room) fun _ he => .bind (yields_expect _ _) fun _ _ =>
    .pure (Stmt.fresh_expression he)

theorem yields_forInitial (width room : Nat) :
    Yields (forInitial width room) fun s => ∀ s' ∈ s, s'.Fresh := by
  refine .bind (yields_accept _) fun _ _ => .ite (fun _ => .pure (by simp)) fun _ =>
    .bind (yields_accept _) fun _ _ => .ite (fun _ => ?_) fun _ => ?_
  · exact .bind (yields_variableDecl _ _) fun s hs => .pure (by simpa using hs)
  · exact .bind (yields_expressionStatement _ _) fun s hs => .pure (by simpa using hs.1)

theorem yields_functionDecl {body : Reader (List Stmt)}
    (hbody : Yields body fun ss => ∀ s ∈ ss, s.Fresh) (width room : Nat) (kind : FunctionKind) :
    Yields (functionDecl width room kind body) FunDecl.Fresh := by
  refine .bind (yields_need _) fun _ _ => .bind (yields_expect_identifier _) fun n hn =>
    .bind (yields_expect _ _) fun _ _ =>
    .bind (yields_unless? _ (yields_commaList _ (yields_expect_identifier _) width [] (by simp)))
      fun ps hps =>
    .bind (yields_expect _ _) fun _ _ => .bind (yields_expect _ _) fun _ _ =>
    .bind (yields_withLoops _ hbody) fun ss hss => .pure ?_
  have hall := Stmt.fresh_all hss
  have hparams : ∀ p ∈ ps.getD [], p.IsName := by
    cases ps with
    | none => simp
    | some ps => exact hps ps rfl
  exact ⟨⟨hn, hparams, hall.1⟩, by rw [FunDecl.bare, hall.2]⟩

theorem yields_classDecl {method : Reader FunDecl} (hmethod : Yields method FunDecl.Fresh)
    (width room : Nat) : Yields (classDecl width room method) Stmt.Fresh := by
  refine .bind (yields_need _) fun _ _ => .bind (yields_expect_identifier _) fun n hn =>
    .bind (yields_behind? _ (yields_expect_identifier _)) fun s hs =>
    .bind (yields_expect _ _) fun _ _ =>
    .bind (yields_untilBrace (.bind hmethod fun d hd => .pure (by simpa using hd)) width []
      (by simp)) fun ms hms =>
    .bind (yields_expect _ _) fun _ _ => .pure ?_
  have hall := FunDecl.fresh_all hms
  cases s with
  | none => exact ⟨⟨hn, nofun, hall.1⟩, by rw [Stmt.bare, hall.2]; rfl⟩
  | some s =>
    refine ⟨⟨hn, fun r hr => ?_, hall.1⟩, by rw [Stmt.bare, hall.2]; rfl⟩
    cases hr
    exact hs s rfl

/-- The rules for statements yield fresh statements, and only a declaration declares. -/
structure StmtRules (width room : Nat) : Prop where
  declaration : Yields (declaration width room) fun s => ∀ s' ∈ s, s'.Fresh
  statement : Yields (statement width room) Stmt.FreshBody
  block : Yields (block width room) fun ss => ∀ s ∈ ss, s.Fresh

theorem declaration_fresh {room : Nat} (hblock : ∀ r, r ≤ room + 1 → StmtRules width r)
    (hstmt : StmtRules width (room + 3)) :
    Yields (Grammar.declaration width (room + 5)) fun s => ∀ s' ∈ s, s'.Fresh := by
  refine yields_orResume (.bind (yields_need _) fun _ _ => .bind (yields_accept _) fun _ _ =>
    .ite (fun _ => ?_) fun _ => .bind (yields_accept _) fun _ _ => .ite (fun _ => ?_) fun _ =>
    .bind (yields_accept _) fun _ _ => .ite (fun _ => ?_) fun _ => ?_)
  · exact yields_classDecl (yields_functionDecl (hblock room (by omega)).block _ _ _) _ _
  · refine .bind (yields_functionDecl (hblock (room + 1) (by omega)).block _ _ _) fun d hd =>
      .pure ⟨hd.1, by rw [Stmt.bare, hd.2]⟩
  · exact yields_variableDecl _ _
  · exact hstmt.statement.mono fun _ h => h.1

theorem StmtRules.block_succ (h : StmtRules width room) :
    Yields (Grammar.block width (room + 2)) fun ss => ∀ s ∈ ss, s.Fresh :=
  .bind (yields_need _) fun _ _ => .bind (yields_untilBrace h.declaration _ _ (by simp))
    fun _ hss => .bind (yields_expect _ _) fun _ _ => .pure hss

theorem statement_fresh {room : Nat} (h₀ : StmtRules width room)
    (h₁ : StmtRules width (room + 1)) (h₂ : StmtRules width (room + 2)) :
    Yields (Grammar.statement width (room + 4)) Stmt.FreshBody := by
  refine .bind (yields_need _) fun _ _ => .bind (yields_accept? _) fun keyword hk => ?_
  cases keyword with
  | none => exact yields_expressionStatement _ _
  | some keyword =>
    dsimp only
    split
    · -- `break`
      refine .bind (yields_need _) fun _ _ => .bind .get fun _ _ => ?_
      have hrest : Yields (do
          let _ ← expect .semicolon "';' after 'break'"
          return Stmt.leave keyword) Stmt.FreshBody :=
        .bind (yields_expect _ _) fun _ _ => .pure ⟨⟨trivial, rfl⟩, rfl⟩
      exact .ite (fun _ => .bind (yields_blame _ _) fun _ _ => hrest) fun _ => hrest
    · -- `for`
      exact .bind (yields_need _) fun _ _ => .bind (yields_expect _ _) fun _ _ =>
        .bind (yields_forInitial _ _) fun i hi =>
        .bind (yields_unless? _ (yields_expression _ _)) fun t ht =>
        .bind (yields_expect _ _) fun _ _ =>
        .bind (yields_unless? _ (yields_expression _ _)) fun n hn =>
        .bind (yields_expect _ _) fun _ _ => .bind (yields_withLoops _ h₀.statement) fun b hb =>
        .pure (Stmt.fresh_forLoop hi ht hn hb)
    · -- `if`
      refine .bind (yields_need _) fun _ _ => .bind (yields_expect _ _) fun _ _ =>
        .bind (yields_expression _ _) fun t ht => .bind (yields_expect _ _) fun _ _ =>
        .bind h₁.statement fun y hy => .bind (yields_behind? _ h₁.statement) fun n hn => .pure ?_
      cases n with
      | none => exact ⟨⟨⟨ht.1, hy.2, hy.1.1⟩, by rw [Stmt.bare, ht.2, hy.1.2]⟩, rfl⟩
      | some n =>
        have hn' := hn n rfl
        exact ⟨⟨⟨ht.1, ⟨hy.2, hy.1.1⟩, hn'.2, hn'.1.1⟩,
          by rw [Stmt.bare, ht.2, hy.1.2, hn'.1.2]⟩, rfl⟩
    · -- `print`
      exact .bind (yields_expression _ _) fun e he => .bind (yields_expect _ _) fun _ _ =>
        .pure ⟨⟨he.1, by rw [Stmt.bare, he.2]⟩, rfl⟩
    · -- `return`
      refine .bind (yields_unless? _ (yields_expression _ _)) fun e he =>
        .bind (yields_need _) fun _ _ => .bind (yields_expect _ _) fun _ _ => .pure ?_
      have h := Expr.fresh_option he
      exact ⟨⟨h.1, by rw [Stmt.bare, h.2]⟩, rfl⟩
    · -- `while`
      exact .bind (yields_need _) fun _ _ => .bind (yields_expect _ _) fun _ _ =>
        .bind (yields_expression _ _) fun t ht => .bind (yields_expect _ _) fun _ _ =>
        .bind (yields_withLoops _ h₀.statement) fun b hb => .pure (Stmt.fresh_loop ht hb)
    · -- a block
      exact .bind h₂.block fun ss hss => .pure (Stmt.fresh_block hss)

theorem stmtRules (width room : Nat) : StmtRules width room := by
  induction room using Nat.strongRecOn with
  | ind room ih =>
    refine ⟨?_, ?_, ?_⟩
    · match room with
      | 0 | 1 | 2 | 3 | 4 => exact .throw _ _
      | room + 5 => exact declaration_fresh (fun r hr => ih r (by omega)) (ih _ (by omega))
    · match room with
      | 0 | 1 | 2 | 3 => exact .throw _ _
      | room + 4 => exact statement_fresh (ih _ (by omega)) (ih _ (by omega)) (ih _ (by omega))
    · match room with
      | 0 | 1 => exact .throw _ _
      | room + 2 => exact (ih room (by omega)).block_succ

theorem yields_topLevels (width room : Nat) :
    ∀ n done, (∀ s ∈ done, s.Fresh) →
      Yields (topLevels width room n done) fun ss => ∀ s ∈ ss, s.Fresh := by
  intro n
  induction n with
  | zero => exact fun done h => .pure (by simpa using h)
  | succ n ih =>
    intro done h
    refine .bind yields_atEnd fun _ _ => .ite (fun _ => .pure (by simpa using h)) fun _ =>
      .bind (yields_orGiveUp (stmtRules width room).declaration) fun s hs => ?_
    cases s with
    | none => exact ih done h
    | some s => exact ih _ (by simpa using ⟨hs s rfl, h⟩)

end Grammar

open Grammar

/-- What reading the tokens of a text yields, and what it finds wrong. -/
theorem Program.yields_ofTokens {tokens : List Token} (h : ∀ t ∈ tokens, t.Genuine) (room : Nat) :
    (∀ s ∈ (Program.ofTokens room tokens).result, s.Fresh) ∧
      ∀ x ∈ (Program.ofTokens room tokens).diagnostics, x.runtime = false := by
  have hyields :=
    yields_topLevels tokens.length room tokens.length [] (by simp) { rest := tokens } ⟨h, nofun⟩
  simp only [Program.ofTokens]
  cases hr : topLevels tokens.length room tokens.length [] { rest := tokens } with
  | ok p c =>
    rw [hr] at hyields
    exact ⟨hyields.2, hyields.1.2⟩
  | error e c =>
    rw [hr] at hyields
    exact ⟨nofun, hyields.2⟩

/-- **The statements of a program that was read are fresh.** -/
theorem Program.fresh_ofTokens {tokens : List Token} (h : ∀ t ∈ tokens, t.Genuine)
    (room : Nat) : ∀ s ∈ (Program.ofTokens room tokens).result, s.Fresh :=
  (yields_ofTokens h room).1

/-- **What is found wrong in reading did not arise in a run.** -/
theorem Program.static_ofTokens {tokens : List Token} (h : ∀ t ∈ tokens, t.Genuine)
    (room : Nat) : ∀ x ∈ (Program.ofTokens room tokens).diagnostics, x.runtime = false :=
  (yields_ofTokens h room).2

/-- **An expression that was read is shaped, and fresh from reading.** -/
theorem Expr.fresh_ofTokens? {tokens : List Token} (h : ∀ t ∈ tokens, t.Genuine) {room : Nat}
    {e : Expr} (he : (Expr.ofTokens? room tokens).result = some e) : e.Fresh := by
  have hyields : Yields (closedExpression tokens.length room) Expr.Fresh :=
    .bind (yields_expression _ _) fun e he => .bind yields_atEnd fun _ _ =>
      .ite (fun _ => .pure he) fun _ => yields_fail _ _
  have hclosed := hyields { rest := tokens } ⟨h, nofun⟩
  unfold Expr.ofTokens? soleExpression at he
  cases hr : closedExpression tokens.length room { rest := tokens } with
  | ok e' c =>
    rw [hr] at hclosed he
    cases he
    exact hclosed.2
  | error e' c =>
    rw [hr] at he
    cases e' <;> cases he

end LoxKit
