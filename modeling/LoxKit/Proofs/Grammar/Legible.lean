import LoxKit.Proofs.Grammar.Passage
import LoxKit.Proofs.Grammar.Shaped
import LoxKit.Proofs.Grammar.Stratified
import LoxKit.Proofs.Tree.Legible

/-!
# What is read from well-spelled tokens is legible

The grammar puts a token into a tree only where its kind belongs, and it resolves nothing.  So a
tree is legible if the tokens that write it are spelled as they should be and no numeral among them
is infinite (`Passage.Written.legible`).  A passage that is said not to be open, as the first of two
arms is, does not end with a branch of one arm.
-/
namespace LoxKit

/-- **A token that is spelled as its kind demands**, and is no numeral of infinite value. -/
structure Token.Sound (t : Token) : Prop where
  spelled : t.Spelled
  plain : t.kind = .number → Binary64.Plain (readNumeral t.lexeme)

theorem Token.Sound.legible {t : Token} (h : t.Sound) {wanted : TokenKind → Prop}
    (hkind : wanted t.kind) : t.Legible wanted :=
  ⟨h.spelled, hkind⟩

theorem Token.Sound.reference {t : Token} (h : t.Sound) {kind : TokenKind}
    (hkind : t.kind = kind) : Reference.Legible kind ⟨t, none⟩ :=
  ⟨h.legible hkind, rfl⟩

namespace Grammar

/-! ## Expressions -/

/-- **The tokens of a phrase are in their places.** -/
def Phrase.Legible : Phrase → Prop
  | .expr _ e => e.Legible
  | .arguments es => Expr.AllLegible es

theorem assigned?_legible {value target e : Expr} (h : assigned? value target = some e)
    (hvalue : value.Legible) (htarget : target.Legible) : e.Legible := by
  cases target with
  | name r =>
    cases h
    exact ⟨htarget, hvalue⟩
  | get o p =>
    cases h
    exact ⟨htarget.1, htarget.2, hvalue⟩
  | _ => cases h

theorem atom?_legible {t : Token} {e : Expr} (h : atom? t = some e) (ht : t.Sound) :
    e.Legible := by
  unfold atom? at h
  split at h
  · cases h
    trivial
  · cases h
    trivial
  · cases h
    trivial
  · next hkind =>
    rw [Literal.ofToken?, hkind] at h
    cases h
    exact ht.plain hkind
  · next hkind =>
    rw [Literal.ofToken?, hkind] at h
    cases h
    show '"' ∉ (String.ofList _).toList
    rw [String.toList_ofList]
    exact ht.spelled.string hkind
  · next hkind =>
    cases h
    exact ht.reference hkind
  · next hkind =>
    cases h
    exact ht.reference hkind
  · cases h

theorem Level.legible_node {level : Level} {l r : Expr} {op : Token}
    (hop : level.operators op.kind) (hspelled : op.Sound) (hl : l.Legible) (hr : r.Legible) :
    (level.node l op r).Legible := by
  have hlogical (h : op.kind = .andWord ∨ op.kind = .orWord) : (Expr.logical l op r).Legible :=
    ⟨hspelled.legible h, hl, hr⟩
  cases level with
  | either =>
    refine hlogical (.inr ?_)
    revert hop
    cases op.kind <;> decide
  | both =>
    refine hlogical (.inl ?_)
    revert hop
    cases op.kind <;> decide
  | _ =>
    rcases Level.isBinaryOperator_of_operators hop with hlevel | hlevel | hbinary
    · cases hlevel
    · cases hlevel
    · exact ⟨hspelled.legible hbinary, hl, hr⟩

/-- **Sound tokens write a legible phrase.** -/
theorem Written.legible {φ : Phrase} {room : Nat} {ts : List Token} (h : Written φ room ts)
    (hts : ∀ t ∈ ts, t.Sound) : φ.Legible := by
  induction h with
  | tighter _ _ ih => exact ih hts
  | comma _ hop _ ihl ihr =>
    rw [List.forall_mem_append, List.forall_mem_cons] at hts
    exact ⟨hts.2.1.legible (by rw [hop]; rfl), ihl hts.1, ihr hts.2.2⟩
  | conditional _ _ _ _ _ iht ihy ihn =>
    simp only [List.forall_mem_append, List.forall_mem_cons] at hts
    exact ⟨iht hts.1, ihy hts.2.2.1, ihn hts.2.2.2.2⟩
  | assign _ _ _ hassigned iht ihv =>
    simp only [List.forall_mem_append, List.forall_mem_cons] at hts
    exact assigned?_legible hassigned (ihv hts.2.2) (iht hts.1)
  | operator _ hop _ ihl ihr =>
    rw [List.forall_mem_append, List.forall_mem_cons] at hts
    exact Level.legible_node hop hts.2.1 (ihl hts.1) (ihr hts.2.2)
  | prefixed hop _ ih =>
    rw [List.forall_mem_cons] at hts
    exact ⟨hts.1.legible hop, ih hts.2⟩
  | callNone _ _ hparen ih =>
    simp only [List.forall_mem_append, List.forall_mem_cons] at hts
    exact ⟨ih hts.1, hts.2.2.1.legible hparen, trivial⟩
  | call _ _ _ _ hparen ihf iha =>
    simp only [List.forall_mem_append, List.forall_mem_cons] at hts
    exact ⟨ihf hts.1, hts.2.2.2.1.legible hparen, iha hts.2.2.1⟩
  | get _ _ hname ih =>
    simp only [List.forall_mem_append, List.forall_mem_cons] at hts
    exact ⟨ih hts.1, hts.2.2.1.legible hname⟩
  | atom h => exact atom?_legible h (hts _ List.mem_cons_self)
  | super hkeyword _ hmethod =>
    simp only [List.forall_mem_cons] at hts
    exact ⟨hts.1.reference hkeyword, hts.2.2.1.legible hmethod⟩
  | group _ _ _ ih =>
    rw [List.forall_mem_cons, List.forall_mem_append] at hts
    exact ih hts.2.1
  | argument _ ih => exact ⟨ih hts, trivial⟩
  | moreArguments _ _ _ ihe ihs =>
    rw [List.forall_mem_append, List.forall_mem_cons] at hts
    exact ⟨ihe hts.1, ihs hts.2.2⟩

/-! ## Statements -/

section

variable {room : Nat} {ts : List Token}

theorem ClauseWritten.legible {e : Option Expr} (h : ClauseWritten room e ts)
    (hts : ∀ t ∈ ts, t.Sound) : ∀ e' ∈ e, e'.Legible := by
  rintro e' rfl
  exact Written.legible h hts

theorem VariableWritten.legible {s : Stmt} (h : VariableWritten room s ts)
    (hts : ∀ t ∈ ts, t.Sound) : s.Legible := by
  cases h with
  | mk _ hname hinitial _ =>
    rw [List.forall_mem_cons, List.forall_mem_append] at hts
    refine ⟨hts.1.legible hname, ?_⟩
    rintro e rfl
    obtain ⟨equals, us, -, hwritten, rfl⟩ := hinitial
    exact hwritten.legible (List.forall_mem_cons.mp hts.2.1).2

theorem VariableWritten.not_isOpen {s : Stmt} (h : VariableWritten room s ts) :
    s.isOpen = false := by
  cases h
  rfl

theorem FirstWritten.legible {s : Option Stmt} (h : FirstWritten room s ts)
    (hts : ∀ t ∈ ts, t.Sound) : ∀ s' ∈ s, s'.Legible := by
  rintro s' rfl
  cases h with
  | var _ hs => exact hs.legible (List.forall_mem_cons.mp hts).2
  | expression he _ => exact Written.legible he (List.forall_mem_append.mp hts).1

theorem CommaList.legible {ps : List Token}
    (h : CommaList (fun (p : Token) ts => ts = [p] ∧ p.kind = .identifier) ps ts)
    (hts : ∀ t ∈ ts, t.Sound) : ∀ p ∈ ps, p.LegibleName := by
  induction h with
  | one h =>
    rw [h.1, List.forall_mem_singleton] at hts
    exact List.forall_mem_singleton.mpr (hts.legible h.2)
  | more h _ _ ih =>
    rw [h.1, List.singleton_append, List.forall_mem_cons, List.forall_mem_cons] at hts
    exact List.forall_mem_cons.mpr ⟨hts.1.legible h.2, ih hts.2.2⟩

theorem ParamsWritten.legible {ps : List Token} (h : ParamsWritten ps ts)
    (hts : ∀ t ∈ ts, t.Sound) : ∀ p ∈ ps, p.LegibleName := by
  rcases h with ⟨rfl, -⟩ | ⟨hlist, -⟩
  · exact nofun
  · exact hlist.legible hts

theorem SuperclassWritten.legible {r : Option Reference} (h : SuperclassWritten r ts)
    (hts : ∀ t ∈ ts, t.Sound) : ∀ r' ∈ r, r'.Legible .identifier := by
  rintro r' rfl
  obtain ⟨less, name, -, hname, rfl, rfl⟩ := h
  exact (hts name (by simp)).reference hname

end

/-- A loop with its clauses is legible if these are. -/
theorem forLoop_legible {initial : Option Stmt} {test increment : Option Expr} {body : Stmt}
    (hinitial : ∀ s ∈ initial, s.Legible) (htest : ∀ e ∈ test, e.Legible)
    (hincrement : ∀ e ∈ increment, e.Legible) (hbody : body.Legible) :
    (Stmt.forLoop initial test increment body).Legible := by
  have hloop : (Stmt.forLoop none test increment body).Legible := by
    cases test <;> cases increment <;>
      simp_all [Stmt.forLoop, Stmt.Legible, Stmt.AllLegible, Expr.Legible, Literal.Legible]
  cases initial with
  | none => exact hloop
  | some s => exact ⟨hinitial s rfl, hloop, trivial⟩

/-- A loop with its clauses ends with a branch of one arm only if its body does. -/
theorem forLoop_isOpen {initial : Option Stmt} {test increment : Option Expr} {body : Stmt}
    (h : body.isOpen = false) : (Stmt.forLoop initial test increment body).isOpen = false := by
  cases initial <;> cases increment <;> first | rfl | exact h

/-- **The tokens of a passage are in their places**, and a passage that is not open does not end
with a branch of one arm. -/
def Passage.Legible : Passage → Prop
  | .statement s isOpen | .declaration s isOpen => s.Legible ∧ (isOpen = false → s.isOpen = false)
  | .declarations ss | .body ss => Stmt.AllLegible ss
  | .function d => d.Legible
  | .methods ds => FunDecl.AllLegible ds

/-- **Sound tokens write a legible passage.** -/
theorem Passage.Written.legible {φ : Passage} {l room : Nat} {ts : List Token}
    (h : φ.Written l room ts) (hts : ∀ t ∈ ts, t.Sound) : φ.Legible := by
  induction h with
  | expression he _ =>
    exact ⟨Grammar.Written.legible he (List.forall_mem_append.mp hts).1, fun _ => rfl⟩
  | print _ he _ =>
    rw [List.forall_mem_cons, List.forall_mem_append] at hts
    exact ⟨Grammar.Written.legible he hts.2.1, fun _ => rfl⟩
  | leave hkeyword => exact ⟨(hts _ List.mem_cons_self).legible hkeyword, fun _ => rfl⟩
  | giveBack hkeyword he _ =>
    rw [List.forall_mem_cons, List.forall_mem_append] at hts
    exact ⟨⟨hts.1.legible hkeyword, he.legible hts.2.1⟩, fun _ => rfl⟩
  | loop _ _ htest _ _ ih =>
    simp only [List.forall_mem_append, List.forall_mem_cons] at hts
    have hbody := ih hts.2.2.2.2
    exact ⟨⟨Grammar.Written.legible htest hts.2.2.1, hbody.1⟩, hbody.2⟩
  | branch _ _ htest _ _ ih =>
    simp only [List.forall_mem_append, List.forall_mem_cons] at hts
    exact ⟨⟨Grammar.Written.legible htest hts.2.2.1, (ih hts.2.2.2.2).1⟩, nofun⟩
  | branchElse _ _ htest _ _ _ _ ihy ihn =>
    simp only [List.forall_mem_append, List.forall_mem_cons] at hts
    have hyes := ihy hts.2.2.2.2.1
    have hno := ihn hts.2.2.2.2.2.2
    exact ⟨⟨Grammar.Written.legible htest hts.2.2.1, ⟨hyes.2 rfl, hyes.1⟩, hno.1⟩, hno.2⟩
  | forLoop _ _ hfirst htest _ hincrement _ _ ih =>
    simp only [List.forall_mem_append, List.forall_mem_cons] at hts
    have hbody := ih hts.2.2.2.2.2.2.2
    exact ⟨forLoop_legible (hfirst.legible hts.2.2.1) (htest.legible hts.2.2.2.1)
      (hincrement.legible hts.2.2.2.2.2.1) hbody.1, fun h => forLoop_isOpen (hbody.2 h)⟩
  | block _ _ ih => exact ⟨ih (List.forall_mem_cons.mp hts).2, fun _ => rfl⟩
  | ofStatement _ ih => exact ih hts
  | var _ hs => exact ⟨hs.legible (List.forall_mem_cons.mp hts).2, fun _ => hs.not_isOpen⟩
  | function _ _ ih => exact ⟨ih (List.forall_mem_cons.mp hts).2, fun _ => rfl⟩
  | classDecl _ _ hname hsuper _ _ _ ih =>
    simp only [List.forall_mem_append, List.forall_mem_cons] at hts
    exact ⟨⟨hts.2.1.legible hname, hsuper.legible hts.2.2.1, ih hts.2.2.2.2.1⟩, fun _ => rfl⟩
  | noDeclarations | noMethods => trivial
  | moreDeclarations _ _ ih ihs =>
    rw [List.forall_mem_append] at hts
    exact ⟨(ih hts.1).1, ihs hts.2⟩
  | moreMethods _ _ ih ihs =>
    rw [List.forall_mem_append] at hts
    exact ⟨ih hts.1, ihs hts.2⟩
  | body _ _ _ ih => exact ih (List.forall_mem_append.mp hts).1
  | functionDecl hname _ hparams _ _ _ ih =>
    simp only [List.forall_mem_append, List.forall_mem_cons] at hts
    exact ⟨hts.1.legible hname, hparams.legible hts.2.2.1, ih hts.2.2.2.2.2⟩

end Grammar
end LoxKit
