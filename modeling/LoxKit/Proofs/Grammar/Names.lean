import LoxKit.Proofs.Grammar.Passage
import LoxKit.Proofs.Grammar.Stratified
import LoxKit.Proofs.Tree.Names

/-!
# The names of a program are tokens of its text

What names something in a tree is one of the tokens that write the tree.  So a property of all
tokens is one of all names (`Passage.Written.named`).
-/
namespace LoxKit
namespace Grammar

variable {P : Token → Prop}

/-! ## Expressions -/

/-- **The names of a phrase have a property.** -/
def Phrase.Named (P : Token → Prop) : Phrase → Prop
  | .expr _ e => e.Named P
  | .arguments es => Expr.AllNamed P es

/-- What is made of a target and a value has their names. -/
theorem assigned?_named {value target e : Expr} (h : assigned? value target = some e)
    (hvalue : value.Named P) (htarget : target.Named P) : e.Named P := by
  cases target with
  | name r =>
    cases h
    exact ⟨htarget, hvalue⟩
  | get o p =>
    cases h
    exact ⟨htarget, hvalue⟩
  | _ => cases h

/-- An expression that is a single token has no other name. -/
theorem atom?_named {t : Token} {e : Expr} (h : atom? t = some e) (ht : P t) : e.Named P := by
  rcases atom?_cases h with ⟨v, rfl⟩ | ⟨-, rfl⟩ | ⟨-, rfl⟩
  · trivial
  · exact ht
  · exact ht

/-- The names of a phrase are tokens of it. -/
theorem Written.named {φ : Phrase} {room : Nat} {ts : List Token} (h : Written φ room ts)
    (hts : ∀ t ∈ ts, P t) : φ.Named P := by
  induction h with
  | tighter _ _ ih => exact ih hts
  | comma _ _ _ ihl ihr =>
    rw [List.forall_mem_append, List.forall_mem_cons] at hts
    exact ⟨ihl hts.1, ihr hts.2.2⟩
  | conditional _ _ _ _ _ iht ihy ihn =>
    simp only [List.forall_mem_append, List.forall_mem_cons] at hts
    exact ⟨iht hts.1, ihy hts.2.2.1, ihn hts.2.2.2.2⟩
  | assign _ _ _ hassigned iht ihv =>
    simp only [List.forall_mem_append, List.forall_mem_cons] at hts
    exact assigned?_named hassigned (ihv hts.2.2) (iht hts.1)
  | @operator level _ _ _ _ _ _ _ _ _ ihl ihr =>
    rw [List.forall_mem_append, List.forall_mem_cons] at hts
    cases level <;> exact ⟨ihl hts.1, ihr hts.2.2⟩
  | prefixed _ _ ih => exact ih (List.forall_mem_cons.mp hts).2
  | callNone _ _ _ ih => exact ⟨ih (List.forall_mem_append.mp hts).1, trivial⟩
  | call _ _ _ _ _ ihf iha =>
    simp only [List.forall_mem_append, List.forall_mem_cons] at hts
    exact ⟨ihf hts.1, iha hts.2.2.1⟩
  | get _ _ _ ih => exact ih (List.forall_mem_append.mp hts).1
  | atom h => exact atom?_named h (hts _ List.mem_cons_self)
  | super => exact hts _ List.mem_cons_self
  | group _ _ _ ih =>
    rw [List.forall_mem_cons, List.forall_mem_append] at hts
    exact ih hts.2.1
  | argument _ ih => exact ⟨ih hts, trivial⟩
  | moreArguments _ _ _ ihe ihs =>
    rw [List.forall_mem_append, List.forall_mem_cons] at hts
    exact ⟨ihe hts.1, ihs hts.2.2⟩

/-! ## Statements -/

section

variable {room : Nat} {ts : List Token}

theorem ClauseWritten.named {e : Option Expr} (h : ClauseWritten room e ts)
    (hts : ∀ t ∈ ts, P t) : ∀ e' ∈ e, e'.Named P := by
  rintro e' rfl
  exact Written.named h hts

theorem VariableWritten.named {s : Stmt} (h : VariableWritten room s ts)
    (hts : ∀ t ∈ ts, P t) : s.Named P := by
  cases h with
  | mk _ _ hinitial _ =>
    rw [List.forall_mem_cons, List.forall_mem_append] at hts
    refine ⟨hts.1, ?_⟩
    rintro e rfl
    obtain ⟨equals, us, -, hwritten, rfl⟩ := hinitial
    exact hwritten.named (List.forall_mem_cons.mp hts.2.1).2

theorem FirstWritten.named {s : Option Stmt} (h : FirstWritten room s ts)
    (hts : ∀ t ∈ ts, P t) : ∀ s' ∈ s, s'.Named P := by
  rintro s' rfl
  cases h with
  | var _ hs => exact hs.named (List.forall_mem_cons.mp hts).2
  | expression he _ => exact he.named (List.forall_mem_append.mp hts).1

theorem CommaList.named {ps : List Token}
    (h : CommaList (fun (p : Token) ts => ts = [p] ∧ p.kind = .identifier) ps ts)
    (hts : ∀ t ∈ ts, P t) : ∀ p ∈ ps, P p := by
  induction h with
  | one h =>
    rw [h.1] at hts
    exact hts
  | more h _ _ ih =>
    rw [h.1, List.singleton_append, List.forall_mem_cons, List.forall_mem_cons] at hts
    exact List.forall_mem_cons.mpr ⟨hts.1, ih hts.2.2⟩

theorem ParamsWritten.named {ps : List Token} (h : ParamsWritten ps ts)
    (hts : ∀ t ∈ ts, P t) : ∀ p ∈ ps, P p := by
  rcases h with ⟨rfl, -⟩ | ⟨hlist, -⟩
  · exact nofun
  · exact hlist.named hts

theorem SuperclassWritten.named {r : Option Reference} (h : SuperclassWritten r ts)
    (hts : ∀ t ∈ ts, P t) : ∀ r' ∈ r, P r'.name := by
  rintro r' rfl
  obtain ⟨less, name, -, -, rfl, rfl⟩ := h
  exact hts name (by simp)

end

/-- A loop with its clauses has the names of these. -/
theorem forLoop_named {initial : Option Stmt} {test increment : Option Expr} {body : Stmt}
    (hinitial : ∀ s ∈ initial, s.Named P) (htest : ∀ e ∈ test, e.Named P)
    (hincrement : ∀ e ∈ increment, e.Named P) (hbody : body.Named P) :
    (Stmt.forLoop initial test increment body).Named P := by
  have hloop : (Stmt.forLoop none test increment body).Named P := by
    cases test <;> cases increment <;>
      simp_all [Stmt.forLoop, Stmt.Named, Stmt.AllNamed, Expr.Named]
  cases initial with
  | none => exact hloop
  | some s => exact ⟨hinitial s rfl, hloop, trivial⟩

/-- **The names of a passage have a property.** -/
def Passage.Named (P : Token → Prop) : Passage → Prop
  | .statement s _ | .declaration s _ => s.Named P
  | .declarations ss | .body ss => Stmt.AllNamed P ss
  | .function d => d.Named P
  | .methods ds => FunDecl.AllNamed P ds

/-- **The names of a passage are tokens of it.** -/
theorem Passage.Written.named {φ : Passage} {l room : Nat} {ts : List Token}
    (h : φ.Written l room ts) (hts : ∀ t ∈ ts, P t) : φ.Named P := by
  induction h with
  | expression he _ => exact Grammar.Written.named he (List.forall_mem_append.mp hts).1
  | print _ he _ =>
    rw [List.forall_mem_cons, List.forall_mem_append] at hts
    exact Grammar.Written.named he hts.2.1
  | leave => trivial
  | giveBack _ he _ =>
    rw [List.forall_mem_cons, List.forall_mem_append] at hts
    exact he.named hts.2.1
  | loop _ _ htest _ _ ih | branch _ _ htest _ _ ih =>
    simp only [List.forall_mem_append, List.forall_mem_cons] at hts
    exact ⟨Grammar.Written.named htest hts.2.2.1, ih hts.2.2.2.2⟩
  | branchElse _ _ htest _ _ _ _ ihy ihn =>
    simp only [List.forall_mem_append, List.forall_mem_cons] at hts
    exact ⟨Grammar.Written.named htest hts.2.2.1, ihy hts.2.2.2.2.1, ihn hts.2.2.2.2.2.2⟩
  | forLoop _ _ hfirst htest _ hincrement _ _ ih =>
    simp only [List.forall_mem_append, List.forall_mem_cons] at hts
    exact forLoop_named (hfirst.named hts.2.2.1) (htest.named hts.2.2.2.1)
      (hincrement.named hts.2.2.2.2.2.1) (ih hts.2.2.2.2.2.2.2)
  | block _ _ ih => exact ih (List.forall_mem_cons.mp hts).2
  | ofStatement _ ih => exact ih hts
  | var _ hs => exact hs.named (List.forall_mem_cons.mp hts).2
  | function _ _ ih => exact ih (List.forall_mem_cons.mp hts).2
  | classDecl _ _ _ hsuper _ _ _ ih =>
    simp only [List.forall_mem_append, List.forall_mem_cons] at hts
    exact ⟨hts.2.1, hsuper.named hts.2.2.1, ih hts.2.2.2.2.1⟩
  | noDeclarations | noMethods => trivial
  | moreDeclarations _ _ ih ihs | moreMethods _ _ ih ihs =>
    rw [List.forall_mem_append] at hts
    exact ⟨ih hts.1, ihs hts.2⟩
  | body _ _ _ ih => exact ih (List.forall_mem_append.mp hts).1
  | functionDecl _ _ hparams _ _ _ ih =>
    simp only [List.forall_mem_append, List.forall_mem_cons] at hts
    exact ⟨hts.1, hparams.named hts.2.2.1, ih hts.2.2.2.2.2⟩

end Grammar
end LoxKit
