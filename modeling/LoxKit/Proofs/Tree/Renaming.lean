import LoxKit.Proofs.Tree.Shape
import LoxKit.Scan
import Mathlib.Data.List.Forall2
import Mathlib.Logic.Equiv.Basic

/-!
# Renaming a local variable

In a resolved tree a reference knows its variable by the number of scopes to leave before that of
the variable.  So a variable can be renamed without a look at names that happen to be the same:
what is renamed in its scope are the declarations of the old name, and anywhere inside the
references to the old name that lead to this scope (`Renaming.stmts`).  A tree one of whose local
variables is renamed is like the first tree everywhere else (`Stmt.Renames`).

For what renaming does, it does not matter that only one variable is renamed.  A tree may be
renamed in any of its scopes, as long as these declare the old name only as a variable or a
parameter: the names of functions and classes are printed, so they are kept (`Stmt.Renamed`).
-/
namespace LoxKit

/-- **A text that is an identifier.** -/
def IsIdentifier (name : String) : Prop :=
  name.toList.head?.any Scan.isLetter ∧ name.toList.all Scan.isWordChar ∧
    TokenKind.ofWord name = .identifier

instance (name : String) : Decidable (IsIdentifier name) := by
  unfold IsIdentifier
  infer_instance

/-- An identifier is none of the words by which a method knows its object and its superclass. -/
theorem IsIdentifier.isName {name : String} (h : IsIdentifier name) :
    name ≠ thisName ∧ name ≠ superName := by
  obtain ⟨-, -, hword⟩ := h
  constructor
  · rintro rfl
    exact absurd hword (by decide)
  · rintro rfl
    exact absurd hword (by decide)

/-- **A new name for a variable.** -/
structure Renaming where
  old : String
  new : String
  old_isIdentifier : IsIdentifier old
  new_isIdentifier : IsIdentifier new

/-- **In which of the scopes around a place the variable is renamed**, the innermost first. -/
abbrev Marks := Nat → Bool

namespace Marks

/-- In none of the scopes. -/
def none : Marks := fun _ => false

/-- With another scope inside. -/
def push (mark : Bool) (marks : Marks) : Marks
  | 0 => mark
  | d + 1 => marks d

/-- Around the methods of a class: inside the scope of `this`, and in a class with a superclass
inside that of `super`. -/
def members (isDerived : Bool) (marks : Marks) : Marks :=
  if isDerived then (marks.push false).push false else marks.push false

@[simp] theorem push_none : Marks.none.push false = Marks.none := by
  funext d
  cases d <;> rfl

@[simp] theorem members_none (isDerived : Bool) : Marks.none.members isDerived = Marks.none := by
  cases isDerived <;> simp [members]

end Marks

/-! ## Names -/

namespace Renaming

variable (R : Renaming)

/-- **How a name is spelled** where the variable is renamed.  No two names may become one, so the
new name, which a program does not have before, would become the old one. -/
def spell (mark : Bool) (name : String) : String :=
  if mark then Equiv.swap R.old R.new name else name

@[simp] theorem spell_false (name : String) : R.spell false name = name := rfl

@[simp] theorem spell_old : R.spell true R.old = R.new := Equiv.swap_apply_left _ _

theorem spell_of_ne (mark : Bool) {name : String} (hold : name ≠ R.old) (hnew : name ≠ R.new) :
    R.spell mark name = name := by
  cases mark
  · rfl
  · exact Equiv.swap_apply_of_ne_of_ne hold hnew

@[simp] theorem spell_spell (mark : Bool) (name : String) :
    R.spell mark (R.spell mark name) = name := by
  cases mark
  · rfl
  · exact Equiv.swap_apply_self ..

theorem spell_injective (mark : Bool) : Function.Injective (R.spell mark) :=
  Function.LeftInverse.injective (g := R.spell mark) (R.spell_spell mark)

@[simp] theorem spell_this (mark : Bool) : R.spell mark thisName = thisName :=
  R.spell_of_ne mark R.old_isIdentifier.isName.1.symm R.new_isIdentifier.isName.1.symm

@[simp] theorem spell_super (mark : Bool) : R.spell mark superName = superName :=
  R.spell_of_ne mark R.old_isIdentifier.isName.2.symm R.new_isIdentifier.isName.2.symm

/-- A token spelled anew. -/
def token (mark : Bool) (t : Token) : Token := { t with lexeme := R.spell mark t.lexeme }

@[simp] theorem token_lexeme (mark : Bool) (t : Token) :
    (R.token mark t).lexeme = R.spell mark t.lexeme := rfl

@[simp] theorem token_line (mark : Bool) (t : Token) : (R.token mark t).line = t.line := rfl

@[simp] theorem token_kind (mark : Bool) (t : Token) : (R.token mark t).kind = t.kind := rfl

@[simp] theorem token_false (t : Token) : R.token false t = t := rfl

/-- A reference spelled like the declaration in the scope that it leads to. -/
def reference (marks : Marks) (r : Reference) : Reference :=
  { r with name := R.token (r.hops.elim false marks) r.name }

@[simp] theorem reference_name (marks : Marks) (r : Reference) :
    (R.reference marks r).name = R.token (r.hops.elim false marks) r.name := rfl

@[simp] theorem reference_hops (marks : Marks) (r : Reference) :
    (R.reference marks r).hops = r.hops := rfl

@[simp] theorem reference_none (r : Reference) : R.reference .none r = r := by
  obtain ⟨name, hops⟩ := r
  cases hops <;> rfl

/-! ## Trees -/

mutual

/-- **An expression with a variable renamed.** -/
def expr (marks : Marks) : Expr → Expr
  | .literal v => .literal v
  | .name r => .name (R.reference marks r)
  | .assign r v => .assign (R.reference marks r) (expr marks v)
  | .unary op e => .unary op (expr marks e)
  | .binary l op r => .binary (expr marks l) op (expr marks r)
  | .logical l op r => .logical (expr marks l) op (expr marks r)
  | .conditional t y n => .conditional (expr marks t) (expr marks y) (expr marks n)
  | .call f paren args => .call (expr marks f) paren (exprs marks args)
  | .get o p => .get (expr marks o) p
  | .set o p v => .set (expr marks o) p (expr marks v)
  | .group e => .group (expr marks e)
  | .self r => .self (R.reference marks r)
  | .super r m => .super (R.reference marks r) m

/-- Expressions with a variable renamed. -/
def exprs (marks : Marks) : List Expr → List Expr
  | [] => []
  | e :: es => expr marks e :: exprs marks es

end

mutual

/-- **A statement with a variable renamed** in scopes around it, and no variable of its own. -/
def stmt (marks : Marks) : Stmt → Stmt
  | .expression e => .expression (R.expr marks e)
  | .print e => .print (R.expr marks e)
  | .var n e => .var (R.token (marks 0) n) (e.map (R.expr marks))
  | .block body => .block (stmts (marks.push false) body)
  | .branch t y none => .branch (R.expr marks t) (stmt marks y) none
  | .branch t y (some n) => .branch (R.expr marks t) (stmt marks y) (some (stmt marks n))
  | .loop t body => .loop (R.expr marks t) (stmt marks body)
  | .leave k => .leave k
  | .giveBack k e => .giveBack k (e.map (R.expr marks))
  | .function d => .function (funDecl marks d)
  | .classDecl n s ms =>
    .classDecl n (s.map (R.reference marks)) (funDecls (marks.members s.isSome) ms)

/-- Statements with a variable renamed. -/
def stmts (marks : Marks) : List Stmt → List Stmt
  | [] => []
  | s :: ss => stmt marks s :: stmts marks ss

/-- A function with a variable renamed in scopes around it. -/
def funDecl (marks : Marks) : FunDecl → FunDecl
  | .mk n ps body => .mk n ps (stmts (marks.push false) body)

/-- Functions with a variable renamed. -/
def funDecls (marks : Marks) : List FunDecl → List FunDecl
  | [] => []
  | d :: ds => funDecl marks d :: funDecls marks ds

end

/-- The statements of a scope in which the variable is renamed. -/
def scope (body : List Stmt) : List Stmt := R.stmts (Marks.none.push true) body

/-- A function in whose own scope the variable is renamed. -/
def function : FunDecl → FunDecl
  | .mk n ps body => .mk n (ps.map (R.token true)) (R.scope body)

end Renaming

/-! ## One variable renamed -/

/-- Whether a statement declares a variable of a name. -/
def Stmt.DeclaresVar (name : String) : Stmt → Prop
  | .var n _ => n.lexeme = name
  | _ => False

/-- Whether a function declares a variable of a name in its own scope: as a parameter, or in its
body. -/
def FunDecl.DeclaresVar (name : String) : FunDecl → Prop
  | .mk _ ps body => (∃ p ∈ ps, p.lexeme = name) ∨ ∃ s ∈ body, s.DeclaresVar name

/-- **One local variable of a statement is renamed**: in a block, or in a function or method, that
declares it. -/
inductive Stmt.Renames (R : Renaming) : Stmt → Stmt → Prop where
  | block {body : List Stmt} : (∃ s ∈ body, s.DeclaresVar R.old) →
    Stmt.Renames R (.block body) (.block (R.scope body))
  | inBlock {before after : List Stmt} {s s' : Stmt} : Stmt.Renames R s s' →
    Stmt.Renames R (.block (before ++ s :: after)) (.block (before ++ s' :: after))
  | yes {test : Expr} {yes yes' : Stmt} {no : Option Stmt} : Stmt.Renames R yes yes' →
    Stmt.Renames R (.branch test yes no) (.branch test yes' no)
  | no {test : Expr} {yes no no' : Stmt} : Stmt.Renames R no no' →
    Stmt.Renames R (.branch test yes (some no)) (.branch test yes (some no'))
  | loop {test : Expr} {body body' : Stmt} : Stmt.Renames R body body' →
    Stmt.Renames R (.loop test body) (.loop test body')
  | function {d : FunDecl} : d.DeclaresVar R.old →
    Stmt.Renames R (.function d) (.function (R.function d))
  | inFunction {name : Token} {params : List Token} {before after : List Stmt} {s s' : Stmt} :
    Stmt.Renames R s s' →
    Stmt.Renames R (.function (.mk name params (before ++ s :: after)))
      (.function (.mk name params (before ++ s' :: after)))
  | method {name : Token} {superclass : Option Reference} {before after : List FunDecl}
      {d : FunDecl} : d.DeclaresVar R.old →
    Stmt.Renames R (.classDecl name superclass (before ++ d :: after))
      (.classDecl name superclass (before ++ R.function d :: after))
  | inMethod {name n : Token} {superclass : Option Reference} {before after : List FunDecl}
      {params : List Token} {first last : List Stmt} {s s' : Stmt} : Stmt.Renames R s s' →
    Stmt.Renames R
      (.classDecl name superclass (before ++ .mk n params (first ++ s :: last) :: after))
      (.classDecl name superclass (before ++ .mk n params (first ++ s' :: last) :: after))

/-- **One local variable of a program is renamed.** -/
inductive Program.Renames (R : Renaming) : Program → Program → Prop where
  | inside {before after : Program} {s s' : Stmt} : s.Renames R s' →
    Program.Renames R (before ++ s :: after) (before ++ s' :: after)

/-! ## Variables renamed in any scopes -/

mutual

/-- **A statement is renamed**, in scopes around it as marked and in any scopes of its own. -/
inductive Stmt.Renamed (R : Renaming) : Marks → Stmt → Stmt → Prop where
  | expression (marks : Marks) (e : Expr) :
    Stmt.Renamed R marks (.expression e) (.expression (R.expr marks e))
  | print (marks : Marks) (e : Expr) : Stmt.Renamed R marks (.print e) (.print (R.expr marks e))
  | var (marks : Marks) (n : Token) (e : Option Expr) :
    Stmt.Renamed R marks (.var n e) (.var (R.token (marks 0) n) (e.map (R.expr marks)))
  | block {marks : Marks} {body body' : List Stmt} (mark : Bool) :
    Stmt.AllRenamed R (marks.push mark) body body' →
    Stmt.Renamed R marks (.block body) (.block body')
  | branch {marks : Marks} {yes yes' : Stmt} (test : Expr) : Stmt.Renamed R marks yes yes' →
    Stmt.Renamed R marks (.branch test yes none) (.branch (R.expr marks test) yes' none)
  | branchElse {marks : Marks} {yes yes' no no' : Stmt} (test : Expr) :
    Stmt.Renamed R marks yes yes' → Stmt.Renamed R marks no no' →
    Stmt.Renamed R marks (.branch test yes (some no)) (.branch (R.expr marks test) yes' (some no'))
  | loop {marks : Marks} {body body' : Stmt} (test : Expr) : Stmt.Renamed R marks body body' →
    Stmt.Renamed R marks (.loop test body) (.loop (R.expr marks test) body')
  | leave (marks : Marks) (k : Token) : Stmt.Renamed R marks (.leave k) (.leave k)
  | giveBack (marks : Marks) (k : Token) (e : Option Expr) :
    Stmt.Renamed R marks (.giveBack k e) (.giveBack k (e.map (R.expr marks)))
  | function {marks : Marks} {d d' : FunDecl} :
    R.spell (marks 0) d.name.lexeme = d.name.lexeme → FunDecl.Renamed R marks d d' →
    Stmt.Renamed R marks (.function d) (.function d')
  | classDecl {marks : Marks} {n : Token} {ms ms' : List FunDecl} (s : Option Reference) :
    R.spell (marks 0) n.lexeme = n.lexeme →
    FunDecl.AllRenamed R (marks.members s.isSome) ms ms' →
    Stmt.Renamed R marks (.classDecl n s ms) (.classDecl n (s.map (R.reference marks)) ms')

/-- Statements are renamed. -/
inductive Stmt.AllRenamed (R : Renaming) : Marks → List Stmt → List Stmt → Prop where
  | nil (marks : Marks) : Stmt.AllRenamed R marks [] []
  | cons {marks : Marks} {s s' : Stmt} {ss ss' : List Stmt} : Stmt.Renamed R marks s s' →
    Stmt.AllRenamed R marks ss ss' → Stmt.AllRenamed R marks (s :: ss) (s' :: ss')

/-- **A function is renamed.** -/
inductive FunDecl.Renamed (R : Renaming) : Marks → FunDecl → FunDecl → Prop where
  | mk {marks : Marks} {body body' : List Stmt} (n : Token) (ps : List Token) (mark : Bool) :
    Stmt.AllRenamed R (marks.push mark) body body' →
    FunDecl.Renamed R marks (.mk n ps body) (.mk n (ps.map (R.token mark)) body')

/-- Functions are renamed. -/
inductive FunDecl.AllRenamed (R : Renaming) : Marks → List FunDecl → List FunDecl → Prop where
  | nil (marks : Marks) : FunDecl.AllRenamed R marks [] []
  | cons {marks : Marks} {d d' : FunDecl} {ds ds' : List FunDecl} : FunDecl.Renamed R marks d d' →
    FunDecl.AllRenamed R marks ds ds' → FunDecl.AllRenamed R marks (d :: ds) (d' :: ds')

end

theorem Stmt.allRenamed_iff {R : Renaming} {marks : Marks} {ss ss' : List Stmt} :
    Stmt.AllRenamed R marks ss ss' ↔ List.Forall₂ (Stmt.Renamed R marks) ss ss' := by
  constructor
  · intro h
    induction ss generalizing ss' with
    | nil =>
      cases h
      exact .nil
    | cons s ss ih =>
      cases h with
      | cons hs hss => exact .cons hs (ih hss)
  · intro h
    induction h with
    | nil => exact .nil marks
    | cons hs _ ih => exact .cons hs ih

theorem FunDecl.allRenamed_iff {R : Renaming} {marks : Marks} {ds ds' : List FunDecl} :
    FunDecl.AllRenamed R marks ds ds' ↔ List.Forall₂ (FunDecl.Renamed R marks) ds ds' := by
  constructor
  · intro h
    induction ds generalizing ds' with
    | nil =>
      cases h
      exact .nil
    | cons d ds ih =>
      cases h with
      | cons hd hds => exact .cons hd (ih hds)
  · intro h
    induction h with
    | nil => exact .nil marks
    | cons hd _ ih => exact .cons hd ih

/-- Functions keep their names. -/
theorem FunDecl.Renamed.name {R : Renaming} {marks : Marks} {d d' : FunDecl}
    (h : d.Renamed R marks d') : d'.name = d.name := by
  cases h
  rfl

/-! ## A tree with one variable renamed -/

mutual

@[simp] theorem Renaming.expr_none (R : Renaming) : (e : Expr) → R.expr .none e = e
  | .literal _ => rfl
  | .name r => by rw [expr, R.reference_none]
  | .assign r v => by rw [expr, R.reference_none, R.expr_none v]
  | .unary _ e => by rw [expr, R.expr_none e]
  | .binary l _ r => by rw [expr, R.expr_none l, R.expr_none r]
  | .logical l _ r => by rw [expr, R.expr_none l, R.expr_none r]
  | .conditional t y n => by rw [expr, R.expr_none t, R.expr_none y, R.expr_none n]
  | .call f _ args => by rw [expr, R.expr_none f, R.exprs_none args]
  | .get o _ => by rw [expr, R.expr_none o]
  | .set o _ v => by rw [expr, R.expr_none o, R.expr_none v]
  | .group e => by rw [expr, R.expr_none e]
  | .self r => by rw [expr, R.reference_none]
  | .super r _ => by rw [expr, R.reference_none]

theorem Renaming.exprs_none (R : Renaming) : (es : List Expr) → R.exprs .none es = es
  | [] => rfl
  | e :: es => by rw [exprs, R.expr_none e, R.exprs_none es]

end

@[simp] theorem Renaming.map_expr_none (R : Renaming) (e : Option Expr) :
    e.map (R.expr .none) = e := by
  cases e <;> simp

mutual

theorem Renaming.stmt_none (R : Renaming) : (s : Stmt) → R.stmt .none s = s
  | .expression e => by rw [stmt, R.expr_none]
  | .print e => by rw [stmt, R.expr_none]
  | .var n e => by rw [stmt, R.map_expr_none]; rfl
  | .block body => by rw [stmt, Marks.push_none, R.stmts_none body]
  | .branch t y none => by rw [stmt, R.expr_none, R.stmt_none y]
  | .branch t y (some n) => by rw [stmt, R.expr_none, R.stmt_none y, R.stmt_none n]
  | .loop t body => by rw [stmt, R.expr_none, R.stmt_none body]
  | .leave _ => rfl
  | .giveBack _ e => by rw [stmt, R.map_expr_none]
  | .function d => by rw [stmt, R.funDecl_none d]
  | .classDecl n s ms => by
    rw [stmt, Marks.members_none, R.funDecls_none ms]
    cases s <;> simp

theorem Renaming.stmts_none (R : Renaming) : (ss : List Stmt) → R.stmts .none ss = ss
  | [] => rfl
  | s :: ss => by rw [stmts, R.stmt_none s, R.stmts_none ss]

theorem Renaming.funDecl_none (R : Renaming) : (d : FunDecl) → R.funDecl .none d = d
  | .mk n ps body => by rw [funDecl, Marks.push_none, R.stmts_none body]

theorem Renaming.funDecls_none (R : Renaming) : (ds : List FunDecl) → R.funDecls .none ds = ds
  | [] => rfl
  | d :: ds => by rw [funDecls, R.funDecl_none d, R.funDecls_none ds]

end

/-- **The functions and classes that a statement declares keep their names**, if in its scope the
variable is renamed as marked. -/
def Stmt.NamesKept (R : Renaming) (mark : Bool) : Stmt → Prop
  | .function d => R.spell mark d.name.lexeme = d.name.lexeme
  | .classDecl n _ _ => R.spell mark n.lexeme = n.lexeme
  | .branch _ y none => y.NamesKept R mark
  | .branch _ y (some n) => y.NamesKept R mark ∧ n.NamesKept R mark
  | .loop _ body => body.NamesKept R mark
  | _ => True

theorem Stmt.namesKept_false (R : Renaming) : (s : Stmt) → s.NamesKept R false
  | .function _ => rfl
  | .classDecl _ _ _ => rfl
  | .branch _ y none => y.namesKept_false R
  | .branch _ y (some n) => ⟨y.namesKept_false R, n.namesKept_false R⟩
  | .loop _ body => body.namesKept_false R
  | .expression _ | .print _ | .var _ _ | .block _ | .leave _ | .giveBack _ _ => trivial

mutual

/-- **What is renamed in scopes around it is renamed.** -/
theorem Renaming.renamed_stmt (R : Renaming) {marks : Marks} :
    (s : Stmt) → s.NamesKept R (marks 0) → s.Renamed R marks (R.stmt marks s)
  | .expression e, _ => .expression marks e
  | .print e, _ => .print marks e
  | .var n e, _ => .var marks n e
  | .block body, _ => .block false (R.renamed_stmts body fun s _ => s.namesKept_false R)
  | .branch t y none, h => .branch t (R.renamed_stmt y h)
  | .branch t y (some n), h => .branchElse t (R.renamed_stmt y h.1) (R.renamed_stmt n h.2)
  | .loop t body, h => .loop t (R.renamed_stmt body h)
  | .leave k, _ => .leave marks k
  | .giveBack k e, _ => .giveBack marks k e
  | .function d, h => .function h (R.renamed_funDecl d)
  | .classDecl _ s ms, h => .classDecl s h (R.renamed_funDecls ms)

theorem Renaming.renamed_stmts (R : Renaming) {marks : Marks} :
    (ss : List Stmt) → (∀ s ∈ ss, s.NamesKept R (marks 0)) →
      Stmt.AllRenamed R marks ss (R.stmts marks ss)
  | [], _ => .nil marks
  | s :: ss, h => .cons (R.renamed_stmt s (h s List.mem_cons_self))
      (R.renamed_stmts ss fun s' hs' => h s' (List.mem_cons_of_mem _ hs'))

theorem Renaming.renamed_funDecl (R : Renaming) {marks : Marks} :
    (d : FunDecl) → d.Renamed R marks (R.funDecl marks d)
  | .mk n ps body => by
    have hbody : Stmt.AllRenamed R (marks.push false) body (R.stmts (marks.push false) body) :=
      R.renamed_stmts body fun s _ => s.namesKept_false R
    have h := FunDecl.Renamed.mk n ps false hbody
    rwa [show ps.map (R.token false) = ps from List.map_id ps] at h

theorem Renaming.renamed_funDecls (R : Renaming) {marks : Marks} :
    (ds : List FunDecl) → FunDecl.AllRenamed R marks ds (R.funDecls marks ds)
  | [] => .nil marks
  | d :: ds => .cons (R.renamed_funDecl d) (R.renamed_funDecls ds)

end

/-- **A statement may stay as it is.** -/
theorem Stmt.Renamed.refl (R : Renaming) (s : Stmt) : s.Renamed R .none s := by
  have h : s.Renamed R .none (R.stmt .none s) := R.renamed_stmt s (s.namesKept_false R)
  rwa [R.stmt_none] at h

theorem Stmt.AllRenamed.refl (R : Renaming) (ss : List Stmt) : Stmt.AllRenamed R .none ss ss := by
  have h : Stmt.AllRenamed R .none ss (R.stmts .none ss) :=
    R.renamed_stmts ss fun s _ => s.namesKept_false R
  rwa [R.stmts_none] at h

theorem FunDecl.AllRenamed.refl (R : Renaming) (ds : List FunDecl) :
    FunDecl.AllRenamed R .none ds ds := by
  have h : FunDecl.AllRenamed R .none ds (R.funDecls .none ds) := R.renamed_funDecls ds
  rwa [R.funDecls_none] at h

end LoxKit
