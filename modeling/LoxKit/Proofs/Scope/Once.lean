import LoxKit.Proofs.Scope.Stack
import LoxKit.Proofs.Tree.Names
import LoxKit.Proofs.Tree.Renaming

/-!
# A scope declares each name once

Where all visits of a scope are settled, no two of its statements declare the same name, and none
declares that of a parameter (`Stmt.not_declares`, `Stmt.declared_once`).  So a scope that declares
a name as a variable does not declare it as a function or a class, and to rename the variable is
to rename all that the scope declares under this name (`Program.Renames.renamed`).
-/
namespace LoxKit

open Scope

/-! ## What a scope declares -/

/-- **The innermost scope declares a name.** -/
def Scope.Stack.Declares (Γ : Stack) (name : String) : Prop :=
  ∃ l ∈ Γ.head?, l.names.contains name

namespace Scope.Stack

variable {Γ : Stack} {x : String}

theorem Declares.enter (h : Γ.Declares x) (y : String) (b : Bool) : (Γ.enter y b).Declares x := by
  obtain ⟨l, hl, hx⟩ := h
  rcases Γ with - | ⟨l', Γ⟩
  · cases hl
  · cases hl
    cases l with
    | block body names =>
      exact ⟨.block body (names.put y b), rfl, by simp_all [Level.names, Bindings.contains_put]⟩
    | call decl names =>
      exact ⟨.call decl (names.put y b), rfl, by simp_all [Level.names, Bindings.contains_put]⟩
    | this site => exact ⟨.this site, rfl, hx⟩
    | super site => exact ⟨.super site, rfl, hx⟩

theorem Declares.enterAll (h : Γ.Declares x) (ps : List Token) : (Γ.enterAll ps).Declares x := by
  induction ps generalizing Γ with
  | nil => exact h
  | cons p ps ih => exact ih (h.enter p.lexeme true)

/-- A name that is entered into the scope of a body is declared there. -/
theorem declares_enter (hΓ : Γ.OfBody) (hne : Γ ≠ []) (b : Bool) : (Γ.enter x b).Declares x := by
  obtain ⟨l, Γ, rfl⟩ := List.exists_cons_of_ne_nil hne
  obtain ⟨l', hl', hget⟩ := hΓ.enter_cons x b
  refine ⟨l', by rw [hl']; rfl, ?_⟩
  rw [← Bindings.isSome_get?, hget, if_pos rfl]
  rfl

theorem enter_ne_nil (hne : Γ ≠ []) (b : Bool) : Γ.enter x b ≠ [] := by
  obtain ⟨l, Γ, rfl⟩ := List.exists_cons_of_ne_nil hne
  cases l <;> exact List.cons_ne_nil _ _

/-- Parameters are declared. -/
theorem declares_enterAll (hΓ : Γ.OfBody) (hne : Γ ≠ []) {ps : List Token} {p : Token}
    (hp : p ∈ ps) : (Γ.enterAll ps).Declares p.lexeme := by
  induction ps generalizing Γ with
  | nil => cases hp
  | cons q ps ih =>
    rcases List.mem_cons.mp hp with rfl | hp
    · exact (declares_enter hΓ hne true).enterAll ps
    · exact ih (hΓ.enter _ _) (enter_ne_nil hne true) hp

theorem enterAll_ofBody (hΓ : Γ.OfBody) (ps : List Token) : (Γ.enterAll ps).OfBody := by
  induction ps generalizing Γ with
  | nil => exact hΓ
  | cons p ps ih => exact ih (hΓ.enter _ _)

theorem enterAll_ne_nil (hne : Γ ≠ []) (ps : List Token) : Γ.enterAll ps ≠ [] := by
  induction ps generalizing Γ with
  | nil => exact hne
  | cons p ps ih => exact ih (enter_ne_nil hne true)

end Scope.Stack

/-- The name that a statement declares in the scope around it. -/
def Stmt.declared? : Stmt → Option Token
  | .var n _ | .classDecl n _ _ => some n
  | .function d => some d.name
  | _ => none

namespace Stmt

variable {Γ : Stack}

theorem declare_of_declared? {s : Stmt} {n : Token} (h : s.declared? = some n) (Γ : Stack) :
    s.declare Γ = Γ.enter n.lexeme true := by
  cases s <;> cases h <;> rfl

theorem declare_of_declared?_none {s : Stmt} (h : s.declared? = none) (Γ : Stack) :
    s.declare Γ = Γ := by
  cases s <;> first | rfl | cases h

theorem declare_mem_visits {s : Stmt} {n : Token} (h : s.declared? = some n) (Γ : Stack) :
    .declare n Γ ∈ s.visits Γ := by
  cases s with
  | var n e =>
    cases h
    cases e <;> simp [visits]
  | function d =>
    cases h
    simp [visits]
  | classDecl n r ms =>
    cases h
    cases r <;> simp [visits]
  | _ => cases h

/-- **A name that the scope has already is declared by none of its statements.** -/
theorem not_declares {ss : List Stmt} (hs : ∀ v ∈ Stmt.visitsAll ss Γ, v.Settled) {x : String}
    (hx : Γ.Declares x) {s : Stmt} (hmem : s ∈ ss) {n : Token} (hn : s.declared? = some n) :
    n.lexeme ≠ x := by
  induction ss generalizing Γ with
  | nil => cases hmem
  | cons s' ss ih =>
    have hhead : ∀ v ∈ s'.visits Γ, v.Settled := fun v hv => hs v (List.mem_append_left _ hv)
    have htail : ∀ v ∈ Stmt.visitsAll ss (s'.declare Γ), v.Settled :=
      fun v hv => hs v (List.mem_append_right _ hv)
    rcases List.mem_cons.mp hmem with rfl | hmem
    · rintro rfl
      obtain ⟨l, hl, hcontains⟩ := hx
      obtain ⟨-, hfresh⟩ := hhead _ (declare_mem_visits hn Γ)
      rw [hfresh l hl] at hcontains
      cases hcontains
    · refine ih htail ?_ hmem
      cases hs' : s'.declared? with
      | none => rwa [declare_of_declared?_none hs']
      | some n' =>
        rw [declare_of_declared? hs']
        exact hx.enter _ _

/-- **No two statements of a scope declare the same name.** -/
theorem declared_once {ss : List Stmt} (hΓ : Γ.OfBody) (hne : Γ ≠ [])
    (hs : ∀ v ∈ Stmt.visitsAll ss Γ, v.Settled) {s s' : Stmt} (hmem : s ∈ ss) (hmem' : s' ∈ ss)
    (hdiffer : s ≠ s') {n n' : Token} (hn : s.declared? = some n) (hn' : s'.declared? = some n') :
    n.lexeme ≠ n'.lexeme := by
  induction ss generalizing Γ with
  | nil => cases hmem
  | cons s₀ ss ih =>
    have htail : ∀ v ∈ Stmt.visitsAll ss (s₀.declare Γ), v.Settled :=
      fun v hv => hs v (List.mem_append_right _ hv)
    -- of two statements one comes first, and its name is there before the other
    rcases List.mem_cons.mp hmem with rfl | hin <;> rcases List.mem_cons.mp hmem' with rfl | hin'
    · exact absurd rfl hdiffer
    · rw [declare_of_declared? hn] at htail
      exact (not_declares htail (Stack.declares_enter hΓ hne true) hin' hn').symm
    · rw [declare_of_declared? hn'] at htail
      exact not_declares htail (Stack.declares_enter hΓ hne true) hin hn
    · cases hs₀ : s₀.declared? with
      | none =>
        rw [declare_of_declared?_none hs₀] at htail
        exact ih hΓ hne htail hin hin'
      | some n₀ =>
        rw [declare_of_declared? hs₀] at htail
        exact ih (hΓ.enter _ _) (Stack.enter_ne_nil hne true) htail hin hin'

end Stmt

/-! ## The variable of a scope is all that has its name -/

/-- What is no declaration keeps the names of functions and classes. -/
theorem Stmt.namesKept_of_shaped (R : Renaming) (mark : Bool) :
    (s : Stmt) → s.Shaped → s.isDeclaration = false → s.NamesKept R mark
  | .branch _ y none, h, _ => y.namesKept_of_shaped R mark h.2.2 h.2.1
  | .branch _ y (some n), h, _ =>
    ⟨y.namesKept_of_shaped R mark h.2.1.2 h.2.1.1, n.namesKept_of_shaped R mark h.2.2.2 h.2.2.1⟩
  | .loop _ body, h, _ => body.namesKept_of_shaped R mark h.2.2 h.2.1
  | .var _ _, _, h | .function _, _, h | .classDecl _ _ _, _, h => nomatch h
  | .expression _, _, _ | .print _, _, _ | .block _, _, _ | .leave _, _, _ | .giveBack _ _, _, _ =>
    trivial

/-- **A scope that declares the old name as a variable** does not declare it as anything else. -/
theorem Stmt.namesKept_of_once {R : Renaming} {body : List Stmt} (hshaped : Stmt.AllShaped body)
    (hnamed : Stmt.AllNamed (·.lexeme ≠ R.new) body)
    (honce : ∀ s ∈ body, ∀ n, s.declared? = some n → (∀ e, s ≠ .var n e) →
      n.lexeme ≠ R.old) :
    ∀ s ∈ body, s.NamesKept R true := by
  intro s hs
  have hs' := Stmt.allShaped_iff.mp hshaped s hs
  have hnew := Stmt.allNamed_iff.mp hnamed s hs
  cases s with
  | function d => exact R.spell_of_ne true (honce _ hs _ rfl nofun) (FunDecl.Named.name hnew)
  | classDecl n r ms => exact R.spell_of_ne true (honce _ hs _ rfl nofun) hnew.1
  | var n e => trivial
  | _ => exact namesKept_of_shaped R true _ hs' rfl

theorem Stmt.visitsAll_append (ss ss' : List Stmt) (Γ : Stack) :
    Stmt.visitsAll (ss ++ ss') Γ =
      Stmt.visitsAll ss Γ ++ Stmt.visitsAll ss' (Stmt.declareAll ss Γ) := by
  induction ss generalizing Γ with
  | nil => rfl
  | cons s ss ih =>
    rw [List.cons_append, Stmt.visitsAll, ih, Stmt.visitsAll, List.append_assoc,
      Stmt.declareAll_cons]

/-- In the middle of a list of statements, only one is renamed. -/
theorem Stmt.AllRenamed.inside {R : Renaming} {before after : List Stmt} {s s' : Stmt}
    (h : s.Renamed R .none s') :
    Stmt.AllRenamed R .none (before ++ s :: after) (before ++ s' :: after) := by
  rw [Stmt.allRenamed_iff]
  exact List.rel_append (Stmt.allRenamed_iff.mp (.refl R before))
    (.cons h (Stmt.allRenamed_iff.mp (.refl R after)))

theorem FunDecl.AllRenamed.inside {R : Renaming} {before after : List FunDecl} {d d' : FunDecl}
    (h : d.Renamed R .none d') :
    FunDecl.AllRenamed R .none (before ++ d :: after) (before ++ d' :: after) := by
  rw [FunDecl.allRenamed_iff]
  exact List.rel_append (FunDecl.allRenamed_iff.mp (.refl R before))
    (.cons h (FunDecl.allRenamed_iff.mp (.refl R after)))

/-- The visits of a statement are among those of the statements around it. -/
theorem Stmt.settled_inside {before after : List Stmt} {s : Stmt} {Γ : Stack}
    (h : ∀ v ∈ Stmt.visitsAll (before ++ s :: after) Γ, v.Settled) :
    ∀ v ∈ s.visits (Stmt.declareAll before Γ), v.Settled := by
  intro v hv
  refine h v ?_
  rw [Stmt.visitsAll_append, Stmt.visitsAll]
  exact List.mem_append_right _ (List.mem_append_left _ hv)

/-- The visits of the methods of a class are among those of the class. -/
theorem Stmt.settled_members {n : Token} {r : Option Reference} {ms : List FunDecl} {Γ : Stack}
    (h : ∀ v ∈ (Stmt.classDecl n r ms).visits Γ, v.Settled) {d : FunDecl} (hd : d ∈ ms) :
    ∀ v ∈ d.visits (Stack.members ⟨n, r, ms⟩ (Γ.enter n.lexeme true)), v.Settled := by
  intro v hv
  refine h v ?_
  have hmem := FunDecl.mem_visitsAll.mpr ⟨d, hd, hv⟩
  cases r with
  | none => exact List.mem_cons_of_mem _ hmem
  | some r => exact List.mem_cons_of_mem _ (List.mem_cons_of_mem _ hmem)

/-- **In a block, the variables of the old name** are all that has this name. -/
theorem Renaming.renamed_scope {R : Renaming} {body : List Stmt} {Γ : Stack} (hΓ : Γ.OfBody)
    (hne : Γ ≠ []) (hshaped : Stmt.AllShaped body) (hnamed : Stmt.AllNamed (·.lexeme ≠ R.new) body)
    (hs : ∀ v ∈ Stmt.visitsAll body Γ, v.Settled)
    (hold : Γ.Declares R.old ∨ ∃ s ∈ body, s.DeclaresVar R.old) :
    Stmt.AllRenamed R (Marks.none.push true) body (R.scope body) := by
  refine R.renamed_stmts body (Stmt.namesKept_of_once hshaped hnamed fun s hmem n hn hvar => ?_)
  rcases hold with hold | ⟨s', hmem', hvar'⟩
  · exact Stmt.not_declares hs hold hmem hn
  · cases s' with
    | var n' e =>
      rw [← show n'.lexeme = R.old from hvar']
      refine Stmt.declared_once hΓ hne hs hmem hmem' ?_ hn rfl
      rintro rfl
      cases hn
      exact hvar e rfl
    | _ => exact hvar'.elim

/-- A function in whose own scope a variable is renamed. -/
theorem FunDecl.renamed_function {R : Renaming} {d : FunDecl} {Γ : Stack} (hshaped : d.Shaped)
    (hnamed : d.Named (·.lexeme ≠ R.new)) (hs : ∀ v ∈ d.visits Γ, v.Settled)
    (hold : d.DeclaresVar R.old) : d.Renamed R .none (R.function d) := by
  obtain ⟨n, ps, body⟩ := d
  have hΓ : Stack.OfBody (.call (.mk n ps body) {} :: Γ) := trivial
  refine .mk n ps true (R.renamed_scope (Stack.enterAll_ofBody hΓ ps)
    (Stack.enterAll_ne_nil (List.cons_ne_nil _ _) ps) hshaped.2.2 hnamed.2.2
    (fun v hv => hs v (List.mem_append_right _ hv)) (hold.imp_left ?_))
  rintro ⟨p, hp, hlexeme⟩
  rw [← hlexeme]
  exact Stack.declares_enterAll hΓ (List.cons_ne_nil _ _) hp

/-- A function in whose body one statement is renamed. -/
theorem FunDecl.renamed_inside {R : Renaming} {n : Token} {ps : List Token}
    {before after : List Stmt} {s s' : Stmt} (h : s.Renamed R .none s') :
    (FunDecl.mk n ps (before ++ s :: after)).Renamed R .none
      (.mk n ps (before ++ s' :: after)) := by
  have hbody : Stmt.AllRenamed R (Marks.none.push false) (before ++ s :: after)
      (before ++ s' :: after) := by
    rw [Marks.push_none]
    exact .inside h
  have hrenamed := FunDecl.Renamed.mk n ps false hbody
  rwa [show ps.map (R.token false) = ps from List.map_id ps] at hrenamed

/-- A class one of whose methods is renamed. -/
theorem Stmt.renamed_member {R : Renaming} {n : Token} {r : Option Reference}
    {before after : List FunDecl} {d d' : FunDecl} (h : d.Renamed R .none d') :
    (Stmt.classDecl n r (before ++ d :: after)).Renamed R .none
      (.classDecl n r (before ++ d' :: after)) := by
  have hmethods : FunDecl.AllRenamed R (Marks.none.members r.isSome) (before ++ d :: after)
      (before ++ d' :: after) := by
    rw [Marks.members_none]
    exact .inside h
  have hrenamed := Stmt.Renamed.classDecl (n := n) r rfl hmethods
  rwa [show r.map (R.reference .none) = r by cases r <;> simp] at hrenamed

/-- **A statement one of whose variables is renamed is renamed.** -/
theorem Stmt.Renames.renamed {R : Renaming} {s s' : Stmt} (h : s.Renames R s') (Γ : Stack)
    (hshaped : s.Shaped) (hnamed : s.Named (·.lexeme ≠ R.new))
    (hs : ∀ v ∈ s.visits Γ, v.Settled) : s.Renamed R .none s' := by
  induction h generalizing Γ with
  | @block body hold =>
    have hΓ : Stack.OfBody (.block body {} :: Γ) := trivial
    exact .block true
      (R.renamed_scope hΓ (List.cons_ne_nil _ _) hshaped hnamed hs (.inr hold))
  | @inBlock before after s s' _ ih =>
    refine .block false ?_
    rw [Marks.push_none]
    exact .inside (ih _ (Stmt.allShaped_iff.mp hshaped s (by simp))
      (Stmt.allNamed_iff.mp hnamed s (by simp)) (Stmt.settled_inside hs))
  | @yes test yes yes' no _ ih =>
    cases no with
    | none =>
      have hyes := ih Γ hshaped.2.2 hnamed.2 fun v hv => hs v (List.mem_append_right _ hv)
      have hrenamed := Stmt.Renamed.branch test hyes
      rwa [R.expr_none] at hrenamed
    | some n =>
      have hyes := ih Γ hshaped.2.1.2 hnamed.2.1
        fun v hv => hs v (List.mem_append_right _ (List.mem_append_left _ hv))
      have hrenamed := Stmt.Renamed.branchElse test hyes (.refl R n)
      rwa [R.expr_none] at hrenamed
  | @no test yes no no' _ ih =>
    have hno := ih Γ hshaped.2.2.2 hnamed.2.2
      fun v hv => hs v (List.mem_append_right _ (List.mem_append_right _ hv))
    have hrenamed := Stmt.Renamed.branchElse test (.refl R yes) hno
    rwa [R.expr_none] at hrenamed
  | @loop test body body' _ ih =>
    have hbody := ih Γ hshaped.2.2 hnamed.2 fun v hv => hs v (List.mem_append_right _ hv)
    have hrenamed := Stmt.Renamed.loop test hbody
    rwa [R.expr_none] at hrenamed
  | @function d hold =>
    exact .function rfl (FunDecl.renamed_function (Γ := Γ.enter d.name.lexeme true) hshaped hnamed
      (fun v hv => hs v (List.mem_cons_of_mem _ hv)) hold)
  | @inFunction n ps before after s s' _ ih =>
    exact .function rfl (FunDecl.renamed_inside (ih _ (Stmt.allShaped_iff.mp hshaped.2.2 s (by simp))
      (Stmt.allNamed_iff.mp hnamed.2.2 s (by simp)) (Stmt.settled_inside fun v hv =>
        hs v (List.mem_cons_of_mem _ (List.mem_append_right _ hv)))))
  | @method n r before after d hold =>
    exact Stmt.renamed_member (FunDecl.renamed_function
      (FunDecl.allShaped_iff.mp hshaped.2.2 d (by simp))
      (FunDecl.allNamed_iff.mp hnamed.2.2 d (by simp)) (Stmt.settled_members hs (by simp)) hold)
  | @inMethod n m r before after ps first last s s' _ ih =>
    have hshaped' := FunDecl.allShaped_iff.mp hshaped.2.2 (.mk m ps (first ++ s :: last)) (by simp)
    have hnamed' := FunDecl.allNamed_iff.mp hnamed.2.2 (.mk m ps (first ++ s :: last)) (by simp)
    refine Stmt.renamed_member (FunDecl.renamed_inside (ih _
      (Stmt.allShaped_iff.mp hshaped'.2.2 s (by simp))
      (Stmt.allNamed_iff.mp hnamed'.2.2 s (by simp)) (Stmt.settled_inside fun v hv =>
        Stmt.settled_members hs (d := .mk m ps (first ++ s :: last)) (by simp) v
          (List.mem_append_right _ hv))))

/-- **A program one of whose local variables is renamed is renamed.** -/
theorem Program.Renames.renamed {R : Renaming} {p p' : Program} (h : p.Renames R p')
    (hshaped : Stmt.AllShaped p) (hnamed : Stmt.AllNamed (·.lexeme ≠ R.new) p)
    (hs : ∀ v ∈ Stmt.visitsAll p [], v.Settled) : Stmt.AllRenamed R .none p p' := by
  cases h with
  | @inside before after s s' h =>
    exact .inside (h.renamed _ (Stmt.allShaped_iff.mp hshaped s (by simp))
      (Stmt.allNamed_iff.mp hnamed s (by simp)) (Stmt.settled_inside hs))

end LoxKit
