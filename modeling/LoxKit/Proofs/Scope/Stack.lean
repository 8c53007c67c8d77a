import LoxKit.Proofs.Scope.Visit
import Mathlib.Tactic.ByContra

/-!
# The stacks that resolution builds

A stack of open scopes has a form: the levels of a class stand only around a method, and no
level but theirs declares `this` or `super` (`Stack.WellFormed`).  On such a stack the words
lead where they should.  Inside a class, `this` leads to the level of that class
(`Stack.WellFormed.this_level`), and if the class has a superclass, `super` leads to the level
just outside it (`Stack.WellFormed.super_level`).
-/
namespace LoxKit
namespace Scope

/-! ## Looking a name up -/

@[simp] theorem Stack.scopes_nil : Stack.scopes [] = [] := rfl

@[simp] theorem Stack.scopes_cons (l : Level) (Γ : Stack) :
    Stack.scopes (l :: Γ) = l.names :: Stack.scopes Γ := rfl

@[simp] theorem Stack.depth?_nil (x : String) : Stack.depth? [] x = none := rfl

theorem Stack.depth?_cons (l : Level) (Γ : Stack) (x : String) :
    Stack.depth? (l :: Γ) x =
      if l.names.contains x then some 0 else (Stack.depth? Γ x).map (· + 1) := by
  simp [Stack.depth?, Scope.depth?, List.findIdx?_cons]

/-- The level a name leads to declares it. -/
theorem Stack.level_of_depth? {Γ : Stack} {x : String} {d : Nat} (h : Γ.depth? x = some d) :
    ∃ l, Γ[d]? = some l ∧ l.names.contains x := by
  induction Γ generalizing d with
  | nil => cases h
  | cons l Γ ih =>
    rw [Stack.depth?_cons] at h
    split at h
    · rename_i hl
      cases h
      exact ⟨l, rfl, hl⟩
    · obtain ⟨d', hd', rfl⟩ := Option.map_eq_some_iff.mp h
      exact ih hd'

@[simp] theorem Level.names_this (site : ClassSite) :
    (Level.this site).names = .ofList [(thisName, true)] := rfl

@[simp] theorem Level.names_super (site : ClassSite) :
    (Level.super site).names = .ofList [(superName, true)] := rfl

theorem thisName_ne_superName : thisName ≠ superName := by decide

/-! ## The form of a stack -/

/-- None of the names of a scope is a word of the language. -/
def OnlyNames (s : Scope) : Prop := s.contains thisName = false ∧ s.contains superName = false

theorem OnlyNames.empty : OnlyNames {} := ⟨rfl, rfl⟩

theorem OnlyNames.put {s : Scope} {n : Token} {ready : Bool} (hs : OnlyNames s)
    (hn : n.IsName) : OnlyNames (s.put n.lexeme ready) := by
  constructor
  · rw [Bindings.contains_put, hs.1]
    simpa using fun h => hn.1 h.symm
  · rw [Bindings.contains_put, hs.2]
    simpa using fun h => hn.2 h.symm

/-- All names of a level are ready. -/
def Level.Ready (l : Level) : Prop := ∀ x, l.names.contains x → l.names.get? x = some true

namespace Stack

/-- **The form of the stack at a statement**: the levels of a class stand around a method. -/
inductive WellFormed : Stack → Prop where
  | global : WellFormed []
  | block {body : List Stmt} {names : Scope} {Γ : Stack} :
    OnlyNames names → WellFormed Γ → WellFormed (.block body names :: Γ)
  | function {decl : FunDecl} {names : Scope} {Γ : Stack} :
    OnlyNames names → WellFormed Γ → WellFormed (.call decl names :: Γ)
  | method {decl : FunDecl} {names : Scope} {Γ Δ : Stack} {site : ClassSite} :
    OnlyNames names → WellFormed Γ → Δ = Γ.members site → WellFormed (.call decl names :: Δ)

/-- A function may be declared on a stack. -/
def Hosts (Γ : Stack) : Prop := ∀ decl names, OnlyNames names → WellFormed (.call decl names :: Γ)

theorem WellFormed.hosts {Γ : Stack} (h : WellFormed Γ) : Γ.Hosts :=
  fun _ _ hn => .function hn h

theorem WellFormed.members_hosts {Γ : Stack} (h : WellFormed Γ) (site : ClassSite) :
    (Γ.members site).Hosts :=
  fun _ _ hn => .method hn h rfl

/-- Entering a name keeps the form. -/
theorem WellFormed.enter {Γ : Stack} {n : Token} {ready : Bool} (h : WellFormed Γ)
    (hn : n.IsName) : WellFormed (Γ.enter n.lexeme ready) := by
  cases h with
  | global => exact .global
  | block hs h => exact .block (hs.put hn) h
  | function hs h => exact .function (hs.put hn) h
  | method hs h hΔ => exact .method (hs.put hn) h hΔ

theorem WellFormed.enterAll {ps : List Token} {Γ : Stack} (h : WellFormed Γ)
    (hps : ∀ p ∈ ps, p.IsName) : WellFormed (Γ.enterAll ps) := by
  induction ps generalizing Γ with
  | nil => exact h
  | cons p ps ih =>
    exact ih (h.enter (hps p (by simp))) (fun q hq => hps q (by simp [hq]))

/-- Whether an entered name is ready does not matter to where names lead. -/
theorem depth?_enter (Γ : Stack) (x y : String) (b c : Bool) :
    (Γ.enter x b).depth? y = (Γ.enter x c).depth? y := by
  rcases Γ with - | ⟨l, Γ⟩
  · rfl
  · cases l <;> simp [enter, depth?_cons, Level.names, Bindings.contains_put]

@[simp] theorem classContext_enter (Γ : Stack) (x : String) (b : Bool) :
    (Γ.enter x b).classContext = Γ.classContext := by
  rcases Γ with - | ⟨l, Γ⟩
  · rfl
  · cases l <;> rfl

@[simp] theorem classContext_enterAll (ps : List Token) (Γ : Stack) :
    (Γ.enterAll ps).classContext = Γ.classContext := by
  induction ps generalizing Γ with
  | nil => rfl
  | cons p ps ih => exact (ih _).trans (classContext_enter ..)

/-! ## Where the words of a class lead -/

theorem depth?_cons_of_not {l : Level} {Γ : Stack} {x : String} {d : Nat}
    (hl : l.names.contains x = false) (h : Γ.depth? x = some d) :
    Stack.depth? (l :: Γ) x = some (d + 1) := by
  simp [depth?_cons, hl, h]

theorem depth?_this_members (site : ClassSite) (Γ : Stack) :
    (Γ.members site).depth? thisName = some 0 := by
  unfold members
  split <;> simp [depth?_cons]

theorem depth?_super_members {site : ClassSite} (Γ : Stack) (h : site.superclass.isSome) :
    (Γ.members site).depth? superName = some 1 := by
  simp [members, h, depth?_cons, thisName_ne_superName.symm]

/-- **Inside a class, `this` leads to the level of the innermost one.** -/
theorem WellFormed.this_level {Γ : Stack} (h : WellFormed Γ) (hc : Γ.classContext ≠ .none) :
    ∃ d site, Γ.depth? thisName = some d ∧ Γ[d]? = some (.this site) := by
  induction h with
  | global => exact absurd rfl hc
  | block hs _ ih | function hs _ ih =>
    obtain ⟨d, site, hd, hl⟩ := ih hc
    exact ⟨d + 1, site, depth?_cons_of_not hs.1 hd, hl⟩
  | @method _ _ Γ _ site hs _ hΔ _ =>
    subst hΔ
    refine ⟨1, site, depth?_cons_of_not hs.1 (depth?_this_members site Γ), ?_⟩
    unfold members
    split <;> rfl

/-- **Inside a class with a superclass, `super` leads to the level just outside that of
`this`.** -/
theorem WellFormed.super_level {Γ : Stack} (h : WellFormed Γ) (hc : Γ.classContext = .derived) :
    ∃ d site, Γ.depth? superName = some (d + 1) ∧ Γ.depth? thisName = some d ∧
      Γ[d]? = some (.this site) ∧ Γ[d + 1]? = some (.super site) := by
  induction h with
  | global => cases hc
  | block hs _ ih | function hs _ ih =>
    obtain ⟨d, site, hd, hd', hl⟩ := ih hc
    exact ⟨d + 1, site, depth?_cons_of_not hs.2 hd, depth?_cons_of_not hs.1 hd', hl⟩
  | @method _ _ Γ _ site hs _ hΔ _ =>
    subst hΔ
    have hsite : site.superclass.isSome := by
      by_contra hn
      simp [classContext, members, hn] at hc
    refine ⟨1, site, depth?_cons_of_not hs.2 (depth?_super_members Γ hsite),
      depth?_cons_of_not hs.1 (depth?_this_members site Γ), ?_⟩
    simp [members, hsite]

/-! ## Names that are ready -/

/-- All names of a stack are ready. -/
def Ready (Γ : Stack) : Prop := ∀ l ∈ Γ, l.Ready

/-- All names are ready but perhaps one of the innermost level. -/
def TailReady (Γ : Stack) : Prop := ∀ l ∈ Γ.tail, l.Ready

theorem Ready.tail {Γ : Stack} (h : Γ.Ready) : Γ.TailReady :=
  fun l hl => h l (List.mem_of_mem_tail hl)

theorem Ready.cons {Γ : Stack} {l : Level} (hl : l.Ready) (h : Γ.Ready) : Ready (l :: Γ) := by
  intro l' hl'
  rcases List.mem_cons.mp hl' with rfl | hl'
  · exact hl
  · exact h l' hl'

theorem ready_block (body : List Stmt) : (Level.block body {}).Ready := fun _ hx => by cases hx

theorem ready_call (decl : FunDecl) : (Level.call decl {}).Ready := fun _ hx => by cases hx

theorem Ready.members {Γ : Stack} (h : Γ.Ready) (site : ClassSite) : (Γ.members site).Ready := by
  have hthis : (Level.this site).Ready := fun x hx => by simpa using hx
  have hsuper : (Level.super site).Ready := fun x hx => by simpa using hx
  unfold Stack.members
  split
  · exact Ready.cons hthis (Ready.cons hsuper h)
  · exact Ready.cons hthis h

theorem ready_put {s : Scope} {x : String} (h : ∀ y, s.contains y → s.get? y = some true) :
    ∀ y, (s.put x true).contains y → (s.put x true).get? y = some true := by
  intro y hy
  rw [Bindings.get?_put]
  by_cases hyx : y = x
  · simp [hyx]
  · rw [Bindings.contains_put] at hy
    simp [hyx, h y (by simpa [hyx] using hy)]

/-- A name that is ready from the start leaves a stack ready. -/
theorem Ready.enter {Γ : Stack} (h : Γ.Ready) (x : String) : (Γ.enter x true).Ready := by
  rcases Γ with - | ⟨l, Γ⟩
  · exact h
  · have hl : l.Ready := h l List.mem_cons_self
    have hΓ : Ready Γ := fun l' hl' => h l' (List.mem_cons_of_mem _ hl')
    cases l with
    | block body names => exact Ready.cons (ready_put hl) hΓ
    | call decl names => exact Ready.cons (ready_put hl) hΓ
    | this site => exact h
    | super site => exact h

theorem Ready.enterAll {Γ : Stack} (h : Γ.Ready) (ps : List Token) : (Γ.enterAll ps).Ready := by
  induction ps generalizing Γ with
  | nil => exact h
  | cons p ps ih => exact ih (h.enter p.lexeme)

/-- Whatever is entered is entered into the innermost level. -/
theorem Ready.tailReady_enter {Γ : Stack} (h : Γ.Ready) (x : String) (b : Bool) :
    (Γ.enter x b).TailReady := by
  rcases Γ with - | ⟨l, Γ⟩
  · exact h.tail
  · cases l <;> exact h.tail

/-! ## The stack behind a statement -/

@[simp] theorem tail_enter (Γ : Stack) (x : String) (b : Bool) : (Γ.enter x b).tail = Γ.tail := by
  rcases Γ with - | ⟨l, Γ⟩
  · rfl
  · cases l <;> rfl

@[simp] theorem tail_enterAll (Γ : Stack) (ps : List Token) :
    (Γ.enterAll ps).tail = Γ.tail := by
  induction ps generalizing Γ with
  | nil => rfl
  | cons p ps ih => exact (ih _).trans (tail_enter ..)

/-! ## The innermost scope of a body -/

/-- A stack on which statements stand: the innermost scope is that of a block or of a body. -/
def OfBody : Stack → Prop
  | [] | .block .. :: _ | .call .. :: _ => True
  | _ => False

theorem OfBody.enter {Γ : Stack} (h : Γ.OfBody) (x : String) (b : Bool) :
    (Γ.enter x b).OfBody := by
  rcases Γ with - | ⟨l, Γ⟩
  · exact h
  · cases l <;> exact h

/-- The innermost scope of a body gets the names that are entered. -/
theorem OfBody.enter_cons {l : Level} {Γ : Stack} (h : OfBody (l :: Γ)) (x : String) (b : Bool) :
    ∃ l', Stack.enter x b (l :: Γ) = l' :: Γ ∧
      ∀ y, l'.names.get? y = if y = x then some b else l.names.get? y := by
  cases l with
  | block body names => exact ⟨.block body (names.put x b), rfl, fun y => names.get?_put x y b⟩
  | call decl names => exact ⟨.call decl (names.put x b), rfl, fun y => names.get?_put x y b⟩
  | this site => exact h.elim
  | super site => exact h.elim

end Stack
end Scope

open Scope

/-- The stack behind some statements. -/
def Stmt.declareAll (ss : List Stmt) (Γ : Stack) : Stack := ss.foldl Stmt.declare Γ

@[simp] theorem Stmt.declareAll_nil (Γ : Stack) : Stmt.declareAll [] Γ = Γ := rfl

@[simp] theorem Stmt.declareAll_cons (s : Stmt) (ss : List Stmt) (Γ : Stack) :
    Stmt.declareAll (s :: ss) Γ = Stmt.declareAll ss (s.declare Γ) := rfl

@[simp] theorem Stmt.tail_declare (s : Stmt) (Γ : Stack) : (s.declare Γ).tail = Γ.tail := by
  cases s <;> simp [Stmt.declare]

@[simp] theorem Stmt.tail_declareAll (ss : List Stmt) (Γ : Stack) :
    (Stmt.declareAll ss Γ).tail = Γ.tail := by
  induction ss generalizing Γ with
  | nil => rfl
  | cons s ss ih => rw [Stmt.declareAll_cons, ih, Stmt.tail_declare]

@[simp] theorem Stmt.classContext_declare (s : Stmt) (Γ : Stack) :
    (s.declare Γ).classContext = Γ.classContext := by
  cases s <;> simp [Stmt.declare]

theorem Stmt.declare_of_isDeclaration_eq_false {s : Stmt} (h : s.isDeclaration = false)
    (Γ : Stack) : s.declare Γ = Γ := by
  cases s with
  | var n e => cases h
  | function d => cases h
  | classDecl n s ms => cases h
  | _ => rfl

theorem Stmt.declare_bare (s : Stmt) (Γ : Stack) : s.bare.declare Γ = s.declare Γ := by
  cases s with
  | branch t y n => cases n <;> rfl
  | function d => simp [Stmt.bare, Stmt.declare]
  | _ => rfl

/-- What a statement declares does not depend on its distances. -/
theorem Stmt.declare_eq_of_bare_eq {s s' : Stmt} (h : s'.bare = s.bare) (Γ : Stack) :
    s'.declare Γ = s.declare Γ := by
  rw [← s'.declare_bare, h, s.declare_bare]

theorem FunDecl.Shaped.name {d : FunDecl} (h : d.Shaped) : d.name.IsName := by
  cases d
  exact h.1

theorem FunDecl.Shaped.body {d : FunDecl} (h : d.Shaped) : Stmt.AllShaped d.body := by
  cases d
  exact h.2.2

theorem Stmt.Shaped.declare_wellFormed {s : Stmt} (h : s.Shaped) {Γ : Stack}
    (hΓ : Γ.WellFormed) : (s.declare Γ).WellFormed := by
  cases s with
  | var n e => exact hΓ.enter h.1
  | function d => exact hΓ.enter (FunDecl.Shaped.name h)
  | classDecl n s ms => exact hΓ.enter h.1
  | _ => exact hΓ

theorem Stmt.declare_ready (s : Stmt) {Γ : Stack} (h : Γ.Ready) : (s.declare Γ).Ready := by
  cases s with
  | var n e => exact h.enter _
  | function d => exact h.enter _
  | classDecl n s ms => exact h.enter _
  | _ => exact h

end LoxKit
