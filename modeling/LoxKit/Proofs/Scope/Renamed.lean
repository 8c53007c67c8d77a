import LoxKit.Proofs.Scope.Once
import LoxKit.Proofs.Scope.Settled

/-!
# Resolution does not look at local names

A program that resolution accepts is accepted as well with local variables renamed, and each
reference gets the distance that it had before (`Scope.resolve_renamed`): while the two
programs are resolved, the open scopes declare the same names, spelled as they are in each scope,
and a name spelled as in the scope that it leads to still leads there.  For this the new name must
not be a name of the program.

How a reference is spelled anew depends on where it leads.  So the second program is told by the
tree that resolution makes of the first, and the promise of a step is that whatever renaming does
to this tree, resolution makes the renamed tree of what is left without its distances
(`Scope.Likewise`).
-/
namespace LoxKit

namespace Bindings

variable {α : Type} {f : String → String}

/-- Bindings of other names to the same values. -/
def rekey (f : String → String) (b : Bindings α) : Bindings α :=
  ⟨b.entries.map fun e => (f e.1, e.2)⟩

@[simp] theorem rekey_id (b : Bindings α) : b.rekey (fun name => name) = b := by
  obtain ⟨l⟩ := b
  simp [rekey]

theorem get?_rekey (hf : Function.Injective f) (b : Bindings α) (x : String) :
    (b.rekey f).get? (f x) = b.get? x := by
  obtain ⟨l⟩ := b
  simp only [rekey, get?]
  induction l with
  | nil => rfl
  | cons e l ih =>
    rw [List.map_cons, List.lookup_cons, List.lookup_cons, ih]
    by_cases h : x = e.1
    · simp [h]
    · have hne : (x == e.1) = false := by simpa using h
      have hfne : (f x == f e.1) = false := by simpa using hf.ne h
      rw [hne, hfne]

theorem contains_rekey (hf : Function.Injective f) (b : Bindings α) (x : String) :
    (b.rekey f).contains (f x) = b.contains x := by
  rw [← isSome_get?, ← isSome_get?, get?_rekey hf]

theorem rekey_put (hf : Function.Injective f) (b : Bindings α) (x : String) (v : α) :
    (b.put x v).rekey f = (b.rekey f).put (f x) v := by
  unfold put
  rw [contains_rekey hf]
  split
  · simp only [replace, rekey, List.map_map]
    congr 1
    apply List.map_congr_left
    intro e _
    by_cases h : e.1 = x
    · simp [h]
    · have hfne : f e.1 ≠ f x := hf.ne h
      simp [h, hfne]
  · simp [rekey]

end Bindings

open Scope

/-! ## Names in scopes -/

namespace Renaming

variable (R : Renaming)

/-- **Open scopes with a variable renamed** in those that are marked. -/
def scopes (marks : Marks) : List Scope → List Scope
  | [] => []
  | s :: rest => s.rekey (R.spell (marks 0)) :: scopes (fun d => marks (d + 1)) rest

variable {R} {marks : Marks} {w w' w₁ w₂ : Walk}

theorem tail_scopes (marks : Marks) (ss : List Scope) :
    (R.scopes marks ss).tail = R.scopes (fun d => marks (d + 1)) ss.tail := by
  cases ss <;> rfl

/-- To spell a name in one way and then in another makes at most the new name of it. -/
theorem spell_spell_of (b mark : Bool) {name : String} (hname : name ≠ R.new) :
    R.spell b (R.spell mark name) = name ∨ R.spell b (R.spell mark name) = R.new := by
  by_cases hold : name = R.old
  · subst hold
    cases b <;> cases mark
    · exact .inl rfl
    · exact .inr R.spell_old
    · exact .inr R.spell_old
    · exact .inl (R.spell_spell true _)
  · rw [R.spell_of_ne mark hold hname, R.spell_of_ne b hold hname]
    exact .inl rfl

/-- Names that differ differ as well with one of them spelled anew, if neither is the new name. -/
theorem spell_ne (R : Renaming) (mark : Bool) {name other : String} (h : name ≠ other)
    (hname : name ≠ R.new) (hother : other ≠ R.new) : R.spell mark name ≠ other := by
  rcases spell_spell_of (R := R) mark false hname with hspell | hspell
  · rwa [← hspell] at h
  · exact fun heq => hother (heq.symm.trans hspell)

/-- A scope that declares neither a name nor the new one does not declare the name, however the
two are spelled. -/
theorem contains_rekey_of_not {s : Scope} {name : String} (b mark : Bool)
    (hs : s.contains name = false) (hfresh : s.contains R.new = false) (hname : name ≠ R.new) :
    (s.rekey (R.spell b)).contains (R.spell mark name) = false := by
  rw [← R.spell_spell b (R.spell mark name), Bindings.contains_rekey (R.spell_injective b)]
  rcases spell_spell_of (R := R) b mark hname with h | h
  · rwa [h]
  · rwa [h]

/-- **A name leads where it did**, if it is spelled as in the scope it leads to. -/
theorem depth?_scopes {ss : List Scope} {name : String} (hname : name ≠ R.new)
    (hfresh : ∀ s ∈ ss, s.contains R.new = false) :
    depth? (R.scopes marks ss) (R.spell ((depth? ss name).elim false marks) name) =
      depth? ss name := by
  induction ss generalizing marks with
  | nil => rfl
  | cons s ss ih =>
    have hhead := hfresh s List.mem_cons_self
    have ih' := @ih (fun d => marks (d + 1)) fun s' hs' => hfresh s' (List.mem_cons_of_mem _ hs')
    unfold depth? at ih' ⊢
    rw [scopes, List.findIdx?_cons, List.findIdx?_cons]
    cases hs : s.contains name with
    | true => simp [Bindings.contains_rekey (R.spell_injective _), hs]
    | false =>
      cases hd : ss.findIdx? (·.contains name) with
      | none =>
        rw [hd] at ih'
        have hnot := contains_rekey_of_not (marks 0) false hs hhead hname
        simp only [spell_false, Option.elim_none] at hnot ih'
        simp [hnot, ih']
      | some d =>
        rw [hd] at ih'
        -- the spelling is that of a scope further out, and it must not stop at this one
        have hnot := contains_rekey_of_not (marks 0) (marks (d + 1)) hs hhead hname
        simp only [Option.elim_some] at ih'
        simp [hnot, ih']

end Renaming

namespace Scope

/-! ## Resolution of two programs -/

/-- An annotation of a name that may be spelled anew. -/
def SameUse (R : Renaming) (a a' : Annotation) : Prop :=
  ∃ mark, a' = { a with name := R.token mark a.name }

/-- **Two states of resolution** that differ in how names are spelled. -/
structure Walk.Respelled (R : Renaming) (marks : Marks) (w w' : Walk) : Prop where
  scopes : w'.scopes = R.scopes marks w.scopes
  fresh : ∀ s ∈ w.scopes, s.contains R.new = false
  function : w'.function = w.function
  classContext : w'.classContext = w.classContext
  line : w'.line = w.line
  annotations : List.Forall₂ (SameUse R) w.annotations w'.annotations
  diagnostics : w'.diagnostics = w.diagnostics

/-- **A step does likewise** what led from one state to another, where the states differ in how
names are spelled. -/
def Likewise {α : Type} (R : Renaming) (marks : Marks) (w w₁ : Walk) (y : Resolving α) (b : α) :
    Prop :=
  ∀ w', w.Respelled R marks w' → ∃ w₁', y w' = .ok b w₁' ∧ w₁.Respelled R marks w₁'

theorem bind_of_ok {α β : Type} {x : Resolving α} {w w₁ : Walk} {a : α} (h : x w = .ok a w₁)
    (k : α → Resolving β) : (x >>= k) w = k a w₁ := by
  simp only [Bind.bind, EStateM.bind, h]

namespace Likewise

variable {R : Renaming} {marks : Marks} {w w₁ w₂ : Walk} {α β : Type}

theorem bind {y : Resolving α} {k : α → Resolving β} {a : α} {b : β}
    (hy : Likewise R marks w w₁ y a) (hk : Likewise R marks w₁ w₂ (k a) b) :
    Likewise R marks w w₂ (y >>= k) b := by
  intro w' hw
  obtain ⟨w₁', hrun, hw₁⟩ := hy w' hw
  obtain ⟨w₂, hrun', hw₂⟩ := hk w₁' hw₁
  exact ⟨w₂, (bind_of_ok hrun k).trans hrun', hw₂⟩

theorem pure_of {a b : α} (h : a = b) : Likewise R marks w w (Pure.pure a) b :=
  fun w' hw => ⟨w', congrArg (EStateM.Result.ok · w') h, hw⟩

theorem pure (b : α) : Likewise R marks w w (Pure.pure b) b := .pure_of rfl

/-- Looking at the state. -/
theorem get {k : Walk → Resolving α} {b : α}
    (h : ∀ w', w.Respelled R marks w' → Likewise R marks w w₁ (k w') b) :
    Likewise R marks w w₁ (MonadState.get >>= k) b :=
  fun w' hw => h w' hw w' hw

/-- Changing the state. -/
theorem modify {g : Walk → Walk} (h : ∀ w', w.Respelled R marks w' → w₁.Respelled R marks (g w')) :
    Likewise R marks w w₁ (modifyThe Walk g) () :=
  fun w' hw => ⟨g w', rfl, h w' hw⟩

theorem need {spare room : Nat} (h : spare ≤ room) :
    Likewise R marks w w (Scope.need spare room) () := by
  intro w' hw
  refine ⟨w', ?_, hw⟩
  rw [Scope.need, if_neg (Nat.not_lt.mpr h)]
  rfl

theorem blameIf {c : Bool} (h : c = false) (room : Nat) (t : Token) (f : Fault) :
    Likewise R marks w w (Scope.blameIf c room t f) () := by
  rw [h]
  exact .pure ()

end Likewise

theorem Clean.needing {w : Walk} (spare room : Nat) :
    Clean w (Scope.need spare room) fun _ w' => w' = w ∧ spare ≤ room := by
  unfold Scope.need
  split
  · exact Clean.throw ..
  · rename_i h
    exact (Clean.pure ()).mono fun _ _ h' => ⟨h'.2, Nat.le_of_not_lt h⟩

/-- Open scopes with a name entered into the innermost one. -/
def entered (name : String) (ready : Bool) : List Scope → List Scope
  | [] => []
  | s :: outer => s.put name ready :: outer

theorem Walk.declare_eq (w : Walk) (name : Token) :
    w.declare name = { w with scopes := entered name.lexeme false w.scopes } := by
  rcases w with ⟨_ | ⟨s, outer⟩, _, _, _, _, _⟩ <;> rfl

theorem Walk.define_eq (w : Walk) (name : Token) :
    w.define name = { w with scopes := entered name.lexeme true w.scopes } := by
  rcases w with ⟨_ | ⟨s, outer⟩, _, _, _, _, _⟩ <;> rfl

variable {R : Renaming} {marks : Marks} {w w' : Walk}

/-! ## Single steps -/

namespace Walk.Respelled

theorem lookAt (h : w.Respelled R marks w') (mark : Bool) (name : Token) :
    (w.lookAt name).Respelled R marks (w'.lookAt (R.token mark name)) :=
  { h with line := rfl }

/-- A name is declared in the innermost scope if it was, spelled as in this scope. -/
theorem declares (h : w.Respelled R marks w') (name : Token) :
    w'.declares (R.token (marks 0) name) = w.declares name := by
  unfold Walk.declares
  rw [h.scopes]
  cases w.scopes with
  | nil => rfl
  | cons s ss => exact Bindings.contains_rekey (R.spell_injective _) s name.lexeme

/-- A name may be entered into the innermost scope, spelled as in this scope. -/
theorem enter (h : w.Respelled R marks w') {name : String} (hname : name ≠ R.new)
    (ready : Bool) :
    Walk.Respelled R marks { w with scopes := entered name ready w.scopes }
      { w' with scopes := entered (R.spell (marks 0) name) ready w'.scopes } where
  scopes := by
    rw [h.scopes]
    cases w.scopes with
    | nil => rfl
    | cons s ss =>
      simp only [entered, Renaming.scopes, Bindings.rekey_put (R.spell_injective _)]
  fresh := by
    have hfresh := h.fresh
    cases hs : w.scopes with
    | nil => exact nofun
    | cons s ss =>
      rw [hs] at hfresh
      intro s' hs'
      rcases List.mem_cons.mp hs' with rfl | hs'
      · rw [Bindings.contains_put, hfresh s List.mem_cons_self]
        simpa using hname.symm
      · exact hfresh s' (List.mem_cons_of_mem _ hs')
  function := h.function
  classContext := h.classContext
  line := h.line
  annotations := h.annotations
  diagnostics := h.diagnostics

theorem declare (h : w.Respelled R marks w') {name : Token} (hname : name.lexeme ≠ R.new) :
    (w.declare name).Respelled R marks (w'.declare (R.token (marks 0) name)) := by
  rw [Walk.declare_eq, Walk.declare_eq]
  exact h.enter hname false

theorem define (h : w.Respelled R marks w') {name : Token} (hname : name.lexeme ≠ R.new) :
    (w.define name).Respelled R marks (w'.define (R.token (marks 0) name)) := by
  rw [Walk.define_eq, Walk.define_eq]
  exact h.enter hname true

/-- A name leads where it did. -/
theorem depth? (h : w.Respelled R marks w') {name : Token} (hname : name.lexeme ≠ R.new) :
    Scope.depth? w'.scopes
      (R.token ((Scope.depth? w.scopes name.lexeme).elim false marks) name).lexeme =
      Scope.depth? w.scopes name.lexeme := by
  rw [h.scopes]
  exact Renaming.depth?_scopes hname h.fresh

/-- What is noted of a name is the distance that was noted before. -/
theorem use (h : w.Respelled R marks w') (kind : UseKind) {name : Token}
    (hname : name.lexeme ≠ R.new) :
    (w.use kind name).Respelled R marks
      (w'.use kind (R.token ((Scope.depth? w.scopes name.lexeme).elim false marks) name)) := by
  unfold Walk.use
  rw [h.depth? hname]
  cases Scope.depth? w.scopes name.lexeme with
  | none => exact h
  | some d =>
    exact { h with annotations := List.rel_append h.annotations (.cons ⟨_, rfl⟩ .nil) }

/-- A name that leads to the innermost scope is ready there if it was, and any other name is not
pending. -/
theorem pending (h : w.Respelled R marks w') {name : Token} (hname : name.lexeme ≠ R.new) :
    w'.pending (R.token ((Scope.depth? w.scopes name.lexeme).elim false marks) name) =
      w.pending name := by
  have hfresh := h.fresh
  unfold Walk.pending
  rw [h.scopes]
  cases hs : w.scopes with
  | nil => rfl
  | cons s ss =>
    rw [hs] at hfresh
    simp only [Renaming.scopes, Renaming.token_lexeme]
    cases hc : s.contains name.lexeme with
    | true =>
      have hdepth : Scope.depth? (s :: ss) name.lexeme = some 0 := by
        simp [Scope.depth?, List.findIdx?_cons, hc]
      rw [hdepth, Option.elim_some, Bindings.get?_rekey (R.spell_injective _)]
    | false =>
      rw [Bindings.get?_eq_none hc, Bindings.get?_eq_none
        (Renaming.contains_rekey_of_not _ _ hc (hfresh s List.mem_cons_self) hname)]

/-- A scope may be opened. -/
theorem push (h : w.Respelled R marks w') (mark : Bool) {names : List String}
    (hnames : names = [] ∨ mark = false ∧ R.new ∉ names) :
    (w.push names).Respelled R (marks.push mark) (w'.push names) where
  scopes := by
    rw [Walk.push, Walk.push, h.scopes]
    rcases hnames with rfl | ⟨rfl, -⟩
    · rfl
    · show _ :: _ = Bindings.rekey (R.spell false) _ :: _
      rw [show R.spell false = fun name => name from rfl, Bindings.rekey_id]
      rfl
  fresh := by
    intro s hs
    rcases List.mem_cons.mp hs with rfl | hs
    · rw [Bindings.contains_ofList]
      rcases hnames with rfl | ⟨-, hnew⟩
      · rfl
      · rw [List.any_eq_false]
        rintro e he
        obtain ⟨name, hmem, rfl⟩ := List.mem_map.mp he
        rw [beq_iff_eq]
        rintro rfl
        exact hnew hmem
    · exact h.fresh s hs
  function := h.function
  classContext := h.classContext
  line := h.line
  annotations := h.annotations
  diagnostics := h.diagnostics

/-- The innermost scope may be closed. -/
theorem pop {mark : Bool} (h : w.Respelled R (marks.push mark) w') :
    w.pop.Respelled R marks w'.pop where
  scopes := by
    rw [Walk.pop, h.scopes, Renaming.tail_scopes]
    rfl
  fresh s hs := h.fresh s (List.mem_of_mem_tail hs)
  function := h.function
  classContext := h.classContext
  line := h.line
  annotations := h.annotations
  diagnostics := h.diagnostics

end Walk.Respelled

/-- **The names of a tree are not the new one.** -/
abbrev Old (R : Renaming) (t : Token) : Prop := t.lexeme ≠ R.new

theorem likewise_declare {room : Nat} {name : Token} (hname : Old R name) :
    Clean w (declare room name) fun _ w₁ => ∀ marks : Marks,
      Likewise R marks w w₁ (declare room (R.token (marks 0) name)) () := by
  refine ((Clean.needing 1 room).bind fun _ _ => (Clean.modify rfl).bind fun _ _ =>
    Clean.get.bind fun _ _ => (Clean.blameIf ..).bind fun _ _ =>
      Clean.modify (Walk.diagnostics_declare ..)).mono ?_
  rintro _ _ ⟨_, _, ⟨rfl, hroom⟩, _, _, rfl, _, _, ⟨rfl, rfl⟩, _, _, ⟨hdeclares, rfl⟩, rfl⟩ marks
  refine .bind (.need hroom) (.bind (.modify fun w' hw => hw.lookAt _ name) (.get fun w' hw =>
    .bind (.blameIf ?_ _ _ _) (.modify fun w' hw => hw.declare hname)))
  rw [hw.declares, hdeclares]

theorem likewise_introduce {room : Nat} {name : Token} (hname : Old R name) :
    Clean w (introduce room name) fun _ w₁ => ∀ marks : Marks,
      Likewise R marks w w₁ (introduce room (R.token (marks 0) name)) () := by
  refine ((likewise_declare hname).bind fun _ _ =>
    Clean.modify (Walk.diagnostics_define ..)).mono ?_
  rintro _ _ ⟨_, _, h, rfl⟩ marks
  exact .bind (h marks) (.modify fun w' hw => hw.define hname)

/-- **A use of a name** leads where it did. -/
theorem likewise_resolved {room : Nat} {kind : UseKind} {r : Reference} (hr : Old R r.name) :
    Clean w (resolved room kind r) fun r₁ w₁ =>
      r₁ = { r with hops := depth? w.scopes r.name.lexeme } ∧ ∀ marks,
        Likewise R marks w w₁ (resolved room kind (R.reference marks r₁).bare)
          (R.reference marks r₁) := by
  refine ((Clean.needing 1 room).bind fun _ _ => (Clean.modify rfl).bind fun _ _ =>
    (Clean.needing 2 room).bind fun _ _ => Clean.get.bind fun _ _ =>
      (Clean.modify (Walk.diagnostics_use ..)).bind fun _ _ => Clean.pure _).mono ?_
  rintro _ _ ⟨_, _, ⟨rfl, hroom⟩, _, _, rfl, _, _, ⟨rfl, hroom'⟩, _, _, ⟨rfl, rfl⟩, _, _, rfl, rfl,
    rfl⟩
  exact ⟨rfl, fun marks => .bind (.need hroom) (.bind (.modify fun w' hw => hw.lookAt _ r.name)
    (.bind (.need hroom') (.get fun w' hw => .bind (.modify fun w' hw => hw.use kind hr)
      (.pure_of (congrArg (Reference.mk _) (hw.depth? hr))))))⟩

theorem likewise_readReference {room : Nat} {r : Reference} (hr : Old R r.name) :
    Clean w (readReference room r) fun r₁ w₁ =>
      r₁ = { r with hops := depth? w.scopes r.name.lexeme } ∧ ∀ marks,
        Likewise R marks w w₁ (readReference room (R.reference marks r₁).bare)
          (R.reference marks r₁) := by
  refine (Clean.get.bind fun _ _ => (Clean.blameIf ..).bind fun _ _ =>
    likewise_resolved hr).mono ?_
  rintro _ _ ⟨_, _, ⟨rfl, rfl⟩, _, _, ⟨hpending, rfl⟩, rfl, h⟩
  refine ⟨rfl, fun marks => .get fun w' hw => .bind (.blameIf ?_ _ _ _) (h marks)⟩
  exact (hw.pending hr).trans hpending

/-- What is resolved in a new scope is resolved likewise in a scope that is marked or not. -/
theorem likewise_inScope (R : Renaming) {room : Nat} {names : List String} {α : Type}
    {x : Resolving α} {Q : Walk → α → Walk → Prop} (hx : ∀ w, Clean w x (Q w)) :
    Clean w (inScope room names x) fun a w₁ => ∃ w₂, Q (w.push names) a w₂ ∧
      ∀ (marks : Marks) (mark : Bool) (β : Type) (y : Resolving β) (b : β),
        (names = [] ∨ mark = false ∧ R.new ∉ names) →
        Likewise R (marks.push mark) (w.push names) w₂ y b →
        Likewise R marks w w₁ (inScope room names y) b := by
  refine ((Clean.needing scopeRoom room).bind fun _ _ => (Clean.modify rfl).bind fun _ w₁ =>
    (hx w₁).bind fun _ _ => (Clean.modify rfl).bind fun _ _ => Clean.pure _).mono ?_
  rintro _ _ ⟨_, _, ⟨rfl, hroom⟩, _, _, rfl, _, w₂, hQ, _, _, rfl, rfl, rfl⟩
  refine ⟨w₂, hQ, fun marks mark β y b hnames hy => .bind (.need hroom) ?_⟩
  intro w' hw
  obtain ⟨w₂, hrun, hw₂⟩ := hy _ (hw.push mark hnames)
  have hopen : modify (m := Resolving) (Walk.push · names) w' = .ok () (w'.push names) := rfl
  exact ⟨w₂.pop, (bind_of_ok hopen _).trans (bind_of_ok hrun _), hw₂.pop⟩

/-! ## Expressions -/

variable (R) in
/-- **What resolution makes of an expression** it makes likewise of one with variables renamed. -/
def ExprLikewise (room : Nat) (w : Walk) (e₁ : Expr) (w₁ : Walk) : Prop :=
  ∀ marks, Likewise R marks w w₁ (expr room (R.expr marks e₁).bare) (R.expr marks e₁)

variable (R) in
/-- What resolution makes of expressions it makes likewise of others. -/
def ExprsLikewise (room : Nat) (w : Walk) (es₁ : List Expr) (w₁ : Walk) : Prop :=
  ∀ marks, Likewise R marks w w₁ ((Expr.bareAll (R.exprs marks es₁)).mapM (expr room))
    (R.exprs marks es₁)

theorem likewise_mapM_expr {room : Nat}
    (ih : ∀ e w, e.Named (Old R) → Clean w (expr room e) (ExprLikewise R room w)) (es : List Expr)
    (hes : Expr.AllNamed (Old R) es) :
    ∀ w, Clean w (es.mapM (expr room)) (ExprsLikewise R room w) := by
  induction es with
  | nil =>
    intro w
    rw [List.mapM_nil]
    refine (Clean.pure _).mono ?_
    rintro _ _ ⟨rfl, rfl⟩ marks
    rw [Renaming.exprs, Expr.bareAll, List.mapM_nil]
    exact .pure []
  | cons e es ihes =>
    intro w
    rw [List.mapM_cons]
    refine ((ih e w hes.1).bind fun _ w₁ => (ihes hes.2 w₁).bind fun _ _ => Clean.pure _).mono ?_
    rintro _ _ ⟨e₁, w₁, he, es₁, w₂, hes, rfl, rfl⟩ marks
    rw [Renaming.exprs, Expr.bareAll, List.mapM_cons]
    exact .bind (he marks) (.bind (hes marks) (.pure _))

/-- **Expressions are resolved likewise** with variables renamed. -/
theorem likewise_expr (room : Nat) :
    ∀ e w, e.Named (Old R) → Clean w (expr room e) (ExprLikewise R room w) := by
  induction room with
  | zero => exact fun _ _ _ => Clean.throw ..
  | succ room ih =>
    intro e w he
    cases e with
    | literal v =>
      refine (Clean.pure _).mono ?_
      rintro _ _ ⟨rfl, rfl⟩ marks
      exact .pure _
    | name r =>
      refine ((likewise_readReference he).bind fun _ _ => Clean.pure _).mono ?_
      rintro _ _ ⟨r₁, _, ⟨-, hr⟩, rfl, rfl⟩ marks
      exact .bind (hr marks) (.pure _)
    | assign r v =>
      refine ((ih v w he.2).bind fun _ _ => (likewise_resolved he.1).bind fun _ _ =>
        Clean.pure _).mono ?_
      rintro _ _ ⟨v₁, _, hv, r₁, _, ⟨-, hr⟩, rfl, rfl⟩ marks
      exact .bind (hv marks) (.bind (hr marks) (.pure _))
    | unary op e =>
      refine ((ih e w he).bind fun _ _ => Clean.pure _).mono ?_
      rintro _ _ ⟨e₁, _, he, rfl, rfl⟩ marks
      exact .bind (he marks) (.pure _)
    | binary l op r | logical l op r =>
      refine ((ih l w he.1).bind fun _ w₁ => (ih r w₁ he.2).bind fun _ _ => Clean.pure _).mono ?_
      rintro _ _ ⟨l₁, _, hl, r₁, _, hr, rfl, rfl⟩ marks
      exact .bind (hl marks) (.bind (hr marks) (.pure _))
    | conditional t y n =>
      refine ((ih t w he.1).bind fun _ w₁ => (ih y w₁ he.2.1).bind fun _ w₂ =>
        (ih n w₂ he.2.2).bind fun _ _ => Clean.pure _).mono ?_
      rintro _ _ ⟨t₁, _, ht, y₁, _, hy, n₁, _, hn, rfl, rfl⟩ marks
      exact .bind (ht marks) (.bind (hy marks) (.bind (hn marks) (.pure _)))
    | call f paren args =>
      refine ((ih f w he.1).bind fun _ w₁ => (likewise_mapM_expr ih args he.2 w₁).bind fun _ _ =>
        Clean.pure _).mono ?_
      rintro _ _ ⟨f₁, _, hf, args₁, _, hargs, rfl, rfl⟩ marks
      exact .bind (hf marks) (.bind (hargs marks) (.pure _))
    | get o p =>
      refine ((ih o w he).bind fun _ _ => Clean.pure _).mono ?_
      rintro _ _ ⟨o₁, _, ho, rfl, rfl⟩ marks
      exact .bind (ho marks) (.pure _)
    | set o p v =>
      refine ((ih v w he.2).bind fun _ w₁ => (ih o w₁ he.1).bind fun _ _ => Clean.pure _).mono ?_
      rintro _ _ ⟨v₁, _, hv, o₁, _, ho, rfl, rfl⟩ marks
      exact .bind (hv marks) (.bind (ho marks) (.pure _))
    | group e =>
      refine ((ih e w he).bind fun _ _ => Clean.pure _).mono ?_
      rintro _ _ ⟨e₁, _, he, rfl, rfl⟩ marks
      exact .bind (he marks) (.pure _)
    | self r =>
      refine ((Clean.needing 1 room).bind fun _ _ => Clean.get.bind fun a w₂ =>
        (?_ : Clean w₂ _ fun e₁ w₁ => a.classContext ≠ .none ∧ ∃ r₁, e₁ = .self r₁ ∧ ∀ marks,
          Likewise R marks w₂ w₁ (resolved room .this (R.reference marks r₁).bare)
            (R.reference marks r₁))).mono ?_
      · by_cases hc : a.classContext = .none
        · -- outside a class there is a diagnostic, so this run is not clean
          rw [if_pos hc]
          refine ((Clean.blame room r.name .thisOutsideClass).bind fun _ _ =>
            Clean.pure _).mono ?_
          rintro _ _ ⟨_, _, h, _⟩
          exact h.elim
        · rw [if_neg hc]
          refine ((likewise_resolved he).bind fun _ _ => Clean.pure _).mono ?_
          rintro _ _ ⟨r₁, _, ⟨-, hr⟩, rfl, rfl⟩
          exact ⟨hc, r₁, rfl, hr⟩
      · rintro _ _ ⟨_, _, ⟨rfl, hroom⟩, _, _, ⟨rfl, rfl⟩, hc, r₁, rfl, hr⟩ marks
        refine .bind (.need hroom) (.get fun w' hw => ?_)
        rw [if_neg (by rwa [hw.classContext])]
        exact .bind (hr marks) (.pure _)
    | super r m =>
      refine ((Clean.needing 1 room).bind fun _ _ => Clean.get.bind fun a w₂ =>
        (?_ : Clean w₂ _ fun e₁ w₁ => a.classContext = .derived ∧ ∃ r₁, e₁ = .super r₁ m ∧
          ∀ marks, Likewise R marks w₂ w₁ (resolved room .super (R.reference marks r₁).bare)
            (R.reference marks r₁))).mono ?_
      · cases hc : a.classContext with
        | none | plain =>
          refine ((Clean.blame room r.name _).bind fun _ _ =>
            (likewise_resolved he).bind fun _ _ => Clean.pure _).mono ?_
          rintro _ _ ⟨_, _, h, _⟩
          exact h.elim
        | derived =>
          refine ((likewise_resolved he).bind fun _ _ => Clean.pure _).mono ?_
          rintro _ _ ⟨r₁, _, ⟨-, hr⟩, rfl, rfl⟩
          exact ⟨rfl, r₁, rfl, hr⟩
      · rintro _ _ ⟨_, _, ⟨rfl, hroom⟩, _, _, ⟨rfl, rfl⟩, hc, r₁, rfl, hr⟩ marks
        refine .bind (.need hroom) (.get fun w' hw => ?_)
        rw [hw.classContext, hc]
        exact .bind (hr marks) (.pure _)

theorem likewise_optionalExpr {room : Nat} {e : Option Expr} (he : ∀ e' ∈ e, e'.Named (Old R)) :
    Clean w (optionalExpr room e) fun e₁ w₁ => e₁.isSome = e.isSome ∧ ∀ marks,
      Likewise R marks w w₁ (optionalExpr room ((e₁.map (R.expr marks)).map Expr.bare))
        (e₁.map (R.expr marks)) := by
  cases e with
  | none =>
    refine (Clean.pure none).mono ?_
    rintro _ _ ⟨rfl, rfl⟩
    exact ⟨rfl, fun marks => .pure none⟩
  | some e =>
    refine ((likewise_expr room e w (he e rfl)).bind fun _ _ => Clean.pure _).mono ?_
    rintro _ _ ⟨e₁, _, he, rfl, rfl⟩
    exact ⟨rfl, fun marks => .bind (he marks) (.pure _)⟩

/-! ## Statements -/

variable (R) in
/-- **What resolution makes of a statement** it makes likewise of one that is renamed. -/
def StmtLikewise (room : Nat) (w : Walk) (s₁ : Stmt) (w₁ : Walk) : Prop :=
  ∀ marks s', s₁.Renamed R marks s' → Likewise R marks w w₁ (stmt room s'.bare) s'

variable (R) in
/-- What a step makes of statements it makes likewise of others. -/
def StmtsLikewise (f : Stmt → Resolving Stmt) (w : Walk) (ss₁ : List Stmt) (w₁ : Walk) : Prop :=
  ∀ marks ss', Stmt.AllRenamed R marks ss₁ ss' →
    Likewise R marks w w₁ ((Stmt.bareAll ss').mapM f) ss'

variable (R) in
/-- What a step makes of a function it makes likewise of one that is renamed. -/
def FunLikewise (f : FunDecl → Resolving FunDecl) (d : FunDecl) (w : Walk) (d₁ : FunDecl)
    (w₁ : Walk) : Prop :=
  d₁.name = d.name ∧ ∀ marks d', d₁.Renamed R marks d' → Likewise R marks w w₁ (f d'.bare) d'

theorem likewise_mapM_stmt {f : Stmt → Resolving Stmt}
    (ih : ∀ s w, s.Named (Old R) → Clean w (f s) fun s₁ w₁ => ∀ marks s',
      s₁.Renamed R marks s' → Likewise R marks w w₁ (f s'.bare) s') (ss : List Stmt)
    (hss : Stmt.AllNamed (Old R) ss) :
    ∀ w, Clean w (ss.mapM f) (StmtsLikewise R f w) := by
  induction ss with
  | nil =>
    intro w
    rw [List.mapM_nil]
    refine (Clean.pure _).mono ?_
    rintro _ _ ⟨rfl, rfl⟩ marks _ ⟨-⟩
    rw [Stmt.bareAll, List.mapM_nil]
    exact .pure []
  | cons s ss ihss =>
    intro w
    rw [List.mapM_cons]
    refine ((ih s w hss.1).bind fun _ w₁ => (ihss hss.2 w₁).bind fun _ _ => Clean.pure _).mono ?_
    rintro _ _ ⟨s₁, w₁, hs, ss₁, w₂, hss, rfl, rfl⟩ marks _ (- | ⟨hs', hss'⟩)
    rw [Stmt.bareAll, List.mapM_cons]
    exact .bind (hs marks _ hs') (.bind (hss marks _ hss') (.pure _))

theorem likewise_mapM_fun {f : FunDecl → Resolving FunDecl}
    (ih : ∀ d w, d.Named (Old R) → Clean w (f d) (FunLikewise R f d w)) (ds : List FunDecl)
    (hds : FunDecl.AllNamed (Old R) ds) :
    ∀ w, Clean w (ds.mapM f) fun ds₁ w₁ => ∀ marks ds', FunDecl.AllRenamed R marks ds₁ ds' →
      Likewise R marks w w₁ ((FunDecl.bareAll ds').mapM f) ds' := by
  induction ds with
  | nil =>
    intro w
    rw [List.mapM_nil]
    refine (Clean.pure _).mono ?_
    rintro _ _ ⟨rfl, rfl⟩ marks _ ⟨-⟩
    rw [FunDecl.bareAll, List.mapM_nil]
    exact .pure []
  | cons d ds ihds =>
    intro w
    rw [List.mapM_cons]
    refine ((ih d w hds.1).bind fun _ w₁ => (ihds hds.2 w₁).bind fun _ _ => Clean.pure _).mono ?_
    rintro _ _ ⟨d₁, w₁, ⟨-, hd⟩, ds₁, w₂, hds, rfl, rfl⟩ marks _ (- | ⟨hd', hds'⟩)
    rw [FunDecl.bareAll, List.mapM_cons]
    exact .bind (hd marks _ hd') (.bind (hds marks _ hds') (.pure _))

theorem likewise_params {room : Nat} (ps : List Token) (hps : ∀ p ∈ ps, Old R p) :
    ∀ w, Clean w (ps.forM (introduce room)) fun _ w₁ => ∀ marks : Marks,
      Likewise R marks w w₁ ((ps.map (R.token (marks 0))).forM (introduce room)) () := by
  induction ps with
  | nil =>
    intro w
    refine (Clean.pure _).mono ?_
    rintro _ _ ⟨-, rfl⟩ marks
    exact .pure ()
  | cons p ps ih =>
    intro w
    refine ((likewise_introduce (hps p List.mem_cons_self)).bind fun _ w₁ =>
      ih (fun q hq => hps q (List.mem_cons_of_mem _ hq)) w₁).mono ?_
    rintro _ _ ⟨_, _, hp, hps⟩ marks
    exact .bind (hp marks) (hps marks)

variable (R) in
/-- **Statements are resolved likewise** with variables renamed, in the given room. -/
structure LikewiseAt (room : Nat) : Prop where
  stmt : ∀ s w, s.Named (Old R) → Clean w (stmt room s) (StmtLikewise R room w)
  classDecl : ∀ n s ms w, (Stmt.classDecl n s ms).Named (Old R) →
    Clean w (classDecl room n s ms) (StmtLikewise R (room + 1) w)
  funDecl : ∀ sort d w, d.Named (Old R) →
    Clean w (funDecl room sort d) (FunLikewise R (funDecl room sort) d w)

namespace LikewiseAt

variable {room : Nat}

theorem stmt_succ (ih : LikewiseAt R room) (s : Stmt) (w : Walk) (hs : s.Named (Old R)) :
    Clean w (Scope.stmt (room + 1) s) (StmtLikewise R (room + 1) w) := by
  cases s with
  | expression e | print e =>
    refine ((likewise_expr room e w hs).bind fun _ _ => Clean.pure _).mono ?_
    rintro _ _ ⟨e₁, w₁, he, rfl, rfl⟩ marks _ ⟨-⟩
    exact .bind (he marks) (.pure _)
  | var n e =>
    refine ((likewise_declare hs.1).bind fun _ _ => (likewise_optionalExpr hs.2).bind fun _ _ =>
      (Clean.modify (Walk.diagnostics_define ..)).bind fun _ _ => Clean.pure _).mono ?_
    rintro _ _ ⟨_, _, hn, e₁, _, ⟨-, he⟩, _, _, rfl, rfl, rfl⟩ marks _ ⟨-⟩
    exact .bind (hn marks) (.bind (he marks)
      (.bind (.modify fun w' hw => hw.define hs.1) (.pure _)))
  | block body =>
    refine ((likewise_inScope R (likewise_mapM_stmt ih.stmt body hs)).bind fun _ _ =>
      Clean.pure _).mono ?_
    rintro _ _ ⟨body₁, _, ⟨w₁, hbody, hscope⟩, rfl, rfl⟩ marks _ h
    cases h with
    | block mark hbody' =>
      exact .bind (hscope marks mark _ _ _ (.inl rfl) (hbody _ _ hbody')) (.pure _)
  | branch t y n =>
    cases n with
    | none =>
      refine ((likewise_expr room t w hs.1).bind fun _ w₁ => (ih.stmt y w₁ hs.2).bind fun _ _ =>
        Clean.pure _).mono ?_
      rintro _ _ ⟨t₁, w₁, ht, y₁, w₂, hy, rfl, rfl⟩ marks _ h
      cases h with
      | branch _ hy' => exact .bind (ht marks) (.bind (hy _ _ hy') (.pure _))
    | some n =>
      refine ((likewise_expr room t w hs.1).bind fun _ w₁ => (ih.stmt y w₁ hs.2.1).bind fun _ w₂ =>
        (ih.stmt n w₂ hs.2.2).bind fun _ _ => Clean.pure _).mono ?_
      rintro _ _ ⟨t₁, w₁, ht, y₁, w₂, hy, n₁, w₃, hn, rfl, rfl⟩ marks _ h
      cases h with
      | branchElse _ hy' hn' =>
        exact .bind (ht marks) (.bind (hy _ _ hy') (.bind (hn _ _ hn') (.pure _)))
  | loop t body =>
    refine ((likewise_expr room t w hs.1).bind fun _ w₁ => (ih.stmt body w₁ hs.2).bind fun _ _ =>
      Clean.pure _).mono ?_
    rintro _ _ ⟨t₁, w₁, ht, body₁, w₂, hbody, rfl, rfl⟩ marks _ h
    cases h with
    | loop _ hbody' => exact .bind (ht marks) (.bind (hbody _ _ hbody') (.pure _))
  | leave k =>
    refine (Clean.pure _).mono ?_
    rintro _ _ ⟨rfl, rfl⟩ marks _ ⟨-⟩
    exact .pure _
  | giveBack k e =>
    refine ((Clean.needing 1 room).bind fun _ _ => Clean.get.bind fun _ _ =>
      (Clean.blameIf ..).bind fun _ _ => Clean.get.bind fun _ _ =>
        (Clean.blameIf ..).bind fun _ w₁ => (likewise_optionalExpr hs).bind fun _ _ =>
          Clean.pure _).mono ?_
    rintro _ _ ⟨_, _, ⟨rfl, hroom⟩, _, _, ⟨rfl, rfl⟩, _, _, ⟨htop, rfl⟩, _, _, ⟨rfl, rfl⟩, _, _,
      ⟨hinit, rfl⟩, e₁, _, ⟨hsome, he⟩, rfl, rfl⟩ marks _ ⟨-⟩
    refine .bind (.need hroom) (.get fun w' hw => .bind (.blameIf ?_ _ _ _)
      (.get fun w'' hw' => .bind (.blameIf ?_ _ _ _) (.bind (he marks) (.pure _))))
    · rwa [hw.function]
    · rwa [hw'.function, Option.isSome_map, Option.isSome_map, hsome]
  | function d =>
    refine ((likewise_introduce (FunDecl.Named.name hs)).bind fun _ w₁ =>
      (ih.funDecl .function d w₁ hs).bind fun _ _ => Clean.pure _).mono ?_
    rintro _ _ ⟨_, w₁, hn, d₁, w₂, ⟨hname, hd⟩, rfl, rfl⟩ marks _ h
    cases h with
    | @function _ _ d' hkept hd' =>
      -- the name that is declared is not spelled anew, as `d'` has the name of `d`
      have hsame : R.token (marks 0) d.name = d'.bare.name := by
        rw [hname] at hkept
        rw [d'.bare_name, hd'.name, hname]
        exact congrArg (Token.mk _ · _) hkept
      have hn' := hn marks
      rw [hsame] at hn'
      exact .bind hn' (.bind (hd _ _ hd') (.pure _))
  | classDecl n s ms => exact ih.classDecl n s ms w hs

theorem funDecl_succ (ih : LikewiseAt R room) (sort : FunctionContext) (d : FunDecl) (w : Walk)
    (hd : d.Named (Old R)) :
    Clean w (Scope.funDecl (room + 1) sort d)
      (FunLikewise R (Scope.funDecl (room + 1) sort) d w) := by
  obtain ⟨name, ps, body⟩ := d
  refine (Clean.get.bind fun a _ =>
    (Clean.modify (g := fun w => { w with function := sort }) rfl).bind fun _ _ =>
    (likewise_inScope R fun w => (likewise_params ps hd.2.1 w).bind fun _ w₁ =>
      likewise_mapM_stmt ih.stmt body hd.2.2 w₁).bind fun _ _ =>
    (Clean.modify (g := fun w => { w with function := a.function }) rfl).bind fun _ _ =>
      Clean.pure _).mono ?_
  rintro _ _ ⟨_, w, ⟨rfl, rfl⟩, _, _, rfl, body₁, _, ⟨w₂, ⟨_, w₁, hps, hbody⟩, hscope⟩, _, _,
    rfl, rfl, rfl⟩
  refine ⟨rfl, fun marks _ h => ?_⟩
  cases h with
  | @mk _ _ body' _ _ mark hbody' =>
    have hopen : Likewise R marks w { w with function := sort }
        (modify fun w => { w with function := sort }) () :=
      .modify fun w' hw => { hw with function := rfl }
    have hbody'' := hscope marks mark _ _ _ (.inl rfl) (.bind (hps (marks.push mark))
      (k := fun _ => (Stmt.bareAll body').mapM (Scope.stmt room)) (hbody _ body' hbody'))
    refine .get fun w' hw => .bind hopen (.bind hbody'' (.bind (.modify ?_) (.pure _)))
    exact fun w'' hw' => { hw' with function := hw.function }

/-- The methods of a class are resolved likewise. -/
theorem members (ih : LikewiseAt R room) (ms : List FunDecl) (hms : FunDecl.AllNamed (Old R) ms)
    (w : Walk) :
    let method (d : FunDecl) : Resolving FunDecl :=
      Scope.funDecl room (if d.isInitializer then .initializer else .method) d
    Clean w (inScope room [thisName] (ms.mapM method)) fun ms₁ w₁ => ∀ (marks : Marks) ms',
      FunDecl.AllRenamed R (marks.push false) ms₁ ms' →
      Likewise R marks w w₁ (inScope room [thisName] ((FunDecl.bareAll ms').mapM method)) ms' := by
  intro method
  have hmethod (d : FunDecl) (w : Walk) (hd : d.Named (Old R)) :
      Clean w (method d) (FunLikewise R method d w) := by
    refine (ih.funDecl _ d w hd).mono fun d₁ w₁ h => ⟨h.1, fun marks d' hd' => ?_⟩
    -- a method keeps its name, and with it whether it is an initializer
    have hsort : d'.bare.isInitializer = d.isInitializer := by
      rw [d'.bare_isInitializer, FunDecl.isInitializer, FunDecl.isInitializer, hd'.name, h.1]
    have h' := h.2 marks d' hd'
    rwa [← hsort] at h'
  refine (likewise_inScope R (likewise_mapM_fun hmethod ms hms)).mono ?_
  rintro ms₁ _ ⟨w₁, hms₁, hscope⟩ marks ms' hms'
  exact hscope marks false _ _ _ (.inr ⟨rfl, by simpa using R.new_isIdentifier.isName.1⟩)
    (hms₁ _ ms' hms')

theorem classDecl_succ (ih : LikewiseAt R room) (n : Token) (s : Option Reference)
    (ms : List FunDecl) (w : Walk) (hs : (Stmt.classDecl n s ms).Named (Old R)) :
    Clean w (Scope.classDecl (room + 1) n s ms) (StmtLikewise R (room + 2) w) := by
  obtain ⟨hn, hsuper, hms⟩ := hs
  cases s with
  | none =>
    refine (Clean.get.bind fun a _ => (Clean.modify
        (g := fun w => { w with classContext := .plain }) rfl).bind fun _ _ =>
      (likewise_introduce hn).bind fun _ w₂ => (ih.members ms hms w₂).bind fun _ _ =>
        (Clean.pure _).bind fun _ _ => (Clean.modify
          (g := fun w => { w with classContext := a.classContext }) rfl).bind fun _ _ =>
            Clean.pure _).mono ?_
    rintro _ _ ⟨_, w, ⟨rfl, rfl⟩, _, _, rfl, _, w₂, hn', ms₁, w₃, hms₁, _, _, ⟨rfl, rfl⟩,
      _, _, rfl, rfl, rfl⟩ marks _ h
    cases h with
    | @classDecl _ _ _ ms' _ hkept hms' =>
      have hopen : Likewise R marks w { w with classContext := .plain }
          (modify fun w => { w with classContext := .plain }) () :=
        .modify fun w' hw => { hw with classContext := rfl }
      have hn'' := hn' marks
      rw [show R.token (marks 0) n = n from congrArg (Token.mk _ · _) hkept] at hn''
      refine .get fun w' hw => .bind hopen (.bind hn'' (.bind (hms₁ marks ms' hms') ?_))
      refine .bind (.pure _) (.bind (.modify ?_) (.pure _))
      exact fun w'' hw' => { hw' with classContext := hw.classContext }
  | some r =>
    refine (Clean.get.bind fun a _ => (Clean.modify
        (g := fun w => { w with classContext := .plain }) rfl).bind fun _ _ =>
      (likewise_introduce hn).bind fun _ _ => (Clean.blameIf ..).bind fun _ _ => (Clean.modify
        (g := fun w => { w with classContext := .derived }) rfl).bind fun _ _ =>
      (likewise_readReference (hsuper r rfl)).bind fun _ _ =>
      (likewise_inScope R (ih.members ms hms)).bind fun _ _ => (Clean.pure _).bind fun _ _ =>
        (Clean.modify (g := fun w => { w with classContext := a.classContext }) rfl).bind
          fun _ _ => Clean.pure _).mono ?_
    rintro _ _ ⟨_, w, ⟨rfl, rfl⟩, _, _, rfl, _, w₂, hn', _, w₂, ⟨hx, hw₂⟩, _, _, rfl, r₁, w₃,
      ⟨hr₁, hr⟩, ms₁, w₄, ⟨w₅, hms₁, hscope⟩, _, _, ⟨rfl, rfl⟩, _, _, rfl, rfl, rfl⟩ marks _ h
    subst hw₂
    cases h with
    | @classDecl _ _ _ ms' _ hkept hms' =>
      have hopen : Likewise R marks w { w with classContext := .plain }
          (modify fun w => { w with classContext := .plain }) () :=
        .modify fun w' hw => { hw with classContext := rfl }
      have hderived : Likewise R marks w₂ { w₂ with classContext := .derived }
          (modify fun w => { w with classContext := .derived }) () :=
        .modify fun w' hw => { hw with classContext := rfl }
      have hn'' := hn' marks
      rw [show R.token (marks 0) n = n from congrArg (Token.mk _ · _) hkept] at hn''
      -- the scopes of `super` and `this` are not marked, and neither of the two is the new name
      have hms₂ := hscope marks false _ _ _
        (.inr ⟨rfl, by simpa [superName] using R.new_isIdentifier.isName.2⟩)
        (hms₁ (marks.push false) ms' hms')
      -- a superclass of another name still has another name than the class
      have hself : Likewise R marks w₂ w₂ (blameIf ((R.reference marks r₁).name.lexeme == n.lexeme)
          room (R.reference marks r₁).bare.name .selfInheritance) () := by
        refine .blameIf ?_ _ _ _
        rw [hr₁]
        exact beq_false_of_ne (R.spell_ne _ (by simpa using hx) (hsuper r rfl) hn)
      refine .get fun w' hw => .bind hopen (.bind hn'' (.bind hself (.bind hderived
        (.bind (hr marks) (.bind hms₂ ?_)))))
      refine .bind (.pure _) (.bind (.modify ?_) (.pure _))
      exact fun w'' hw' => { hw' with classContext := hw.classContext }

end LikewiseAt

theorem likewiseAt (R : Renaming) (room : Nat) : LikewiseAt R room := by
  induction room with
  | zero =>
    exact ⟨fun _ _ _ => Clean.throw .., fun _ _ _ _ _ => Clean.throw ..,
      fun _ _ _ _ => Clean.throw ..⟩
  | succ room ih =>
    exact ⟨ih.stmt_succ, fun n s ms w => ih.classDecl_succ n s ms w, ih.funDecl_succ⟩

/-! ## Programs -/

/-- What need not be given up is resolved as ever. -/
theorem Likewise.orAbandon {α : Type} {marks : Marks} {w₁ : Walk} {y : Resolving α} {before b : α}
    (h : Likewise R marks w w₁ y b) : Likewise R marks w w₁ (orAbandon before y) b := by
  intro w' hw
  obtain ⟨w₁', hrun, hw₁⟩ := h w' hw
  refine ⟨w₁', ?_, hw₁⟩
  rw [orAbandon_apply, hrun]

theorem likewise_topLevel (room : Nat) (s : Stmt) (w : Walk) (hs : s.Named (Old R)) :
    Clean w (topLevel room s) fun s₁ w₁ => ∀ marks s', s₁.Renamed R marks s' →
      Likewise R marks w w₁ (topLevel room s'.bare) s' :=
  (clean_orAbandon ((likewiseAt R room).stmt s w hs)).mono fun _ _ h marks s' hs' =>
    (h marks s' hs').orAbandon

/-- **A program that resolution accepts is accepted as well with local variables renamed**, and
every name in it leads where it did. -/
theorem resolve_renamed {room : Nat} {p p' : Program} (hnames : Stmt.AllNamed (Old R) p)
    (hclean : (p.resolve room).diagnostics = [])
    (hp' : Stmt.AllRenamed R .none (p.resolve room).result p') :
    (Program.resolve room (Stmt.bareAll p')).result = p' ∧
      (Program.resolve room (Stmt.bareAll p')).diagnostics = [] ∧
      List.Forall₂ (SameUse R) (p.resolve room).annotations
        (Program.resolve room (Stmt.bareAll p')).annotations := by
  have hrun := likewise_mapM_stmt (likewise_topLevel room) p hnames {}
  unfold Program.resolve Resolution.of at hclean hp' ⊢
  unfold Clean at hrun
  obtain ⟨p₁, w₁, h₁⟩ := mapM_topLevel_ok room p {}
  rw [h₁] at hrun hclean hp' ⊢
  have hstart : Walk.Respelled R .none {} {} := ⟨rfl, nofun, rfl, rfl, rfl, .nil, rfl⟩
  obtain ⟨w', hrun', hw'⟩ := hrun.2 hclean .none p' hp' {} hstart
  rw [hrun']
  exact ⟨rfl, hw'.diagnostics.trans hclean, hw'.annotations⟩

end Scope
end LoxKit
