import LoxKit.Proofs.Lexical.Semantics
import LoxKit.Proofs.Machine.Operators
import LoxKit.Proofs.Scope.Stack

/-!
# Frames and cells

How the surroundings of a machine stand for those of a world.  What a local frame binds to a
name is held by one cell of the world (`Bond`).  A frame then represents a map from names to
cells, under the scopes that are open there (`Ties.Represents`): a name that is ready in the
innermost scope has the cell of the frame, every other name is as in the frame around it.  A
name that is declared but not ready yet has no cell, since its declaration is not over.

Two values are alike if they are built alike and their functions are at home in surroundings
of which one represents the other (`ValueLike`).
-/
namespace LoxKit

open Scope

/-! ## Bonds -/

/-- **The cell that holds what a frame binds to a name**, for the local frames. -/
abbrev Bond := FrameId → String → Option Lexical.Cell

/-- **What ties frames to cells.** -/
structure Ties where
  bond : Bond
  frames : Store (Value FrameId)

namespace Ties

/-- **Ties of a later moment**: nothing is tied anew, and frames stay where they are. -/
structure Later (s s' : Ties) : Prop where
  bond : ∀ f x ℓ, s.bond f x = some ℓ → s'.bond f x = some ℓ
  size_le : s.frames.frames.size ≤ s'.frames.frames.size
  enclosing : ∀ f < s.frames.frames.size, s'.frames.enclosing? f = s.frames.enclosing? f

namespace Later

variable {s s' s'' : Ties}

theorem refl (s : Ties) : s.Later s := ⟨fun _ _ _ h => h, Nat.le_refl _, fun _ _ => rfl⟩

theorem trans (h : s.Later s') (h' : s'.Later s'') : s.Later s'' where
  bond f x ℓ hℓ := h'.bond f x ℓ (h.bond f x ℓ hℓ)
  size_le := Nat.le_trans h.size_le h'.size_le
  enclosing f hf := by
    have hf' : f < s'.frames.frames.size := Nat.lt_of_lt_of_le hf h.size_le
    rw [h'.enclosing f hf', h.enclosing f hf]

end Later

/-! ## Surroundings -/

/-- **A frame represents a map from names to cells**, under the scopes open in it. -/
def Represents (s : Ties) : FrameId → Stack → List (String × Lexical.Cell) → Prop
  | f, [], cells => f = globalFrame ∧ cells = []
  | f, l :: Γ, cells => ∃ g outer, s.frames.enclosing? f = some g ∧ s.Represents g Γ outer ∧
    (∀ x, l.names.get? x = some true → ∃ ℓ, s.bond f x = some ℓ ∧ cells.lookup x = some ℓ) ∧
    ∀ x, l.names.get? x ≠ some true → cells.lookup x = outer.lookup x

variable {s s' : Ties} {f : FrameId} {Γ : Stack} {cells : List (String × Lexical.Cell)}

/-- What is represented stays so. -/
theorem Represents.later (h : s.Represents f Γ cells) (hs : s.Later s') :
    s'.Represents f Γ cells := by
  induction Γ generalizing f cells with
  | nil => exact h
  | cons l Γ ih =>
    obtain ⟨g, outer, hg, houter, hready, hrest⟩ := h
    have hf : f < s.frames.frames.size := Store.lt_size_of_enclosing? hg
    refine ⟨g, outer, by rw [hs.enclosing f hf, hg], ih houter, fun x hx => ?_, hrest⟩
    obtain ⟨ℓ, hℓ, hlookup⟩ := hready x hx
    exact ⟨ℓ, hs.bond f x ℓ hℓ, hlookup⟩

/-- A name that no scope declares is in no map. -/
theorem Represents.lookup_none (h : s.Represents f Γ cells) {x : String}
    (hx : Γ.depth? x = none) : cells.lookup x = none := by
  induction Γ generalizing f cells with
  | nil =>
    obtain ⟨-, rfl⟩ := h
    rfl
  | cons l Γ ih =>
    obtain ⟨g, outer, -, houter, -, hrest⟩ := h
    rw [Stack.depth?_cons] at hx
    by_cases hl : l.names.contains x
    · simp [hl] at hx
    · have hget := Bindings.get?_eq_none (by simpa using hl : l.names.contains x = false)
      rw [hrest x (by simp [hget])]
      exact ih houter (by simpa [hl] using hx)

/-- **A name that is ready in its scope** has the cell of the frame that lies so far outward as
the scope does. -/
theorem Represents.lookup_some (h : s.Represents f Γ cells) {x : String} {d : Nat} {l : Level}
    (hd : Γ.depth? x = some d) (hl : Γ[d]? = some l) (hx : l.names.get? x = some true) :
    ∃ g ℓ, s.frames.outward? f d = some g ∧ s.bond g x = some ℓ ∧ cells.lookup x = some ℓ := by
  induction Γ generalizing f cells d with
  | nil => cases hl
  | cons l' Γ ih =>
    obtain ⟨g, outer, hg, houter, hready, hrest⟩ := h
    rw [Stack.depth?_cons] at hd
    by_cases hl' : l'.names.contains x
    · rw [if_pos hl'] at hd
      cases hd
      cases hl
      obtain ⟨ℓ, hℓ, hlookup⟩ := hready x hx
      exact ⟨f, ℓ, rfl, hℓ, hlookup⟩
    · -- the innermost scope does not declare the name, so it lies further out
      rw [if_neg hl'] at hd
      obtain ⟨d', hd', rfl⟩ := Option.map_eq_some_iff.mp hd
      have hget := Bindings.get?_eq_none (by simpa using hl' : l'.names.contains x = false)
      obtain ⟨g', ℓ, hg', hℓ, hcell⟩ := ih houter hd' hl
      refine ⟨g', ℓ, ?_, hℓ, (hrest x (by simp [hget])).trans hcell⟩
      rw [Store.outward?, hg]
      exact hg'

/-- Only the names that are ready in a scope matter. -/
theorem Represents.congr {l l' : Level} (h : s.Represents f (l :: Γ) cells)
    (hl : ∀ y, l'.names.get? y = some true ↔ l.names.get? y = some true) :
    s.Represents f (l' :: Γ) cells := by
  obtain ⟨g, outer, hg, houter, hready, hrest⟩ := h
  refine ⟨g, outer, hg, houter, fun x hx => hready x ((hl x).mp hx), fun x hx => ?_⟩
  exact hrest x fun hx' => hx ((hl x).mpr hx')

/-- A scope with one more ready name stands for a map with one more cell. -/
theorem Represents.extend {l l' : Level} {x : String} {ℓ : Lexical.Cell}
    (h : s.Represents f (l :: Γ) cells) (hℓ : s.bond f x = some ℓ)
    (hl : ∀ y, l'.names.get? y = if y = x then some true else l.names.get? y) :
    s.Represents f (l' :: Γ) ((x, ℓ) :: cells) := by
  obtain ⟨g, outer, hg, houter, hready, hrest⟩ := h
  have hlookup : ∀ y, y ≠ x → ((x, ℓ) :: cells).lookup y = cells.lookup y := by
    intro y hy
    have hne : (y == x) = false := by simpa using hy
    rw [List.lookup_cons, hne]
  refine ⟨g, outer, hg, houter, fun y hy => ?_, fun y hy => ?_⟩
  · by_cases hyx : y = x
    · subst hyx
      exact ⟨ℓ, hℓ, List.lookup_cons_self⟩
    · rw [hl y, if_neg hyx] at hy
      rw [hlookup y hyx]
      exact hready y hy
  · by_cases hyx : y = x
    · exact absurd (by rw [hl y, if_pos hyx]) hy
    · rw [hl y, if_neg hyx] at hy
      rw [hlookup y hyx]
      exact hrest y hy

end Ties

/-- A name that is entered and not ready yet is not ready. -/
theorem Scope.get?_put_false {names : Scope} {x : String} (hx : names.contains x = false)
    (y : String) : (names.put x false).get? y = some true ↔ names.get? y = some true := by
  rw [Bindings.get?_put]
  by_cases hy : y = x
  · simp [hy, Bindings.get?_eq_none hx]
  · simp [hy]

/-- To enter a name as not ready changes nothing, if it was not declared. -/
theorem Ties.Represents.enter_pending {s : Ties} {f : FrameId} {Γ : Stack}
    {cells : List (String × Lexical.Cell)} (h : s.Represents f Γ cells) {x : String}
    (hx : ∀ l ∈ Γ.head?, l.names.contains x = false) :
    s.Represents f (Γ.enter x false) cells := by
  rcases Γ with - | ⟨l, Γ⟩
  · exact h
  · have hl := hx l rfl
    cases l with
    | block body names => exact h.congr (Scope.get?_put_false hl)
    | call decl names => exact h.congr (Scope.get?_put_false hl)
    | this site => exact h
    | super site => exact h

/-! ## Values that are alike -/

section Values

variable (s : Ties)

/-- **Two functions are alike**: they have the same text and are at home in surroundings of
which one represents the other. -/
structure FunctionLike (f : Closure FrameId) (f' : Closure Lexical.Env) : Prop where
  decl : f'.decl = f.decl.bare
  isInitializer : f'.isInitializer = f.isInitializer
  shaped : f.decl.Shaped
  home : ∃ Γ, s.Represents f.home Γ f'.home.cells ∧ (∀ v ∈ f.decl.visits Γ, v.Settled) ∧
    (f.isInitializer → ∃ site Δ, Γ = .this site :: Δ)

/-- **Two methods are alike**, which are at home around their objects. -/
structure MethodLike (f : Closure FrameId) (f' : Closure Lexical.Env) : Prop where
  decl : f'.decl = f.decl.bare
  isInitializer : f'.isInitializer = f.isInitializer
  shaped : f.decl.Shaped
  home : ∃ site Γ, s.Represents f.home Γ f'.home.cells ∧
    ∀ v ∈ f.decl.visits (.this site :: Γ), v.Settled

/-- Two classes are alike in what they declare themselves. -/
structure HeadLike (h : ClassHead FrameId) (h' : ClassHead Lexical.Env) : Prop where
  number : h'.number = h.number
  name : h'.name = h.name
  methods : ∀ x, Option.Rel (MethodLike s) (h.methods.get? x) (h'.methods.get? x)

/-- **Two classes are alike**, and so are those that they inherit from. -/
inductive ClassLike : ClassValue FrameId → ClassValue Lexical.Env → Prop where
  | root {h h'} : HeadLike s h h' → ClassLike (.root h) (.root h')
  | derived {h h' c c'} : HeadLike s h h' → ClassLike c c' →
    ClassLike (.derived h c) (.derived h' c')

/-- **Two values are alike.** -/
inductive ValueLike : Value FrameId → Value Lexical.Env → Prop where
  | nil : ValueLike .nil .nil
  | bool (b : Bool) : ValueLike (.bool b) (.bool b)
  | number (x : Float) : ValueLike (.number x) (.number x)
  | string (t : String) : ValueLike (.string t) (.string t)
  | native (f : Native) : ValueLike (.native f) (.native f)
  | function {f f'} : FunctionLike s f f' → ValueLike (.function f) (.function f')
  | classValue {c c'} : ClassLike s c c' → ValueLike (.classValue c) (.classValue c')
  | object (id : ObjectId) {c c'} : ClassLike s c c' →
    ValueLike (.object id c) (.object id c')

/-- **Two completions are alike.** -/
inductive CompletionLike : Completion FrameId → Completion Lexical.Env → Prop where
  | normal : CompletionLike .normal .normal
  | leave : CompletionLike .leave .leave
  | giveBack {v v'} : ValueLike s v v' → CompletionLike (.giveBack v) (.giveBack v')

end Values

section Values

variable {s s' : Ties}

theorem FunctionLike.later {f : Closure FrameId} {f' : Closure Lexical.Env}
    (h : FunctionLike s f f') (hs : s.Later s') : FunctionLike s' f f' := by
  obtain ⟨hdecl, hinit, hshaped, Γ, hΓ, hrest⟩ := h
  exact ⟨hdecl, hinit, hshaped, Γ, hΓ.later hs, hrest⟩

theorem MethodLike.later {f : Closure FrameId} {f' : Closure Lexical.Env}
    (h : MethodLike s f f') (hs : s.Later s') : MethodLike s' f f' := by
  obtain ⟨hdecl, hinit, hshaped, site, Γ, hΓ, hvisits⟩ := h
  exact ⟨hdecl, hinit, hshaped, site, Γ, hΓ.later hs, hvisits⟩

theorem HeadLike.later {h : ClassHead FrameId} {h' : ClassHead Lexical.Env}
    (hh : HeadLike s h h') (hs : s.Later s') : HeadLike s' h h' := by
  refine ⟨hh.number, hh.name, fun x => ?_⟩
  have hx := hh.methods x
  generalize h.methods.get? x = f at hx ⊢
  generalize h'.methods.get? x = f' at hx ⊢
  cases hx with
  | none => exact .none
  | some hf => exact .some (hf.later hs)

theorem ClassLike.later {c : ClassValue FrameId} {c' : ClassValue Lexical.Env}
    (h : ClassLike s c c') (hs : s.Later s') : ClassLike s' c c' := by
  induction h with
  | root hh => exact .root (hh.later hs)
  | derived hh _ ih => exact .derived (hh.later hs) ih

theorem ValueLike.later {v : Value FrameId} {v' : Value Lexical.Env} (h : ValueLike s v v')
    (hs : s.Later s') : ValueLike s' v v' := by
  cases h with
  | nil => exact .nil
  | bool b => exact .bool b
  | number x => exact .number x
  | string t => exact .string t
  | native f => exact .native f
  | function hf => exact .function (hf.later hs)
  | classValue hc => exact .classValue (hc.later hs)
  | object id hc => exact .object id (hc.later hs)

theorem ClassLike.head {c : ClassValue FrameId} {c' : ClassValue Lexical.Env}
    (h : ClassLike s c c') : HeadLike s c.head c'.head := by
  cases h with
  | root hh => exact hh
  | derived hh _ => exact hh

/-- **Classes that are alike have like methods** of each name. -/
theorem ClassLike.method? {c : ClassValue FrameId} {c' : ClassValue Lexical.Env}
    (h : ClassLike s c c') (x : String) :
    Option.Rel (MethodLike s) (c.method? x) (c'.method? x) := by
  induction h with
  | root hh => exact hh.methods x
  | @derived h h' c c' hh _ ih =>
    rw [ClassValue.method?, ClassValue.method?]
    have hx := hh.methods x
    generalize h.methods.get? x = f at hx
    generalize h'.methods.get? x = f' at hx
    cases hx with
    | none => simpa using ih
    | some hf => exact .some hf

/-- Values that are alike are written alike. -/
theorem ValueLike.render {v : Value FrameId} {v' : Value Lexical.Env} (h : ValueLike s v v') :
    v'.render = v.render := by
  cases h with
  | bool b => cases b <;> rfl
  | function hf => simp [Value.render, hf.decl]
  | classValue hc => simp [Value.render, ClassValue.name, hc.head.name]
  | object id hc => simp [Value.render, ClassValue.name, hc.head.name]
  | _ => rfl

theorem ValueLike.truthy {v : Value FrameId} {v' : Value Lexical.Env} (h : ValueLike s v v') :
    v'.truthy = v.truthy := by
  cases h <;> rfl

theorem ValueLike.number? {v : Value FrameId} {v' : Value Lexical.Env} (h : ValueLike s v v') :
    v'.number? = v.number? := by
  cases h <;> rfl

theorem ValueLike.isString {v : Value FrameId} {v' : Value Lexical.Env} (h : ValueLike s v v') :
    v'.isString = v.isString := by
  cases h <;> rfl

theorem ValueLike.equals {v w : Value FrameId} {v' w' : Value Lexical.Env}
    (hv : ValueLike s v v') (hw : ValueLike s w w') : v'.equals w' = v.equals w := by
  cases hv with
  | classValue hc =>
    cases hw with
    | classValue hd => simp only [Value.equals, hc.head.number, hd.head.number]
    | _ => rfl
  | _ => cases hw <;> rfl

/-- Values that are alike take as many arguments. -/
theorem ValueLike.arity? {v : Value FrameId} {v' : Value Lexical.Env} (h : ValueLike s v v') :
    Machine.arity? v' = Machine.arity? v := by
  cases h with
  | function hf => simp [Machine.arity?, hf.decl]
  | @classValue c c' hc =>
    have hinit := hc.method? "init"
    simp only [Machine.arity?, ClassValue.arity, ClassValue.initializer?]
    generalize c.method? "init" = f at hinit
    generalize c'.method? "init" = f' at hinit
    cases hinit with
    | none => rfl
    | some hf => simp [hf.decl]
  | _ => rfl

/-- **Values that are alike** look the same to operators. -/
theorem valueLike_respects : Operator.Respects (ValueLike s) where
  number? h := h.number?
  isString h := h.isString
  truthy h := h.truthy
  render h := h.render
  equals hv hw := hv.equals hw
  ofNumber := .number
  ofString := .string
  ofBool := .bool

theorem valueLike_ofLiteral (v : Literal) : ValueLike s (.ofLiteral v) (.ofLiteral v) := by
  cases v with
  | nil => exact .nil
  | bool b => exact .bool b
  | number x => exact .number x
  | string t => exact .string t

end Values
end LoxKit
