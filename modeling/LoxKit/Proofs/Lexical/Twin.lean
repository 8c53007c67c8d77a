import LoxKit.Proofs.Lexical.Ties
import LoxKit.Proofs.Machine.Later

/-!
# A machine beside a world

A machine and a world that run the same program agree (`Twin.Agrees`) if

* each name in a local frame has a cell of its own, which holds a value like that of the name;
* the global names have like values, and so have the fields of the objects;
* all else is equal: the output, the counts, the line of the last call.

This module makes the single changes on both sides at once and shows that they go on to agree
(`Twin.Goes`).  On the way no frame that was there gets a new name, except for those said.
-/
namespace LoxKit

open Scope

/-- **A machine beside a world**, and what ties their surroundings. -/
structure Twin where
  bond : Bond
  machine : Machine
  world : Lexical.World

namespace Twin

/-- What ties frames to cells. -/
def ties (t : Twin) : Ties := ⟨t.bond, t.machine.frames⟩

/-- The number of frames. -/
def size (t : Twin) : Nat := t.machine.frames.frames.size

/-- What a frame binds. -/
def bindings (t : Twin) (f : FrameId) : Bindings (Value FrameId) := t.machine.frames.bindings f

/-- **The machine and the world agree.** -/
structure Agrees (t : Twin) : Prop where
  /-- No frame encloses the global one, ... -/
  outermost : t.machine.frames.enclosing? globalFrame = none
  size_pos : globalFrame < t.size
  /-- ... and its names have no cells. -/
  untied : ∀ x, t.bond globalFrame x = none
  /-- The names of all other frames have, ... -/
  tied : ∀ f x, f ≠ globalFrame → (t.bindings f).contains x → (t.bond f x).isSome
  /-- ... with values that are alike, ... -/
  held : ∀ f x ℓ, t.bond f x = some ℓ → ∃ v v', (t.bindings f).get? x = some v ∧
    t.world.store[ℓ]? = some v' ∧ ValueLike t.ties v v'
  /-- ... and each has its own. -/
  injective : ∀ f x g y ℓ, t.bond f x = some ℓ → t.bond g y = some ℓ → f = g ∧ x = y
  globals : ∀ x, Option.Rel (ValueLike t.ties) ((t.bindings globalFrame).get? x)
    (t.world.globals.get? x)
  fields_size : t.world.fields.size = t.machine.fields.size
  fields : ∀ (id : ObjectId) x, Option.Rel (ValueLike t.ties)
    ((t.machine.fields[id]?.getD .empty).get? x) ((t.world.fields[id]?.getD .empty).get? x)
  classCount : t.world.classCount = t.machine.classCount
  line : t.world.line = t.machine.line
  output : t.world.output = t.machine.output
  clock : t.world.clock = t.machine.clock
  readings : t.world.readings = t.machine.readings

/-- **How a step goes on both sides.**  Of the frames that were there, only those said may have
got new names. -/
structure Goes (may : FrameId → Prop) (t t' : Twin) : Prop where
  agrees : t'.Agrees
  later : t.ties.Later t'.ties
  steady : ∀ f < t.size, ¬may f → ∀ x, t'.bond f x = t.bond f x
  current : t'.machine.current = t.machine.current

variable {t t' t'' : Twin} {may may' may'' : FrameId → Prop}

theorem Goes.refl (h : t.Agrees) : t.Goes may t := ⟨h, .refl _, fun _ _ _ _ => rfl, rfl⟩

/-- Of two steps the second may bind more, but in new frames. -/
theorem Goes.trans (h : t.Goes may' t') (h' : t'.Goes may'' t'')
    (hmay' : ∀ f < t.size, may' f → may f) (hmay'' : ∀ f < t.size, may'' f → may f) :
    t.Goes may t'' := by
  refine ⟨h'.agrees, h.later.trans h'.later, fun f hf hn x => ?_, h'.current.trans h.current⟩
  have hf' : f < t'.size := Nat.lt_of_lt_of_le hf h.later.size_le
  rw [h'.steady f hf' fun hm => hn (hmay'' f hf hm), h.steady f hf fun hm => hn (hmay' f hf hm)]

theorem Goes.widen (h : t.Goes may' t') (hmay : ∀ f < t.size, may' f → may f) :
    t.Goes may t' :=
  ⟨h.agrees, h.later, fun f hf hn => h.steady f hf fun hm => hn (hmay f hf hm), h.current⟩

/-- A name with a cell is bound. -/
theorem Agrees.contains (h : t.Agrees) {f : FrameId} {x : String} {ℓ : Lexical.Cell}
    (hℓ : t.bond f x = some ℓ) : (t.bindings f).contains x := by
  obtain ⟨v, -, hv, -, -⟩ := h.held f x ℓ hℓ
  rw [← Bindings.isSome_get?, hv]
  rfl

/-- Only frames have names with cells. -/
theorem Agrees.lt_size (h : t.Agrees) {f : FrameId} {x : String} {ℓ : Lexical.Cell}
    (hℓ : t.bond f x = some ℓ) : f < t.size :=
  Store.lt_size_of_contains (h.contains hℓ)

/-- Only cells hold values. -/
theorem Agrees.lt_store_size (h : t.Agrees) {f : FrameId} {x : String} {ℓ : Lexical.Cell}
    (hℓ : t.bond f x = some ℓ) : ℓ < t.world.store.size := by
  obtain ⟨-, v', -, hv', -⟩ := h.held f x ℓ hℓ
  exact (Array.getElem?_eq_some_iff.mp hv').1

theorem rel_later {s s' : Ties} (hs : s.Later s') {a : Option (Value FrameId)}
    {b : Option (Value Lexical.Env)} (h : Option.Rel (ValueLike s) a b) :
    Option.Rel (ValueLike s') a b := by
  cases h with
  | none => exact .none
  | some hv => exact .some (hv.later hs)

/-! ## Frames and names -/

/-- With a new frame that binds nothing. -/
def newFrame (t : Twin) (e : FrameId) : Twin :=
  { t with machine := { t.machine with frames := (t.machine.frames.new (some e) .empty).2 } }

theorem Agrees.newFrame (h : t.Agrees) (e : FrameId) : t.Goes nowhere (t.newFrame e) := by
  have hlater : t.ties.Later (t.newFrame e).ties := by
    refine ⟨fun _ _ _ hℓ => hℓ, ?_, fun f hf => ?_⟩
    · show t.machine.frames.frames.size ≤ (t.machine.frames.new (some e) .empty).2.frames.size
      rw [Store.size_new]
      omega
    · have hne : f ≠ t.machine.frames.frames.size := Nat.ne_of_lt hf
      show (t.machine.frames.new (some e) .empty).2.enclosing? f = t.machine.frames.enclosing? f
      rw [Store.enclosing?_new, if_neg hne]
  have hbindings : ∀ f, (t.newFrame e).bindings f = t.bindings f := by
    intro f
    show (t.machine.frames.new (some e) .empty).2.bindings f = t.machine.frames.bindings f
    rw [Store.bindings_new]
    split
    · rename_i hf
      rw [hf, Store.bindings_of_size_le _ (Nat.le_refl _)]
    · rfl
  refine ⟨?_, hlater, fun _ _ _ _ => rfl, rfl⟩
  refine { h with
    outermost := ?_
    size_pos := Nat.lt_of_lt_of_le h.size_pos hlater.size_le
    tied := fun f x hf hx => h.tied f x hf (by rwa [hbindings] at hx)
    held := fun f x ℓ hℓ => ?_
    globals := fun x => by rw [hbindings]; exact rel_later hlater (h.globals x)
    fields := fun id x => rel_later hlater (h.fields id x) }
  · rw [show (t.newFrame e).machine.frames.enclosing? globalFrame = _ from
      hlater.enclosing globalFrame h.size_pos]
    exact h.outermost
  · obtain ⟨v, v', hv, hv', hlike⟩ := h.held f x ℓ hℓ
    exact ⟨v, v', by rw [hbindings]; exact hv, hv', hlike.later hlater⟩

/-- With one more name in a local frame, held by a fresh cell. -/
def define (t : Twin) (f : FrameId) (x : String) (v : Value FrameId)
    (v' : Value Lexical.Env) : Twin where
  bond g y := if g = f ∧ y = x then some t.world.store.size else t.bond g y
  machine := { t.machine with frames := t.machine.frames.define f x v }
  world := { t.world with store := t.world.store.push v' }

/-- Defining a name leaves the frames where they are. -/
theorem later_define {f : FrameId} {x : String} (v : Value FrameId) (v' : Value Lexical.Env)
    (hx : t.bond f x = none) : t.ties.Later (t.define f x v v').ties := by
  refine ⟨fun g y ℓ hℓ => ?_, ?_, fun g _ => ?_⟩
  · show (if g = f ∧ y = x then some t.world.store.size else t.bond g y) = some ℓ
    rw [if_neg ?_]
    · exact hℓ
    · rintro ⟨rfl, rfl⟩
      cases hx.symm.trans hℓ
  · exact Nat.le_of_eq (Store.size_define _ _ _ _).symm
  · exact Store.enclosing?_define _ _ _ _ _

/-- **A new name in a local frame.**  Its value may be at home there already. -/
theorem Agrees.define (h : t.Agrees) {f : FrameId} {x : String} {v : Value FrameId}
    {v' : Value Lexical.Env} (hf : f < t.size) (hne : f ≠ globalFrame) (hx : t.bond f x = none)
    (hv : ValueLike (t.define f x v v').ties v v') : t.Goes (· = f) (t.define f x v v') := by
  have hlater := later_define v v' hx
  have hbond : ∀ g y, (t.define f x v v').bond g y =
      if g = f ∧ y = x then some t.world.store.size else t.bond g y := fun _ _ => rfl
  have hbindings : ∀ g, (t.define f x v v').bindings g =
      if g = f then (t.bindings f).put x v else t.bindings g :=
    fun g => Store.bindings_define _ _ _ _ _ hf
  have hglobal : (t.define f x v v').bindings globalFrame = t.bindings globalFrame := by
    rw [hbindings, if_neg hne.symm]
  have hstore : ∀ ℓ, (t.define f x v v').world.store[ℓ]? =
      if ℓ = t.world.store.size then some v' else t.world.store[ℓ]? :=
    fun ℓ => Array.getElem?_push
  refine ⟨?_, hlater, fun g _ hg y => ?_, rfl⟩
  · refine { h with
      outermost := (hlater.enclosing globalFrame h.size_pos).trans h.outermost
      size_pos := Nat.lt_of_lt_of_le h.size_pos hlater.size_le
      untied := fun y => ?_
      tied := fun g y hg hy => ?_
      held := fun g y ℓ hℓ => ?_
      injective := fun g₁ y₁ g₂ y₂ ℓ h₁ h₂ => ?_
      globals := fun y => by rw [hglobal]; exact rel_later hlater (h.globals y)
      fields := fun id y => rel_later hlater (h.fields id y) }
    · rw [hbond, if_neg fun hn => hne hn.1.symm]
      exact h.untied y
    · rw [hbond]
      by_cases hgy : g = f ∧ y = x
      · rw [if_pos hgy]
        rfl
      · rw [if_neg hgy]
        refine h.tied g y hg ?_
        rw [hbindings] at hy
        by_cases hgf : g = f
        · subst hgf
          rw [if_pos rfl, Bindings.contains_put] at hy
          have hyx : (y == x) = false := by simpa using hgy
          simpa [hyx] using hy
        · rwa [if_neg hgf] at hy
    · rw [hbond] at hℓ
      by_cases hgy : g = f ∧ y = x
      · rw [if_pos hgy] at hℓ
        cases hℓ
        obtain ⟨rfl, rfl⟩ := hgy
        refine ⟨v, v', ?_, ?_, hv⟩
        · rw [hbindings, if_pos rfl, Bindings.get?_put, if_pos rfl]
        · rw [hstore, if_pos rfl]
      · rw [if_neg hgy] at hℓ
        obtain ⟨w, w', hw, hw', hlike⟩ := h.held g y ℓ hℓ
        refine ⟨w, w', ?_, ?_, hlike.later hlater⟩
        · rw [hbindings]
          by_cases hgf : g = f
          · subst hgf
            rw [if_pos rfl, Bindings.get?_put, if_neg fun hyx => hgy ⟨rfl, hyx⟩]
            exact hw
          · rw [if_neg hgf]
            exact hw
        · rw [hstore, if_neg (Nat.ne_of_lt (h.lt_store_size hℓ))]
          exact hw'
    · -- the fresh cell is no one else's
      rw [hbond] at h₁ h₂
      by_cases h₁' : g₁ = f ∧ y₁ = x <;> by_cases h₂' : g₂ = f ∧ y₂ = x
      · exact ⟨h₁'.1.trans h₂'.1.symm, h₁'.2.trans h₂'.2.symm⟩
      · rw [if_pos h₁'] at h₁
        rw [if_neg h₂'] at h₂
        cases h₁
        exact absurd (h.lt_store_size h₂) (Nat.lt_irrefl _)
      · rw [if_neg h₁'] at h₁
        rw [if_pos h₂'] at h₂
        cases h₂
        exact absurd (h.lt_store_size h₁) (Nat.lt_irrefl _)
      · rw [if_neg h₁'] at h₁
        rw [if_neg h₂'] at h₂
        exact h.injective g₁ y₁ g₂ y₂ ℓ h₁ h₂
  · rw [hbond, if_neg fun hn => hg hn.1]

/-- With another value for a name in a local frame and in its cell. -/
def assign (t : Twin) (f : FrameId) (x : String) (ℓ : Lexical.Cell) (v : Value FrameId)
    (v' : Value Lexical.Env) : Twin :=
  { t with
    machine := { t.machine with frames := t.machine.frames.define f x v }
    world := { t.world with store := t.world.store.modify ℓ fun _ => v' } }

/-- **A new value for a local name** is a new value for no other. -/
theorem Agrees.assign (h : t.Agrees) {f : FrameId} {x : String} {ℓ : Lexical.Cell}
    {v : Value FrameId} {v' : Value Lexical.Env} (hℓ : t.bond f x = some ℓ)
    (hv : ValueLike t.ties v v') : t.Goes nowhere (t.assign f x ℓ v v') := by
  have hf : f < t.size := h.lt_size hℓ
  have hne : f ≠ globalFrame := by
    rintro rfl
    cases (h.untied x).symm.trans hℓ
  have hlater : t.ties.Later (t.assign f x ℓ v v').ties := by
    refine ⟨fun _ _ _ hℓ => hℓ, ?_, fun g _ => Store.enclosing?_define _ _ _ _ _⟩
    exact Nat.le_of_eq (Store.size_define _ _ _ _).symm
  have hbindings : ∀ g, (t.assign f x ℓ v v').bindings g =
      if g = f then (t.bindings f).put x v else t.bindings g :=
    fun g => Store.bindings_define _ _ _ _ _ hf
  have hglobal : (t.assign f x ℓ v v').bindings globalFrame = t.bindings globalFrame := by
    rw [hbindings, if_neg hne.symm]
  refine ⟨?_, hlater, fun _ _ _ _ => rfl, rfl⟩
  refine { h with
    outermost := (hlater.enclosing globalFrame h.size_pos).trans h.outermost
    size_pos := Nat.lt_of_lt_of_le h.size_pos hlater.size_le
    tied := fun g y hg hy => ?_
    held := fun g y ℓ' hℓ' => ?_
    globals := fun y => by rw [hglobal]; exact rel_later hlater (h.globals y)
    fields := fun id y => rel_later hlater (h.fields id y) }
  · rw [hbindings] at hy
    by_cases hgf : g = f
    · subst hgf
      rw [if_pos rfl, Bindings.contains_put] at hy
      by_cases hyx : y = x
      · rw [hyx]
        exact Option.isSome_iff_exists.mpr ⟨ℓ, hℓ⟩
      · have hne' : (y == x) = false := by simpa using hyx
        exact h.tied g y hg (by simpa [hne'] using hy)
    · rw [if_neg hgf] at hy
      exact h.tied g y hg hy
  · have hstore : (t.assign f x ℓ v v').world.store[ℓ']? =
        if ℓ = ℓ' then t.world.store[ℓ']?.map fun _ => v' else t.world.store[ℓ']? :=
      Array.getElem?_modify
    obtain ⟨w, w', hw, hw', hlike⟩ := h.held g y ℓ' hℓ'
    by_cases hsame : ℓ = ℓ'
    · subst hsame
      obtain ⟨rfl, rfl⟩ := h.injective g y f x ℓ hℓ' hℓ
      refine ⟨v, v', ?_, ?_, hv.later hlater⟩
      · rw [hbindings, if_pos rfl, Bindings.get?_put, if_pos rfl]
      · rw [hstore, if_pos rfl, hw']
        rfl
    · refine ⟨w, w', ?_, ?_, hlike.later hlater⟩
      · rw [hbindings]
        by_cases hgf : g = f
        · subst hgf
          have hyx : y ≠ x := by
            rintro rfl
            exact hsame (Option.some.inj (hℓ.symm.trans hℓ'))
          rw [if_pos rfl, Bindings.get?_put, if_neg hyx]
          exact hw
        · rw [if_neg hgf]
          exact hw
      · rw [hstore, if_neg hsame]
        exact hw'

/-- With a value for a global name. -/
def defineGlobal (t : Twin) (x : String) (v : Value FrameId) (v' : Value Lexical.Env) : Twin :=
  { t with
    machine := { t.machine with frames := t.machine.frames.define globalFrame x v }
    world := { t.world with globals := t.world.globals.put x v' } }

/-- **A value for a global name**, new or not. -/
theorem Agrees.defineGlobal (h : t.Agrees) (x : String) {v : Value FrameId}
    {v' : Value Lexical.Env} (hv : ValueLike t.ties v v') :
    t.Goes nowhere (t.defineGlobal x v v') := by
  have hlater : t.ties.Later (t.defineGlobal x v v').ties := by
    refine ⟨fun _ _ _ hℓ => hℓ, ?_, fun g _ => Store.enclosing?_define _ _ _ _ _⟩
    exact Nat.le_of_eq (Store.size_define _ _ _ _).symm
  have hbindings : ∀ g, (t.defineGlobal x v v').bindings g =
      if g = globalFrame then (t.bindings globalFrame).put x v else t.bindings g :=
    fun g => Store.bindings_define _ _ _ _ _ h.size_pos
  refine ⟨?_, hlater, fun _ _ _ _ => rfl, rfl⟩
  refine { h with
    outermost := (hlater.enclosing globalFrame h.size_pos).trans h.outermost
    size_pos := Nat.lt_of_lt_of_le h.size_pos hlater.size_le
    tied := fun g y hg hy => h.tied g y hg (by rwa [hbindings, if_neg hg] at hy)
    held := fun g y ℓ hℓ => ?_
    globals := fun y => ?_
    fields := fun id y => rel_later hlater (h.fields id y) }
  · have hg : g ≠ globalFrame := by
      rintro rfl
      cases (h.untied y).symm.trans hℓ
    obtain ⟨w, w', hw, hw', hlike⟩ := h.held g y ℓ hℓ
    exact ⟨w, w', by rw [hbindings, if_neg hg]; exact hw, hw', hlike.later hlater⟩
  · show Option.Rel _ _ ((t.world.globals.put x v').get? y)
    rw [hbindings, if_pos rfl, Bindings.get?_put, Bindings.get?_put]
    by_cases hy : y = x
    · rw [if_pos hy, if_pos hy]
      exact .some (hv.later hlater)
    · rw [if_neg hy, if_neg hy]
      exact rel_later hlater (h.globals y)

/-! ## Objects -/

/-- With a new object. -/
def newObject (t : Twin) : Twin :=
  { t with
    machine := { t.machine with fields := t.machine.fields.push .empty }
    world := { t.world with fields := t.world.fields.push .empty } }

theorem Agrees.newObject (h : t.Agrees) : t.Goes nowhere t.newObject := by
  refine ⟨?_, .refl _, fun _ _ _ _ => rfl, rfl⟩
  refine { h with
    fields_size := ?_
    fields := fun id x => ?_ }
  · show (t.world.fields.push .empty).size = (t.machine.fields.push .empty).size
    rw [Array.size_push, Array.size_push, h.fields_size]
  · show Option.Rel _ (((t.machine.fields.push .empty)[id]?.getD .empty).get? x)
      (((t.world.fields.push .empty)[id]?.getD .empty).get? x)
    rw [Array.getElem?_push, Array.getElem?_push, h.fields_size]
    by_cases hid : id = t.machine.fields.size
    · rw [if_pos hid, if_pos hid]
      exact .none
    · rw [if_neg hid, if_neg hid]
      exact h.fields id x

/-- With a value for a field of an object. -/
def setField (t : Twin) (id : ObjectId) (x : String) (v : Value FrameId)
    (v' : Value Lexical.Env) : Twin :=
  { t with
    machine := { t.machine with fields := t.machine.fields.modify id (·.put x v) }
    world := { t.world with fields := t.world.fields.modify id (·.put x v') } }

theorem Agrees.setField (h : t.Agrees) (id : ObjectId) (x : String) {v : Value FrameId}
    {v' : Value Lexical.Env} (hv : ValueLike t.ties v v') :
    t.Goes nowhere (t.setField id x v v') := by
  refine ⟨?_, .refl _, fun _ _ _ _ => rfl, rfl⟩
  refine { h with
    fields_size := ?_
    fields := fun j y => ?_ }
  · show (t.world.fields.modify id _).size = (t.machine.fields.modify id _).size
    rw [Array.size_modify, Array.size_modify, h.fields_size]
  · show Option.Rel _ (((t.machine.fields.modify id (·.put x v))[j]?.getD .empty).get? y)
      (((t.world.fields.modify id (·.put x v'))[j]?.getD .empty).get? y)
    rw [Array.getElem?_modify, Array.getElem?_modify]
    have hj := h.fields j y
    by_cases hid : id = j
    · rw [if_pos hid, if_pos hid]
      rcases Nat.lt_or_ge j t.machine.fields.size with hlt | hge
      · have hlt' : j < t.world.fields.size := by rw [h.fields_size]; exact hlt
        simp only [Array.getElem?_eq_getElem hlt, Array.getElem?_eq_getElem hlt', Option.map_some,
          Option.getD_some, Bindings.get?_put] at hj ⊢
        by_cases hy : y = x
        · rw [if_pos hy, if_pos hy]
          exact .some hv
        · rw [if_neg hy, if_neg hy]
          exact hj
      · have hge' : t.world.fields.size ≤ j := by rw [h.fields_size]; exact hge
        rw [Array.getElem?_eq_none hge, Array.getElem?_eq_none hge']
        exact .none
    · rw [if_neg hid, if_neg hid]
      exact hj

/-! ## Counts and output -/

/-- With another line for the call begun last. -/
def setLine (t : Twin) (line : Int) : Twin :=
  { t with machine := { t.machine with line }, world := { t.world with line } }

theorem Agrees.setLine (h : t.Agrees) (line : Int) : t.Goes nowhere (t.setLine line) :=
  ⟨{ h with line := rfl }, .refl _, fun _ _ _ _ => rfl, rfl⟩

/-- With more output. -/
def write (t : Twin) (text : String) : Twin :=
  { t with
    machine := t.machine.write text
    world := { t.world with output := t.world.output ++ text } }

theorem Agrees.write (h : t.Agrees) (text : String) : t.Goes nowhere (t.write text) :=
  ⟨{ h with output := congrArg (· ++ text) h.output }, .refl _, fun _ _ _ _ => rfl, rfl⟩

/-- With one more class. -/
def countClass (t : Twin) : Twin :=
  { t with
    machine := { t.machine with classCount := t.machine.classCount + 1 }
    world := { t.world with classCount := t.world.classCount + 1 } }

theorem Agrees.countClass (h : t.Agrees) : t.Goes nowhere t.countClass :=
  ⟨{ h with classCount := congrArg (· + 1) h.classCount }, .refl _, fun _ _ _ _ => rfl, rfl⟩

/-- With one more reading of the clock. -/
def countReading (t : Twin) : Twin :=
  { t with
    machine := { t.machine with readings := t.machine.readings + 1 }
    world := { t.world with readings := t.world.readings + 1 } }

theorem Agrees.countReading (h : t.Agrees) : t.Goes nowhere t.countReading :=
  ⟨{ h with readings := congrArg (· + 1) h.readings }, .refl _, fun _ _ _ _ => rfl, rfl⟩

end Twin
end LoxKit
