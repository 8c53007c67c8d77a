import LoxKit.Machine.Basic
import LoxKit.Proofs.Scope.Stack

/-!
# What lasts in a store of frames

Frames are made and never taken away; they stay where they are and keep their names, and what
is bound to `super` is never changed (`Store.Later`).  So a chain of frames that lies in some
scopes, one frame for each, goes on to lie in them (`Store.Chain.imp`).

Nor do frames get new names, except where a name is defined (`Store.Steady`).  And what holds of
all values in fields goes on to hold behind a new object (`forall_field_push`) and behind a field
that is set (`forall_field_put`).
-/
namespace LoxKit

open Scope

/-! ## Later stores -/

namespace Store

/-- **One store of frames is later than another.** -/
structure Later (s s' : Store (Value FrameId)) : Prop where
  size_le : s.frames.size ≤ s'.frames.size
  enclosing : ∀ f < s.frames.size, s'.enclosing? f = s.enclosing? f
  names : ∀ f x, (s.bindings f).contains x → (s'.bindings f).contains x
  super : ∀ f < s.frames.size, (s'.bindings f).get? superName = (s.bindings f).get? superName

namespace Later

variable {s s' s'' : Store (Value FrameId)}

theorem refl (s : Store (Value FrameId)) : s.Later s :=
  ⟨Nat.le_refl _, fun _ _ => rfl, fun _ _ h => h, fun _ _ => rfl⟩

theorem trans (h : s.Later s') (h' : s'.Later s'') : s.Later s'' where
  size_le := Nat.le_trans h.size_le h'.size_le
  enclosing f hf := by
    have hf' : f < s'.frames.size := Nat.lt_of_lt_of_le hf h.size_le
    rw [h'.enclosing f hf', h.enclosing f hf]
  names f x hx := h'.names f x (h.names f x hx)
  super f hf := by
    have hf' : f < s'.frames.size := Nat.lt_of_lt_of_le hf h.size_le
    rw [h'.super f hf', h.super f hf]

theorem new (s : Store (Value FrameId)) (e : Option FrameId) (b : Bindings (Value FrameId)) :
    s.Later (s.new e b).2 where
  size_le := by simp
  enclosing f hf := by rw [enclosing?_new, if_neg (Nat.ne_of_lt hf)]
  names f x hx := by
    have hf := lt_size_of_contains hx
    rw [bindings_new, if_neg (Nat.ne_of_lt hf)]
    exact hx
  super f hf := by rw [bindings_new, if_neg (Nat.ne_of_lt hf)]

theorem define (s : Store (Value FrameId)) {f : FrameId} {x : String} (v : Value FrameId)
    (hf : f < s.frames.size) (hx : x ≠ superName) : s.Later (s.define f x v) where
  size_le := by simp
  enclosing g _ := by simp
  names g y hy := by
    rw [bindings_define _ _ _ _ _ hf]
    split
    · rename_i h
      subst h
      rw [Bindings.contains_put, hy, Bool.or_true]
    · exact hy
  super g _ := by
    rw [bindings_define _ _ _ _ _ hf]
    split
    · rename_i h
      rw [Bindings.get?_put, if_neg hx.symm, h]
    · rfl

end Later
end Store

/-! ## What fields hold -/

section Fields

variable {fields : Array (Bindings (Value FrameId))} {P : Value FrameId → Prop}

/-- A new object holds nothing. -/
theorem forall_field_push
    (h : ∀ (id : ObjectId) b, fields[id]? = some b → ∀ x v, b.get? x = some v → P v)
    (id : ObjectId) (b : Bindings (Value FrameId)) (hb : (fields.push .empty)[id]? = some b) :
    ∀ x v, b.get? x = some v → P v := by
  intro x v hv
  rw [Array.getElem?_push] at hb
  split at hb
  · cases hb
    cases hv
  · exact h id b hb x v hv

/-- A field that is set holds its value, and the others what they held. -/
theorem forall_field_put
    (h : ∀ (id : ObjectId) b, fields[id]? = some b → ∀ x v, b.get? x = some v → P v)
    {id : ObjectId} {x : String} {v : Value FrameId} (hv : P v) (j : ObjectId)
    (b : Bindings (Value FrameId)) (hb : (fields.modify id (·.put x v))[j]? = some b) :
    ∀ y u, b.get? y = some u → P u := by
  intro y u hu
  rw [Array.getElem?_modify] at hb
  split at hb
  · obtain ⟨b', hb', rfl⟩ := Option.map_eq_some_iff.mp hb
    rw [Bindings.get?_put] at hu
    split at hu
    · cases hu
      exact hv
    · exact h j b' hb' y u hu
  · exact h j b hb y u hu

end Fields

/-! ## Names that are new -/

/-- No frame. -/
def nowhere : FrameId → Prop := fun _ => False

/-- **The frames that are there get no new names**, except for those said. -/
def Store.Steady (may : FrameId → Prop) (s s' : Store (Value FrameId)) : Prop :=
  ∀ f < s.frames.size, ¬may f → ∀ x, (s'.bindings f).contains x → (s.bindings f).contains x

namespace Store.Steady

variable {may p q : FrameId → Prop} {s s' s'' : Store (Value FrameId)}

theorem refl (s : Store (Value FrameId)) : s.Steady may s := fun _ _ _ _ h => h

theorem widen (h : s.Steady p s') (hp : ∀ f < s.frames.size, p f → may f) : s.Steady may s' :=
  fun f hf hn => h f hf fun hm => hn (hp f hf hm)

/-- Of two steps the second may bind more, but in new frames. -/
theorem trans (h : s.Steady p s') (h' : s'.Steady q s'') (hle : s.frames.size ≤ s'.frames.size)
    (hp : ∀ f < s.frames.size, p f → may f) (hq : ∀ f < s.frames.size, q f → may f) :
    s.Steady may s'' := by
  intro f hf hn x hx
  have hf' : f < s'.frames.size := Nat.lt_of_lt_of_le hf hle
  have hx' := h' f hf' (fun hm => hn (hq f hf hm)) x hx
  exact h f hf (fun hm => hn (hp f hf hm)) x hx'

theorem new (s : Store (Value FrameId)) (e : Option FrameId) (b : Bindings (Value FrameId)) :
    s.Steady may (s.new e b).2 := by
  intro f hf _ x hx
  rwa [bindings_new, if_neg (Nat.ne_of_lt hf)] at hx

theorem define (s : Store (Value FrameId)) {f : FrameId} (x : String) (v : Value FrameId)
    (hf : f < s.frames.size) : s.Steady (· = f) (s.define f x v) := by
  intro g _ hg y hy
  rwa [bindings_define _ _ _ _ _ hf, if_neg hg] at hy

/-- A name that is bound is not new. -/
theorem define_bound {s : Store (Value FrameId)} {f : FrameId} {x : String} (v : Value FrameId)
    (hx : (s.bindings f).contains x) : s.Steady may (s.define f x v) := by
  intro g _ _ y hy
  rw [bindings_define _ _ _ _ _ (lt_size_of_contains hx)] at hy
  by_cases hg : g = f
  · rw [if_pos hg, Bindings.contains_put, Bool.or_eq_true] at hy
    subst hg
    rcases hy with hy | hy
    · rwa [beq_iff_eq.mp hy]
    · exact hy
  · rwa [if_neg hg] at hy

end Store.Steady

/-! ## Chains of frames -/

/-- **A chain of frames lies in some scopes**, frame by frame, up to the global frame. -/
def Store.Chain {α : Type} (s : Store α) (P : FrameId → Level → Prop) : FrameId → Stack → Prop
  | f, [] => f = globalFrame
  | f, l :: Γ => P f l ∧ ∃ g, s.enclosing? f = some g ∧ s.Chain P g Γ

namespace Store.Chain

variable {α : Type} {s s' : Store α} {P P' : FrameId → Level → Prop} {f : FrameId} {Γ : Stack}

/-- The frame so many links outward lies in the scope as far out. -/
theorem outward (h : s.Chain P f Γ) {i : Nat} {l : Level} (hl : Γ[i]? = some l) :
    ∃ g, s.outward? f i = some g ∧ P g l := by
  induction Γ generalizing f i with
  | nil => cases hl
  | cons l' Γ ih =>
    obtain ⟨hP, g, hg, hΓ⟩ := h
    cases i with
    | zero =>
      cases hl
      exact ⟨f, rfl, hP⟩
    | succ i =>
      obtain ⟨g', hg', hP'⟩ := ih hΓ hl
      refine ⟨g', ?_, hP'⟩
      rw [Store.outward?, hg]
      exact hg'

/-- A chain stays a chain as long as its links stay. -/
theorem imp (h : s.Chain P f Γ)
    (henc : ∀ f < s.frames.size, s'.enclosing? f = s.enclosing? f)
    (hP : ∀ f < s.frames.size, ∀ l, P f l → P' f l) : s'.Chain P' f Γ := by
  induction Γ generalizing f with
  | nil => exact h
  | cons l Γ ih =>
    obtain ⟨hl, g, hg, hΓ⟩ := h
    have hf := lt_size_of_enclosing? hg
    exact ⟨hP f hf l hl, g, by rw [henc f hf, hg], ih hΓ⟩

end Store.Chain
end LoxKit
