import LoxKit.Store

/-!
# Bindings and frames with their values mapped

To change every value of some bindings, or of a store of frames, by a function commutes with all
that is done to them by name and by distance.
-/
namespace LoxKit

universe u v

variable {α : Type u} {β : Type v}

namespace Bindings

/-- Bindings with their values mapped. -/
def map (f : α → β) (b : Bindings α) : Bindings β := ⟨b.entries.map fun e => (e.1, f e.2)⟩

variable (f : α → β) (b : Bindings α) (x : String) (v : α)

@[simp] theorem map_empty : (empty : Bindings α).map f = empty := rfl

@[simp] theorem get?_map : (b.map f).get? x = (b.get? x).map f := by
  obtain ⟨l⟩ := b
  simp only [map, get?]
  induction l with
  | nil => rfl
  | cons e l ih =>
    rw [List.map_cons, List.lookup_cons, List.lookup_cons, ih]
    cases x == e.1 <;> rfl

@[simp] theorem contains_map : (b.map f).contains x = b.contains x := by
  rw [← isSome_get?, ← isSome_get?, get?_map, Option.isSome_map]

theorem map_put : (b.put x v).map f = (b.map f).put x (f v) := by
  unfold put
  rw [contains_map]
  split
  · simp only [replace, map, List.map_map]
    congr 1
    apply List.map_congr_left
    intro e _
    by_cases h : e.1 = x <;> simp [h]
  · simp [map]

theorem map_ofList (es : List (String × α)) :
    (ofList es).map f = ofList (es.map fun e => (e.1, f e.2)) := by
  have honto : ∀ b : Bindings α, (es.foldl (fun b e => b.put e.1 e.2) b).map f =
      (es.map fun e => (e.1, f e.2)).foldl (fun b e => b.put e.1 e.2) (b.map f) := by
    induction es with
    | nil => exact fun _ => rfl
    | cons e es ih =>
      intro b
      rw [List.foldl_cons, ih, map_put]
      rfl
  exact honto empty

/-- A single binding, mapped. -/
@[simp] theorem map_singleton : (ofList [(x, v)]).map f = ofList [(x, f v)] := map_ofList f [(x, v)]

end Bindings

namespace Store

variable {α β : Type}

/-- A store of frames with the values mapped. -/
def map (f : α → β) (s : Store α) : Store β :=
  ⟨s.frames.map fun fr => ⟨fr.bindings.map f, fr.enclosing⟩⟩

variable (f : α → β) (s : Store α) (g : FrameId) (x : String) (d : Int)

@[simp] theorem size_map : (s.map f).frames.size = s.frames.size := by simp [map]

@[simp] theorem bindings_map : (s.map f).bindings g = (s.bindings g).map f := by
  simp only [map, bindings, Array.getElem?_map, Option.map_map]
  cases s.frames[g]? <;> rfl

@[simp] theorem enclosing?_map : (s.map f).enclosing? g = s.enclosing? g := by
  simp only [map, enclosing?, Array.getElem?_map]
  cases s.frames[g]? <;> rfl

theorem map_new (e : Option FrameId) (b : Bindings α) :
    ((s.map f).new e (b.map f)).2 = (s.new e b).2.map f := by
  simp [map, new]

theorem map_define (v : α) : (s.map f).define g x (f v) = (s.define g x v).map f := by
  simp only [map, define]
  congr 1
  apply Array.ext_getElem?
  intro i
  simp only [Array.getElem?_modify, Array.getElem?_map]
  split <;> cases s.frames[i]? <;> simp [Bindings.map_put]

@[simp] theorem holder?_map : (s.map f).holder? x g = s.holder? x g := by
  induction g using Nat.strongRecOn with
  | ind g ih =>
    rw [holder?, holder?, bindings_map, Bindings.contains_map, enclosing?_map]
    split
    · rfl
    · cases s.enclosing? g with
      | none => rfl
      | some p =>
        dsimp only
        by_cases hp : p < g
        · rw [if_pos hp, if_pos hp, ih p hp]
        · rw [if_neg hp, if_neg hp]

@[simp] theorem locate_map : (s.map f).locate g x = s.locate g x := by
  rw [locate, locate, holder?_map]

@[simp] theorem outward?_map (n : Nat) : (s.map f).outward? g n = s.outward? g n := by
  induction n generalizing g with
  | zero => rfl
  | succ n ih =>
    rw [outward?, outward?, enclosing?_map]
    cases s.enclosing? g with
    | none => rfl
    | some p => exact ih p

@[simp] theorem locateAt_map : (s.map f).locateAt g d x = s.locateAt g d x := by
  unfold locateAt ancestor
  rw [outward?_map]
  cases s.outward? g d.toNat with
  | none => rfl
  | some h =>
    show (if ((s.map f).bindings h).contains x then _ else _) =
      if (s.bindings h).contains x then _ else _
    rw [bindings_map, Bindings.contains_map]

theorem read_map : (s.map f).read g x = (s.read g x).map f := by
  rw [read, read, bindings_map, Bindings.get?_map]
  cases (s.bindings g).get? x <;> rfl

theorem get_map : (s.map f).get g x = (s.get g x).map f := by
  rw [get, get, locate_map]
  cases s.locate g x with
  | error e => rfl
  | ok h => exact read_map f s h x

theorem getAt_map : (s.map f).getAt g d x = (s.getAt g d x).map f := by
  rw [getAt, getAt, locateAt_map]
  cases s.locateAt g d x with
  | error e => rfl
  | ok h => exact read_map f s h x

end Store
end LoxKit
