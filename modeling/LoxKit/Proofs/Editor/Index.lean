import LoxKit.Editor.Server
import Mathlib.Data.List.Basic

/-!
# The index of several documents

The index of documents holds, under each name, all symbols of this name in the documents and the
classes in them, in the order of the documents.  A name without symbols is not in it
(`Index.get?_ofDocuments`).
-/
namespace LoxKit

namespace Bindings

variable {α : Type u}

theorem mem_names {b : Bindings α} {x : String} : x ∈ b.names ↔ b.contains x = true := by
  simp [contains, names]

/-- Binding a name binds no other twice. -/
theorem nodup_put {b : Bindings α} (h : b.names.Nodup) (x : String) (v : α) :
    (b.put x v).names.Nodup := by
  rw [names_put]
  split
  · exact h
  · rename_i hx
    rw [← mem_names] at hx
    exact List.nodup_append.mpr ⟨h, by simp, by
      rintro y hy z hz rfl
      exact hx (List.mem_singleton.mp hz ▸ hy)⟩

/-- Where no name is bound twice, the values are those of the names. -/
theorem values_eq {b : Bindings α} (h : b.names.Nodup) : b.values = b.names.filterMap b.get? := by
  obtain ⟨l⟩ := b
  unfold values names get? at *
  dsimp only at *
  induction l with
  | nil => rfl
  | cons e l ih =>
    obtain ⟨k, v⟩ := e
    rw [List.map_cons, List.nodup_cons] at h
    have hrest : (l.map (·.1)).filterMap (fun x => List.lookup x ((k, v) :: l)) =
        (l.map (·.1)).filterMap fun x => l.lookup x := by
      refine List.filterMap_congr fun x hx => ?_
      have hne : (x == k) = false := beq_eq_false_iff_ne.mpr fun hxk => h.1 (hxk ▸ hx)
      rw [List.lookup_cons, hne]
    rw [List.map_cons, List.map_cons, List.filterMap_cons_some (b := v) (by simp), hrest, ih h.2]

end Bindings

namespace Editor

/-- The symbols under a name, if there are some. -/
def listed (l : List Symbol) : Option (List Symbol) := if l.isEmpty then none else some l

namespace Index

theorem getD_listed (l : List Symbol) : (listed l).getD [] = l := by
  cases l <;> rfl

/-- The symbols of a name among others. -/
def among (l : List Symbol) (name : String) : List Symbol := l.filter (·.name = name)

/-- An index holds the symbols that were entered, behind those it held before. -/
theorem get?_foldl_enter (l : List Symbol) {i : Index} {done : List Symbol}
    (hi : ∀ name, i.get? name = listed (among done name)) (name : String) :
    (l.foldl enter i).get? name = listed (among (done ++ l) name) := by
  induction l generalizing i done with
  | nil => simpa using hi name
  | cons s l ih =>
    rw [List.foldl_cons, show done ++ s :: l = (done ++ [s]) ++ l by simp]
    refine ih fun x => ?_
    have hfind : i.find s.name = among done s.name := by
      rw [find, hi, getD_listed]
    unfold enter
    rw [Bindings.get?_put, hfind]
    unfold among
    by_cases hx : x = s.name
    · subst hx
      simp [listed]
    · have hne : ¬s.name = x := fun h => hx h.symm
      rw [if_neg hx, hi]
      simp [among, hne]

/-- The symbols of several documents and of the classes in them, in order. -/
def entered (documents : Bindings (List Symbol)) : List Symbol :=
  documents.values.flatMap (·.flatMap (·.flatten))

/-- **What the index of documents holds under a name.** -/
theorem get?_ofDocuments (documents : Bindings (List Symbol)) (name : String) :
    (ofDocuments documents).get? name = listed (among (entered documents) name) := by
  have hempty : ∀ name, (.empty : Index).get? name = listed (among [] name) := fun _ => rfl
  exact get?_foldl_enter (entered documents) hempty name

end Index
end Editor
end LoxKit
