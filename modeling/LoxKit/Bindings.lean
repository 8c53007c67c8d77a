/-!
# Bindings in order of arrival

A finite map from names to values that remembers the order in which names were first
bound.  Binding a name again changes its value and keeps its place.
-/
namespace LoxKit

/-- **Names with their values**, in the order in which the names were first bound. -/
structure Bindings (α : Type u) where
  entries : List (String × α) := []
  deriving DecidableEq

namespace Bindings

variable {α : Type u}

instance : Inhabited (Bindings α) := ⟨{}⟩

/-- No bindings. -/
def empty : Bindings α := {}

/-- The value of a name, if it is bound. -/
def get? (b : Bindings α) (name : String) : Option α := b.entries.lookup name

/-- Whether a name is bound. -/
def contains (b : Bindings α) (name : String) : Bool := b.entries.any (·.1 == name)

/-- The bound names in order. -/
def names (b : Bindings α) : List String := b.entries.map (·.1)

/-- The bound values in order. -/
def values (b : Bindings α) : List α := b.entries.map (·.2)

/-- Replaces the value of a name where it is bound. -/
def replace (b : Bindings α) (name : String) (v : α) : Bindings α :=
  ⟨b.entries.map fun e => if e.1 == name then (name, v) else e⟩

/-- Binds a name, whether it is bound already or not. -/
def put (b : Bindings α) (name : String) (v : α) : Bindings α :=
  if b.contains name then b.replace name v else ⟨b.entries ++ [(name, v)]⟩

/-- Bindings made one after the other. -/
def ofList (entries : List (String × α)) : Bindings α :=
  entries.foldl (fun b e => b.put e.1 e.2) empty

@[simp] theorem get?_empty (x : String) : (empty : Bindings α).get? x = none := rfl

@[simp] theorem contains_empty (x : String) : (empty : Bindings α).contains x = false := rfl

/-- A name is bound exactly if it has a value. -/
theorem isSome_get? (b : Bindings α) (x : String) : (b.get? x).isSome = b.contains x := by
  obtain ⟨l⟩ := b
  simp only [get?, contains]
  induction l with
  | nil => rfl
  | cons e l ih =>
    obtain ⟨k, u⟩ := e
    by_cases h : x = k
    · subst h; simp
    · have hx : (x == k) = false := by simpa using h
      have hk : (k == x) = false := by simpa using fun h' => h h'.symm
      simp [List.lookup_cons, hx, hk, ih]

/-- A name that is not bound has no value. -/
theorem get?_eq_none {b : Bindings α} {x : String} (h : b.contains x = false) :
    b.get? x = none := by
  have hsome := b.isSome_get? x
  rw [h] at hsome
  simpa using hsome

/-- Replacing a value leaves the names and their order alone. -/
@[simp] theorem names_replace (b : Bindings α) (x : String) (v : α) :
    (b.replace x v).names = b.names := by
  simp only [replace, names, List.map_map]
  apply List.map_congr_left
  intro e _
  by_cases h : e.1 = x <;> simp [h]

/-- Binding a name adds it behind the others, unless it is there already. -/
theorem names_put (b : Bindings α) (x : String) (v : α) :
    (b.put x v).names = if b.contains x then b.names else b.names ++ [x] := by
  unfold put
  split
  · exact names_replace b x v
  · simp [names]

/-- Replacing a value changes what its name stands for, where it is bound, and no other. -/
theorem get?_replace (b : Bindings α) (x y : String) (v : α) :
    (b.replace x v).get? y = if y = x ∧ b.contains x then some v else b.get? y := by
  obtain ⟨l⟩ := b
  simp only [replace, get?, contains]
  induction l with
  | nil => simp
  | cons e l ih =>
    obtain ⟨k, u⟩ := e
    simp only [List.map_cons, List.any_cons]
    by_cases hk : k = x
    · by_cases hy : y = x
      · subst hy; simp [hk]
      · have hx : (y == x) = false := by simpa using hy
        simpa [List.lookup_cons, hk, hx, hy] using ih
    · have hk' : (k == x) = false := by simpa using hk
      by_cases hy : y = k
      · subst hy; simp [hk]
      · have hy' : (y == k) = false := by simpa using hy
        simp only [hk', List.lookup_cons, hy', Bool.false_or, Bool.false_eq_true, if_false]
        exact ih

/-- The name just bound has the value given; the others keep theirs. -/
theorem get?_put (b : Bindings α) (x y : String) (v : α) :
    (b.put x v).get? y = if y = x then some v else b.get? y := by
  unfold put
  by_cases hc : b.contains x
  · simp [hc, get?_replace]
  · have hx : b.get? x = none := get?_eq_none (by simpa using hc)
    simp only [hc, Bool.false_eq_true, if_false]
    have happ : (⟨b.entries ++ [(x, v)]⟩ : Bindings α).get? y
        = (b.get? y).or (if y = x then some v else none) := by
      simp only [get?, List.lookup_append]
      by_cases hy : y = x
      · simp [hy]
      · have hy' : (y == x) = false := by simpa using hy
        simp [List.lookup_cons, hy, hy']
    rw [happ]
    by_cases hy : y = x
    · subst hy; simp [hx]
    · simp [hy]

/-- The name just bound is bound, and the others are as before. -/
theorem contains_put (b : Bindings α) (x y : String) (v : α) :
    (b.put x v).contains y = (y == x || b.contains y) := by
  rw [← isSome_get?, ← isSome_get?, get?_put]
  by_cases h : y = x <;> simp [h]

/-- There is nothing to replace where a name is not bound. -/
theorem replace_of_contains_eq_false {b : Bindings α} {x : String} (v : α)
    (h : b.contains x = false) : b.replace x v = b := by
  obtain ⟨l⟩ := b
  have hne : ∀ e ∈ l, (e.1 == x) = false := by
    intro e he
    rw [contains, List.any_eq_false] at h
    simpa using h e he
  have hmap : (l.map fun e => if e.1 == x then (x, v) else e) = l.map id :=
    List.map_congr_left fun e he => by simp [hne e he]
  rw [replace, hmap, List.map_id]

/-- Of two values given to a name, the later counts. -/
@[simp] theorem put_put (b : Bindings α) (x : String) (v w : α) :
    (b.put x v).put x w = b.put x w := by
  have hc : (b.put x v).contains x = true := by simp [contains_put]
  rw [put, if_pos hc]
  cases h : b.contains x with
  | true =>
    simp only [put, h, if_true, replace, List.map_map]
    congr 1
    apply List.map_congr_left
    intro e _
    by_cases he : e.1 = x <;> simp [he]
  | false =>
    have hself := congrArg entries (replace_of_contains_eq_false w h)
    simp only [replace] at hself
    simp only [put, h, Bool.false_eq_true, if_false, replace, List.map_append, hself]
    simp

@[simp] theorem get?_singleton (x y : String) (v : α) :
    (ofList [(x, v)]).get? y = if y = x then some v else none :=
  get?_put empty x y v

/-- One binding binds nothing else. -/
theorem of_get?_singleton {x y : String} {v w : α} (h : (ofList [(x, v)]).get? y = some w) :
    y = x ∧ w = v := by
  rw [get?_singleton] at h
  split at h <;> cases h
  exact ⟨‹_›, rfl⟩

@[simp] theorem contains_singleton (x y : String) (v : α) :
    (ofList [(x, v)]).contains y = (y == x) := by
  rw [← isSome_get?, get?_singleton]
  by_cases h : y = x <;> simp [h]

/-- Bindings made onto others bind what either binds. -/
theorem contains_foldl_put (es : List (String × α)) (b : Bindings α) (x : String) :
    (es.foldl (fun b e => b.put e.1 e.2) b).contains x =
      (es.any (·.1 == x) || b.contains x) := by
  induction es generalizing b with
  | nil => rfl
  | cons e es ih =>
    rw [List.foldl_cons, ih, contains_put, List.any_cons, Bool.beq_comm (a := x)]
    cases e.1 == x <;> simp

theorem contains_ofList (es : List (String × α)) (x : String) :
    (ofList es).contains x = es.any (·.1 == x) := by
  rw [ofList, contains_foldl_put, contains_empty, Bool.or_false]

/-- What is bound by bindings made onto others is among both. -/
theorem mem_of_get?_foldl_put {es : List (String × α)} {b : Bindings α} {x : String} {v : α}
    (h : (es.foldl (fun b e => b.put e.1 e.2) b).get? x = some v) :
    (x, v) ∈ es ∨ b.get? x = some v := by
  induction es generalizing b with
  | nil => exact .inr h
  | cons e es ih =>
    rcases ih h with h | h
    · exact .inl (List.mem_cons_of_mem _ h)
    · rw [get?_put] at h
      split at h
      · cases h
        rename_i hx
        exact .inl (by rw [hx]; exact List.mem_cons_self)
      · exact .inr h

/-- What is bound was given. -/
theorem mem_of_get?_ofList {es : List (String × α)} {x : String} {v : α}
    (h : (ofList es).get? x = some v) : (x, v) ∈ es :=
  (mem_of_get?_foldl_put h).resolve_right nofun

/-! ## Bindings side by side -/

section Rel

variable {β : Type v} {γ : Type w} {R : α → β → Prop}

/-- Bindings that are related go on to be so with related values put in. -/
theorem rel_foldl_put (key : γ → String) (f : γ → α) (g : γ → β) {l : List γ}
    (h : ∀ c ∈ l, R (f c) (g c)) {b : Bindings α} {b' : Bindings β}
    (hb : ∀ x, Option.Rel R (b.get? x) (b'.get? x)) (x : String) :
    Option.Rel R (((l.map fun c => (key c, f c)).foldl (fun b e => b.put e.1 e.2) b).get? x)
      (((l.map fun c => (key c, g c)).foldl (fun b e => b.put e.1 e.2) b').get? x) := by
  induction l generalizing b b' with
  | nil => exact hb x
  | cons c l ih =>
    refine ih (fun c' hc' => h c' (List.mem_cons_of_mem _ hc')) fun y => ?_
    rw [get?_put, get?_put]
    by_cases hy : y = key c
    · rw [if_pos hy, if_pos hy]
      exact .some (h c List.mem_cons_self)
    · rw [if_neg hy, if_neg hy]
      exact hb y

/-- Bindings of related values to the same names are related. -/
theorem rel_ofList (key : γ → String) (f : γ → α) (g : γ → β) {l : List γ}
    (h : ∀ c ∈ l, R (f c) (g c)) (x : String) :
    Option.Rel R ((ofList (l.map fun c => (key c, f c))).get? x)
      ((ofList (l.map fun c => (key c, g c))).get? x) :=
  rel_foldl_put key f g h (fun _ => .none) x

end Rel

end Bindings
end LoxKit
