import LoxKit.Proofs.Store.Links
import LoxKit.Store.Request

/-!
# Access by name and by distance

Frames are shared: many chains of frames meet in one, and what is written through one chain is read
through the others.  A store that has come about by requests (`Store.Built`) links each frame to an
earlier one, so the search for a name ends at the nearest frame that binds it.  At the distance of
this frame, access by name and access by distance are one and the same: they read one value, and
they leave one store behind, in which a single binding of a single frame has changed
(`Store.Built.accesses_agree`).

Where another chain leads, the name stands for what was written exactly if the frame is the nearest
one there too (`Store.Rebinds.get`).
-/
namespace LoxKit
namespace Store

variable {α : Type} {s t : Store α}

/-! ## Stores that come about -/

/-- **A request is about frames that are there.** -/
def Request.Fits (s : Store α) : Request α → Prop
  | .new enclosing => ∀ p ∈ enclosing, p < s.frames.size
  | .define f _ _ | .get f _ | .assign f _ _ | .ancestor f _ | .getAt f _ _ | .assignAt f _ _ _ =>
    f < s.frames.size

/-- **The stores that come about** by answering requests. -/
inductive Built : Store α → Prop where
  | empty : Built {}
  | step {s : Store α} {r : Request α} : Built s → r.Fits s → Built (s.perform r).2

/-- A change that fails leaves the store as it was. -/
theorem settle_error {r : Except AccessFault (Store α)} {e : AccessFault}
    (h : (s.settle r).1 = .error e) : (s.settle r).2 = s := by
  cases r with
  | ok t => cases h
  | error fault => rfl

/-- **A request that fails leaves the store as it was.** -/
theorem perform_error {r : Request α} {e : AccessFault} (h : (s.perform r).1 = .error e) :
    (s.perform r).2 = s := by
  cases r with
  | new enclosing => cases h
  | define f x v => cases h
  | get | ancestor | getAt => rfl
  | assign | assignAt => exact settle_error h

/-- Links are kept where a name is found and defined anew, and where it is not found. -/
theorem Linked.settle (hs : s.Linked) {r : Except AccessFault FrameId} (x : String) (v : α) :
    (s.settle (return s.define (← r) x v)).2.Linked := by
  cases r with
  | ok g => exact hs.define g x v
  | error fault => exact hs

/-- A request keeps the links of a store. -/
theorem Linked.perform (hs : s.Linked) {r : Request α} (hr : r.Fits s) :
    (s.perform r).2.Linked := by
  cases r with
  | new enclosing => exact hs.new hr .empty
  | define f x v => exact hs.define f x v
  | get | ancestor | getAt => exact hs
  | assign f x v => exact hs.settle (r := s.locate f x) x v
  | assignAt f d x v => exact hs.settle (r := s.locateAt f d x) x v

/-- **In a store that has come about, links lead to earlier frames.** -/
theorem Built.linked (h : s.Built) : s.Linked := by
  induction h with
  | empty => exact Linked.empty
  | step _ hr ih => exact ih.perform hr

/-! ## A single binding -/

/-- **One store is another but for a single binding**: in the frame `g` the name `x`, which is
bound there already, has the value `v`. -/
structure Rebinds (s t : Store α) (g : FrameId) (x : String) (v : α) : Prop where
  size : t.frames.size = s.frames.size
  others : ∀ i, i ≠ g → t.frames[i]? = s.frames[i]?
  enclosing : t.enclosing? g = s.enclosing? g
  bound : (s.bindings g).contains x
  names : (t.bindings g).names = (s.bindings g).names
  value : (t.bindings g).get? x = some v
  values : ∀ y, y ≠ x → (t.bindings g).get? y = (s.bindings g).get? y

/-- To define a name that is bound is to change its binding. -/
theorem rebinds_define {g : FrameId} {x : String} (v : α) (hx : (s.bindings g).contains x) :
    s.Rebinds (s.define g x v) g x v := by
  have hput : (s.define g x v).bindings g = (s.bindings g).put x v := by
    rw [bindings_define _ _ _ _ _ (lt_size_of_contains hx), if_pos rfl]
  refine ⟨size_define .., fun i hi => ?_, enclosing?_define .., hx, ?_, ?_, fun y hy => ?_⟩
  · rw [define, Array.getElem?_modify, if_neg hi.symm]
  · rw [hput, Bindings.names_put, if_pos hx]
  · rw [hput, Bindings.get?_put, if_pos rfl]
  · rw [hput, Bindings.get?_put, if_neg hy]

/-- A search depends on the links of the frames and on what they bind. -/
theorem holder?_congr (henclosing : ∀ f, t.enclosing? f = s.enclosing? f) {x : String}
    (hbinds : ∀ f, (t.bindings f).contains x = (s.bindings f).contains x) (f : FrameId) :
    t.holder? x f = s.holder? x f := by
  induction f using Nat.strongRecOn with
  | ind f ih =>
    rw [holder?, holder?, hbinds f, henclosing f]
    congr 1
    cases s.enclosing? f with
    | none => rfl
    | some p =>
      dsimp only
      split
      · exact ih p ‹_›
      · rfl

namespace Rebinds

variable {g : FrameId} {x : String} {v : α}

theorem enclosing? (h : s.Rebinds t g x v) (f : FrameId) : t.enclosing? f = s.enclosing? f := by
  by_cases hf : f = g
  · rw [hf, h.enclosing]
  · rw [Store.enclosing?, Store.enclosing?, h.others f hf]

theorem bindings (h : s.Rebinds t g x v) {f : FrameId} (hf : f ≠ g) :
    t.bindings f = s.bindings f := by
  rw [Store.bindings, Store.bindings, h.others f hf]

theorem get? (h : s.Rebinds t g x v) (f : FrameId) (y : String) :
    (t.bindings f).get? y = if f = g ∧ y = x then some v else (s.bindings f).get? y := by
  by_cases hf : f = g
  · subst hf
    by_cases hy : y = x
    · rw [if_pos ⟨rfl, hy⟩, hy, h.value]
    · rw [if_neg (fun hfy => hy hfy.2), h.values y hy]
  · rw [if_neg (fun hfy => hf hfy.1), h.bindings hf]

/-- No frame has another name than before. -/
theorem contains (h : s.Rebinds t g x v) (f : FrameId) (y : String) :
    (t.bindings f).contains y = (s.bindings f).contains y := by
  rw [← Bindings.isSome_get?, h.get?, ← Bindings.isSome_get?]
  split
  · rename_i hfy
    rw [hfy.1, hfy.2, Bindings.isSome_get?, h.bound]
    rfl
  · rfl

/-- Names are found where they were. -/
theorem locate (h : s.Rebinds t g x v) (f : FrameId) (y : String) :
    t.locate f y = s.locate f y := by
  rw [Store.locate, Store.locate, holder?_congr h.enclosing? (h.contains · y)]

/-- **A write is seen through every chain** on which the frame is the nearest one that binds the
name, and through no other; nor is it seen by other names. -/
theorem get (h : s.Rebinds t g x v) (f : FrameId) (y : String) :
    t.get f y = if y = x ∧ s.holder? x f = some g then .ok v else s.get f y := by
  rw [Store.get, Store.get, h.locate, Store.locate]
  cases hf : s.holder? y f with
  | none =>
    rw [if_neg]
    · rfl
    · rintro ⟨rfl, hg⟩
      rw [hf] at hg
      cases hg
  | some g' =>
    show t.read g' y = if y = x ∧ s.holder? x f = some g then .ok v else s.read g' y
    rw [read, h.get?, read]
    by_cases hy : y = x
    · subst hy
      by_cases hg : g' = g
      · rw [hf, hg, if_pos ⟨rfl, rfl⟩, if_pos ⟨rfl, rfl⟩]
      · rw [hf, if_neg (fun h' => hg h'.1), if_neg fun h' => hg (Option.some.inj h'.2)]
    · rw [if_neg (fun h' => hy h'.2), if_neg fun h' => hy h'.1]

end Rebinds

/-! ## The nearest frame and its distance -/

section Linked

variable {f g : FrameId} {x : String} {d : Nat}

/-- A search ends in the nearest frame, ... -/
theorem Linked.locate (hs : s.Linked) (h : s.Nearest f x d g) : s.locate f x = .ok g := by
  rw [Store.locate, hs.holder?_of_nearest h]

/-- ... which is the one at its distance. -/
theorem Reaches.locateAt (h : s.Reaches f x d g) : s.locateAt f d x = .ok g :=
  locateAt_of_contains (by rw [Int.toNat_natCast]; exact h.outward) h.binds

/-- **The value read by name and by distance** is that of the nearest frame. -/
theorem Linked.get_eq_getAt (hs : s.Linked) (h : s.Nearest f x d g) :
    ∃ w, (s.bindings g).get? x = some w ∧ s.get f x = .ok w ∧ s.getAt f d x = .ok w := by
  obtain ⟨w, hw⟩ := Option.isSome_iff_exists.mp ((Bindings.isSome_get? _ x).trans h.binds)
  have hread : s.read g x = .ok w := by rw [read, hw]
  refine ⟨w, hw, ?_, ?_⟩
  · rw [get, hs.locate h]
    exact hread
  · rw [getAt, h.locateAt]
    exact hread

/-- **The store left by name and by distance** is the one with the binding of the nearest frame
changed. -/
theorem Linked.assign_eq_assignAt (hs : s.Linked) (h : s.Nearest f x d g) (v : α) :
    ∃ t, s.assign f x v = .ok t ∧ s.assignAt f d x v = .ok t ∧ s.Rebinds t g x v := by
  refine ⟨s.define g x v, ?_, ?_, rebinds_define v h.binds⟩
  · rw [assign, hs.locate h]
    rfl
  · rw [assignAt, h.locateAt]
    rfl

/-- A name that no frame outward binds is undefined. -/
theorem Linked.undefined (hs : s.Linked) (h : ∀ d g, ¬s.Reaches f x d g) (v : α) :
    s.get f x = .error (.undefined x) ∧ s.assign f x v = .error (.undefined x) := by
  have hlocate : s.locate f x = .error (.undefined x) := by
    rw [Store.locate, hs.holder?_eq_none_iff.mpr h]
  constructor
  · rw [get, hlocate]
    rfl
  · rw [assign, hlocate]
    rfl

end Linked

/-- **Access by name and access by distance agree**, in every store that has come about by requests
and from every frame.  A name is read exactly if some frame outward binds it.  Then one of these
frames is the nearest, and at its distance the two ways of access read one value, that of the
nearest frame, and leave one store behind, in which this frame has another value for the name and
all else is as before; if there is no such frame the name is undefined for both.  Whatever is asked
for and fails leaves the store as it was. -/
theorem Built.accesses_agree (hs : s.Built) (f : FrameId) (x : String) (v : α) :
    ((∃ w, s.get f x = .ok w) ↔ ∃ d g, s.Reaches f x d g) ∧
    ((∃ d g, s.Reaches f x d g) → ∃ d g, s.Nearest f x d g) ∧
    (∀ d g, s.Nearest f x d g →
      (∃ w, (s.bindings g).get? x = some w ∧ s.get f x = .ok w ∧ s.getAt f d x = .ok w) ∧
      ∃ t, s.assign f x v = .ok t ∧ s.assignAt f d x v = .ok t ∧ s.Rebinds t g x v) ∧
    ((∀ d g, ¬s.Reaches f x d g) →
      s.get f x = .error (.undefined x) ∧ s.assign f x v = .error (.undefined x)) ∧
    ∀ (r : Request α) e, (s.perform r).1 = .error e → (s.perform r).2 = s := by
  have hl := hs.linked
  refine ⟨⟨?_, ?_⟩, fun ⟨_, _, h⟩ => h.nearest,
    fun d g h => ⟨hl.get_eq_getAt h, hl.assign_eq_assignAt h v⟩, (hl.undefined · v),
    fun _ _ => perform_error⟩
  · rintro ⟨w, hw⟩
    by_contra hnone
    rw [(hl.undefined (fun d g h => hnone ⟨d, g, h⟩) v).1] at hw
    cases hw
  · rintro ⟨_, _, h⟩
    obtain ⟨d, g, hnear⟩ := h.nearest
    obtain ⟨w, -, hw, -⟩ := hl.get_eq_getAt hnear
    exact ⟨w, hw⟩

/-- Two chains that meet in the frame 0: the frames 2 and 1, of which 1 binds `a` as well, and the
frame 3. -/
def meeting : Store Nat :=
  [.new none, .define 0 "a" 1, .define 0 "b" 2, .new (some 0), .define 1 "a" 3, .new (some 1),
    .new (some 0)].foldl (fun s (r : Request Nat) => (s.perform r).2) {}

/-- What is written to `a` at the frame 2 is written to the frame 1, one link outward; and at the
distance 0 there is nothing to be written to. -/
theorem Built.accesses_agree_of_meeting :
    meeting.Built ∧ meeting.Nearest 2 "a" 1 1 ∧
    meeting.get 2 "a" = .ok 3 ∧ meeting.getAt 2 1 "a" = .ok 3 ∧ meeting.get 3 "a" = .ok 1 ∧
    (∃ t, meeting.assign 2 "a" 9 = .ok t ∧ meeting.assignAt 2 1 "a" 9 = .ok t ∧
      meeting.Rebinds t 1 "a" 9) ∧
    (meeting.perform (.assignAt 2 0 "a" 9)).1 = .error (.missing "a" 0) ∧
    (meeting.perform (.assignAt 2 0 "a" 9)).2 = meeting := by
  have hbuilt : meeting.Built := by
    refine .step (.step (.step (.step (.step (.step (.step .empty ?_) ?_) ?_) ?_) ?_) ?_) ?_
    all_goals simp [Request.Fits, perform, settle]
  have hnear : meeting.Nearest 2 "a" 1 1 :=
    .further (p := 1) (by decide +kernel) (by decide +kernel) (.here (by decide +kernel))
  obtain ⟨-, -, hagree, -, hunchanged⟩ := hbuilt.accesses_agree 2 "a" 9
  obtain ⟨-, hassign⟩ := hagree 1 1 hnear
  have hmissing : (meeting.perform (.assignAt 2 0 "a" 9)).1 = .error (.missing "a" 0) := rfl
  exact ⟨hbuilt, hnear, by decide +kernel, by decide +kernel, by decide +kernel, hassign,
    hmissing, hunchanged _ _ hmissing⟩

end Store
end LoxKit
