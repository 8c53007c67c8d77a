import LoxKit.Store
import Mathlib.Data.Nat.Find

/-!
# Where links lead

In a store whose links all lead to earlier frames (`Store.Linked`), the frames outward of a frame
are one fewer with each link, and there is no link from the first frame.  So a search by name,
which follows the links, comes to an end, and it finds the nearest frame that binds the name
(`Store.Linked.holder?_eq_some_iff`); that a link might lead elsewhere is of no account to it
(`Store.Linked.holder?_eq`).
-/
namespace LoxKit
namespace Store

variable {α : Type} {s : Store α}

/-- **Every link leads to an earlier frame.** -/
def Linked (s : Store α) : Prop := ∀ f p, s.enclosing? f = some p → p < f

/-- **A frame so many links outward binds a name.** -/
structure Reaches (s : Store α) (f : FrameId) (x : String) (d : Nat) (g : FrameId) : Prop where
  outward : s.outward? f d = some g
  binds : (s.bindings g).contains x

/-- **The nearest frame outward that binds a name.** -/
structure Nearest (s : Store α) (f : FrameId) (x : String) (d : Nat) (g : FrameId) : Prop
    extends s.Reaches f x d g where
  first : ∀ d' g', s.Reaches f x d' g' → d ≤ d'

/-! ## The nearest frame -/

/-- If some frame outward binds a name, one of them is the nearest. -/
theorem Reaches.nearest {f g : FrameId} {x : String} {d : Nat} (h : s.Reaches f x d g) :
    ∃ d g, s.Nearest f x d g := by
  classical
  -- at the least distance at which there is such a frame
  have hex : ∃ d, ∃ g, s.Reaches f x d g := ⟨d, g, h⟩
  obtain ⟨g', hg'⟩ := Nat.find_spec hex
  exact ⟨Nat.find hex, g', hg', fun d' g'' h' => Nat.find_min' hex ⟨g'', h'⟩⟩

/-- A frame that binds the name is the nearest one to itself. -/
theorem Nearest.here {f : FrameId} {x : String} (hx : (s.bindings f).contains x) :
    s.Nearest f x 0 f := ⟨⟨rfl, hx⟩, fun _ _ _ => Nat.zero_le _⟩

/-- Where a frame does not bind the name, the nearest one is that of the frame around it. -/
theorem Nearest.further {f p g : FrameId} {x : String} {d : Nat}
    (hx : (s.bindings f).contains x = false) (hp : s.enclosing? f = some p)
    (h : s.Nearest p x d g) : s.Nearest f x (d + 1) g := by
  have hstep (n : Nat) : s.outward? f (n + 1) = s.outward? p n := by simp [outward?, hp]
  refine ⟨⟨(hstep d).trans h.outward, h.binds⟩, fun d' g' h' => ?_⟩
  cases d' with
  | zero =>
    have hfg : f = g' := Option.some.inj h'.outward
    rw [hfg, h'.binds] at hx
    cases hx
  | succ d' => exact Nat.succ_le_succ (h.first d' g' ⟨(hstep d').symm.trans h'.outward, h'.binds⟩)

/-- What a search finds is the nearest frame. -/
theorem nearest_of_holder? {f g : FrameId} {x : String} (h : s.holder? x f = some g) :
    ∃ d, s.Nearest f x d g := by
  induction f using Nat.strongRecOn with
  | ind f ih =>
    unfold holder? at h
    split at h
    · rename_i hx
      cases h
      exact ⟨0, .here hx⟩
    · rename_i hx
      split at h
      · cases h
      · rename_i p hp
        split at h
        · rename_i hlt
          obtain ⟨d, hd⟩ := ih p hlt h
          exact ⟨d + 1, .further (by simpa using hx) hp hd⟩
        · cases h

namespace Linked

variable {f g : FrameId} {x : String} {d : Nat}

/-- A frame outward is earlier by at least as many frames as there are links. -/
theorem outward_add_le (hs : s.Linked) (h : s.outward? f d = some g) : g + d ≤ f := by
  induction d generalizing g with
  | zero => cases h; simp
  | succ d ih =>
    rw [outward?_succ, Option.bind_eq_some_iff] at h
    obtain ⟨p, hp, hg⟩ := h
    calc g + (d + 1) = (g + 1) + d := by rw [Nat.add_assoc, Nat.add_comm 1]
      _ ≤ p + d := Nat.add_le_add_right (hs p g hg) d
      _ ≤ f := ih hp

/-- **Links come to an end**, after no more of them than there are earlier frames. -/
theorem outward?_eq_none (hs : s.Linked) (h : f < d) : s.outward? f d = none := by
  cases hg : s.outward? f d with
  | none => rfl
  | some g =>
    have hle : d ≤ f := Nat.le_trans (Nat.le_add_left d g) (hs.outward_add_le hg)
    exact absurd h (Nat.not_lt.mpr hle)

/-- **A search follows the links** up to a frame that binds the name. -/
theorem holder?_eq (hs : s.Linked) (x : String) (f : FrameId) :
    s.holder? x f =
      if (s.bindings f).contains x then some f else (s.enclosing? f).bind (s.holder? x) := by
  rw [holder?]
  congr 1
  -- the frame around is an earlier one, so the search is not broken off there
  cases hp : s.enclosing? f with
  | none => rfl
  | some p => exact if_pos (hs f p hp)

/-- A search finds the nearest frame. -/
theorem holder?_of_nearest (hs : s.Linked) (h : s.Nearest f x d g) : s.holder? x f = some g := by
  induction d generalizing f with
  | zero =>
    cases h.outward
    rw [hs.holder?_eq, if_pos h.binds]
  | succ d ih =>
    have hx : (s.bindings f).contains x = false := by
      cases hx : (s.bindings f).contains x with
      | false => rfl
      | true => exact absurd (h.first 0 f ⟨rfl, hx⟩) (Nat.not_succ_le_zero d)
    obtain ⟨p, hp, hg⟩ := Option.bind_eq_some_iff.mp h.outward
    have hstep (n : Nat) : s.outward? f (n + 1) = s.outward? p n := by simp [outward?, hp]
    rw [hs.holder?_eq, hx, if_neg Bool.false_ne_true, hp]
    refine ih ⟨⟨hg, h.binds⟩, fun d' g' h' => Nat.le_of_succ_le_succ ?_⟩
    exact h.first (d' + 1) g' ⟨(hstep d').trans h'.outward, h'.binds⟩

/-- **A search finds exactly the nearest frame** that binds the name, ... -/
theorem holder?_eq_some_iff (hs : s.Linked) :
    s.holder? x f = some g ↔ ∃ d, s.Nearest f x d g :=
  ⟨nearest_of_holder?, fun ⟨_, h⟩ => hs.holder?_of_nearest h⟩

/-- ... and none exactly if no frame outward binds it. -/
theorem holder?_eq_none_iff (hs : s.Linked) :
    s.holder? x f = none ↔ ∀ d g, ¬s.Reaches f x d g := by
  rw [Option.eq_none_iff_forall_ne_some]
  constructor
  · intro h d g hreach
    obtain ⟨d', g', hnear⟩ := hreach.nearest
    exact h g' (hs.holder?_of_nearest hnear)
  · intro h g hg
    obtain ⟨d, hd⟩ := nearest_of_holder? hg
    exact h d g hd.toReaches

/-! ## What keeps links -/

/-- A store without frames. -/
theorem empty : ({} : Store α).Linked := by
  intro f p h
  simp [enclosing?] at h

/-- A new frame may lie in any frame that is there. -/
theorem new (hs : s.Linked) {e : Option FrameId} (he : ∀ p ∈ e, p < s.frames.size)
    (b : Bindings α) : (s.new e b).2.Linked := by
  intro f p hp
  rw [enclosing?_new] at hp
  split at hp
  · rename_i hf
    rw [hf]
    exact he p hp
  · exact hs f p hp

theorem define (hs : s.Linked) (f : FrameId) (x : String) (v : α) : (s.define f x v).Linked := by
  intro g p hp
  rw [enclosing?_define] at hp
  exact hs g p hp

end Linked
end Store
end LoxKit
