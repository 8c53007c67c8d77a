import LoxKit.Bindings
import LoxKit.Text.Quoted

/-!
# A store of frames

A frame binds names and may be enclosed by another frame.  Frames live in a store and are
known by their numbers; several closures may share one, so a change of a frame is seen
wherever it is known.  A new frame gets the next number, hence its enclosing frame has a
smaller one, and every walk outward ends.

A binding is reached in two ways: by name, in the nearest frame outward that binds it, or
by distance, in the frame that lies exactly so many links outward.
-/
namespace LoxKit

/-- The number of a frame in its store. -/
abbrev FrameId := Nat

/-- **A frame**: its own bindings and the frame around it. -/
structure Frame (α : Type) where
  bindings : Bindings α := .empty
  enclosing : Option FrameId := none

/-- **A store of frames**, in the order of their creation. -/
structure Store (α : Type) where
  frames : Array (Frame α) := #[]

/-- **Why a binding cannot be reached.** -/
inductive AccessFault where
  /-- No frame outward binds the name. -/
  | undefined (name : String)
  /-- There are fewer frames outward than the distance asked for. -/
  | noFrame (distance : Int)
  /-- The frame at the distance does not bind the name. -/
  | missing (name : String) (distance : Int)
  deriving DecidableEq

namespace Store

variable {α : Type}

instance : Inhabited (Store α) := ⟨{}⟩

/-- The frame around a frame. -/
def enclosing? (s : Store α) (f : FrameId) : Option FrameId := s.frames[f]?.bind (·.enclosing)

/-- The bindings of a frame. -/
def bindings (s : Store α) (f : FrameId) : Bindings α :=
  (s.frames[f]?.map (·.bindings)).getD .empty

/-- A new frame with some bindings. -/
def new (s : Store α) (enclosing : Option FrameId) (bindings : Bindings α := .empty) :
    FrameId × Store α :=
  (s.frames.size, ⟨s.frames.push ⟨bindings, enclosing⟩⟩)

/-- Binds a name in a frame, whether the frame binds it already or not. -/
def define (s : Store α) (f : FrameId) (name : String) (v : α) : Store α :=
  ⟨s.frames.modify f fun fr => { fr with bindings := fr.bindings.put name v }⟩

/-- The nearest frame outward that binds a name, beginning with the given one. -/
def holder? (s : Store α) (name : String) (f : FrameId) : Option FrameId :=
  if (s.bindings f).contains name then some f
  else
    match s.enclosing? f with
    | none => none
    | some p => if p < f then s.holder? name p else none
termination_by f

/-- The frame so many links outward. -/
def outward? (s : Store α) (f : FrameId) : Nat → Option FrameId
  | 0 => some f
  | n + 1 => do s.outward? (← s.enclosing? f) n

/-- The frame at a distance.  A distance of nothing or less means the frame itself. -/
def ancestor (s : Store α) (f : FrameId) (distance : Int) : Except AccessFault FrameId :=
  match s.outward? f distance.toNat with
  | some g => .ok g
  | none => .error (.noFrame distance)

/-- **Finds a name by search**: the nearest frame outward that binds it. -/
def locate (s : Store α) (f : FrameId) (name : String) : Except AccessFault FrameId :=
  match s.holder? name f with
  | some g => .ok g
  | none => .error (.undefined name)

/-- **Finds a name by distance**: exactly the frame at the distance, which has to bind it. -/
def locateAt (s : Store α) (f : FrameId) (distance : Int) (name : String) :
    Except AccessFault FrameId := do
  let g ← s.ancestor f distance
  if (s.bindings g).contains name then return g
  else throw (.missing name distance)

/-- The value of a name in a frame. -/
def read (s : Store α) (f : FrameId) (name : String) : Except AccessFault α :=
  match (s.bindings f).get? name with
  | some v => .ok v
  | none => .error (.undefined name)

/-- Reads a name from the nearest frame outward that binds it. -/
def get (s : Store α) (f : FrameId) (name : String) : Except AccessFault α := do
  s.read (← s.locate f name) name

/-- Gives a name a new value in the nearest frame outward that binds it. -/
def assign (s : Store α) (f : FrameId) (name : String) (v : α) :
    Except AccessFault (Store α) :=
  return s.define (← s.locate f name) name v

/-- Reads a name from exactly the frame at a distance. -/
def getAt (s : Store α) (f : FrameId) (distance : Int) (name : String) :
    Except AccessFault α := do
  s.read (← s.locateAt f distance name) name

/-- Gives a name a new value in exactly the frame at a distance. -/
def assignAt (s : Store α) (f : FrameId) (distance : Int) (name : String) (v : α) :
    Except AccessFault (Store α) :=
  return s.define (← s.locateAt f distance name) name v

/-! ## What the operations do to the view of the frames -/

@[simp] theorem size_new (s : Store α) (e : Option FrameId) (b : Bindings α) :
    (s.new e b).2.frames.size = s.frames.size + 1 := by
  simp [new]

@[simp] theorem size_define (s : Store α) (f : FrameId) (x : String) (v : α) :
    (s.define f x v).frames.size = s.frames.size := by
  simp [define]

/-- A new frame has the bindings given to it, and the others keep theirs. -/
theorem bindings_new (s : Store α) (e : Option FrameId) (b : Bindings α) (f : FrameId) :
    (s.new e b).2.bindings f = if f = s.frames.size then b else s.bindings f := by
  simp only [new, bindings, Array.getElem?_push]
  split <;> rfl

/-- A new frame lies in the frame given to it, and the others stay where they are. -/
theorem enclosing?_new (s : Store α) (e : Option FrameId) (b : Bindings α) (f : FrameId) :
    (s.new e b).2.enclosing? f = if f = s.frames.size then e else s.enclosing? f := by
  simp only [new, enclosing?, Array.getElem?_push]
  split <;> rfl

/-- Defining a name changes the bindings of its frame alone. -/
theorem bindings_define (s : Store α) (f g : FrameId) (x : String) (v : α)
    (hf : f < s.frames.size) :
    (s.define f x v).bindings g = if g = f then (s.bindings f).put x v else s.bindings g := by
  simp only [define, bindings, Array.getElem?_modify]
  by_cases h : g = f
  · subst h; simp [hf]
  · simp [h, Ne.symm h]

/-- To define a name in a new frame is to make the frame with it. -/
theorem define_new (s : Store α) (e : Option FrameId) (b : Bindings α) (x : String) (v : α) :
    (s.new e b).2.define s.frames.size x v = (s.new e (b.put x v)).2 := by
  simp only [new, define]
  congr 1
  apply Array.ext_getElem?
  intro i
  rw [Array.getElem?_modify, Array.getElem?_push, Array.getElem?_push]
  by_cases hi : i = s.frames.size
  · simp [hi]
  · simp [hi, Ne.symm hi]

/-- To define names in a new frame is to make the frame with them. -/
theorem foldl_define_new (s : Store α) (e : Option FrameId) (es : List (String × α))
    (b : Bindings α) :
    es.foldl (fun s' p => s'.define s.frames.size p.1 p.2) (s.new e b).2 =
      (s.new e (es.foldl (fun b p => b.put p.1 p.2) b)).2 := by
  induction es generalizing b with
  | nil => rfl
  | cons p es ih =>
    rw [List.foldl_cons, define_new]
    exact ih _

/-- Defining a name leaves the frames where they are. -/
@[simp] theorem enclosing?_define (s : Store α) (f g : FrameId) (x : String) (v : α) :
    (s.define f x v).enclosing? g = s.enclosing? g := by
  simp only [define, enclosing?, Array.getElem?_modify]
  by_cases h : f = g
  · subst h; cases s.frames[f]? <;> simp
  · simp [h]

/-- One link further outward. -/
theorem outward?_succ (s : Store α) (f : FrameId) (d : Nat) :
    s.outward? f (d + 1) = (s.outward? f d).bind s.enclosing? := by
  induction d generalizing f with
  | zero => cases h : s.enclosing? f <;> simp [outward?, h]
  | succ d ih =>
    rw [outward?, outward?]
    cases s.enclosing? f with
    | none => rfl
    | some g => exact ih g

/-- A frame that is none has no bindings. -/
theorem bindings_of_size_le (s : Store α) {f : FrameId} (h : s.frames.size ≤ f) :
    s.bindings f = .empty := by
  simp [bindings, Array.getElem?_eq_none h]

/-- Only frames are enclosed. -/
theorem lt_size_of_enclosing? {s : Store α} {f p : FrameId} (h : s.enclosing? f = some p) :
    f < s.frames.size := by
  rcases Nat.lt_or_ge f s.frames.size with hf | hf
  · exact hf
  · simp [enclosing?, Array.getElem?_eq_none hf] at h

/-- A frame that binds a name is a frame. -/
theorem lt_size_of_contains {s : Store α} {f : FrameId} {x : String}
    (h : (s.bindings f).contains x) : f < s.frames.size := by
  rcases Nat.lt_or_ge f s.frames.size with hf | hf
  · exact hf
  · simp [s.bindings_of_size_le hf] at h

/-- Where there is no frame, nothing is defined. -/
theorem define_of_size_le (s : Store α) {f : FrameId} (h : s.frames.size ≤ f) (x : String)
    (v : α) : s.define f x v = s := by
  rw [define]
  congr 1
  apply Array.ext_getElem?
  intro i
  rw [Array.getElem?_modify]
  split
  · rename_i hfi
    rw [← hfi, Array.getElem?_eq_none h]
    rfl
  · rfl

/-- What is bound behind a definition was bound before, or is what was defined. -/
theorem get?_define {s : Store α} {f g : FrameId} {x y : String} {v u : α}
    (h : ((s.define f x v).bindings g).get? y = some u) :
    u = v ∨ (s.bindings g).get? y = some u := by
  rcases Nat.lt_or_ge f s.frames.size with hf | hf
  · rw [bindings_define _ _ _ _ _ hf] at h
    split at h
    · rename_i hg
      rw [Bindings.get?_put] at h
      split at h
      · exact .inl (Option.some.inj h).symm
      · exact .inr (by rwa [hg])
    · exact .inr h
  · rw [define_of_size_le s hf] at h
    exact .inr h

/-- To give one name a value changes no other. -/
theorem get?_define_of_ne (s : Store α) (f g : FrameId) {x y : String} (v : α) (h : y ≠ x) :
    ((s.define f x v).bindings g).get? y = (s.bindings g).get? y := by
  rcases Nat.lt_or_ge f s.frames.size with hf | hf
  · rw [bindings_define _ _ _ _ _ hf]
    split
    · rename_i hg
      rw [Bindings.get?_put, if_neg h, hg]
    · rfl
  · rw [define_of_size_le s hf]

/-! ## What an access finds -/

/-- The frame found outward binds the name. -/
theorem contains_of_holder? {s : Store α} {x : String} {f g : FrameId}
    (h : s.holder? x f = some g) : (s.bindings g).contains x := by
  induction f using Nat.strongRecOn with
  | ind f ih =>
    unfold holder? at h
    split at h
    · rename_i hx
      cases h
      exact hx
    · split at h
      · cases h
      · rename_i p _
        by_cases hp : p < f
        · exact ih p hp (by simpa [hp] using h)
        · simp [hp] at h

/-- A name that is located is bound there. -/
theorem contains_of_locate {s : Store α} {f g : FrameId} {x : String}
    (h : s.locate f x = .ok g) : (s.bindings g).contains x := by
  unfold locate at h
  split at h
  · cases h
    exact contains_of_holder? ‹_›
  · cases h

/-- A name that is located at a distance is bound there. -/
theorem contains_of_locateAt {s : Store α} {f g : FrameId} {d : Int} {x : String}
    (h : s.locateAt f d x = .ok g) : (s.bindings g).contains x := by
  unfold locateAt at h
  cases hg : s.ancestor f d with
  | error e =>
    rw [hg] at h
    cases h
  | ok g' =>
    rw [hg] at h
    change (if (s.bindings g').contains x then Except.ok g' else _) = Except.ok g at h
    split at h
    · cases h
      assumption
    · cases h

/-- A name that is not located is bound nowhere outward. -/
theorem locate_error {s : Store α} {f : FrameId} {x : String} {e : AccessFault}
    (h : s.locate f x = .error e) : e = .undefined x := by
  unfold locate at h
  split at h
  · cases h
  · cases h
    rfl

/-- A value that is read in a frame is bound there. -/
theorem get?_of_read {s : Store α} {g : FrameId} {x : String} {v : α} (h : s.read g x = .ok v) :
    (s.bindings g).get? x = some v := by
  unfold read at h
  split at h
  · cases h
    assumption
  · cases h

/-- A value that is read is bound in some frame, ... -/
theorem bound_of_get {s : Store α} {f : FrameId} {x : String} {v : α} (h : s.get f x = .ok v) :
    ∃ g, (s.bindings g).get? x = some v := by
  unfold get at h
  cases hg : s.locate f x with
  | error e => rw [hg] at h; cases h
  | ok g =>
    rw [hg] at h
    exact ⟨g, get?_of_read h⟩

/-- ... and so is a value that is read at a distance. -/
theorem bound_of_getAt {s : Store α} {f : FrameId} {d : Int} {x : String} {v : α}
    (h : s.getAt f d x = .ok v) : ∃ g, (s.bindings g).get? x = some v := by
  unfold getAt at h
  cases hg : s.locateAt f d x with
  | error e => rw [hg] at h; cases h
  | ok g =>
    rw [hg] at h
    exact ⟨g, get?_of_read h⟩

/-- A name that is not read is undefined. -/
theorem get_error {s : Store α} {f : FrameId} {x : String} {e : AccessFault}
    (h : s.get f x = .error e) : e = .undefined x := by
  unfold get at h
  cases hg : s.locate f x with
  | error e' =>
    rw [hg] at h
    cases h
    exact locate_error hg
  | ok g =>
    rw [hg] at h
    change s.read g x = .error e at h
    unfold read at h
    split at h
    · cases h
    · cases h
      rfl

/-- A name is located at a distance if the frame there binds it, ... -/
theorem locateAt_of_contains {s : Store α} {f g : FrameId} {d : Int} {x : String}
    (hg : s.outward? f d.toNat = some g) (hx : (s.bindings g).contains x) :
    s.locateAt f d x = .ok g := by
  simp only [locateAt, ancestor, hg, bind, Except.bind, hx, if_true]
  rfl

/-- ... and missing there if it does not. -/
theorem locateAt_of_not_contains {s : Store α} {f g : FrameId} {d : Int} {x : String}
    (hg : s.outward? f d.toNat = some g) (hx : (s.bindings g).contains x = false) :
    s.locateAt f d x = .error (.missing x d) := by
  simp only [locateAt, ancestor, hg, bind, Except.bind, hx, Bool.false_eq_true, if_false]
  rfl

/-- The value bound in the frame at a distance is what is read there. -/
theorem getAt_of_bound {s : Store α} {f g : FrameId} {d : Int} {x : String} {v : α}
    (hg : s.outward? f d.toNat = some g) (hv : (s.bindings g).get? x = some v) :
    s.getAt f d x = .ok v := by
  have hx : (s.bindings g).contains x := by rw [← Bindings.isSome_get?, hv]; rfl
  simp only [getAt, locateAt_of_contains hg hx, bind, Except.bind, read, hv]

/-- A frame in listings: its names, and whether a frame encloses it. -/
def inspect (s : Store α) (f : FrameId) : String :=
  let names := ", ".intercalate ((s.bindings f).names.map Text.quoted)
  let enclosed := if (s.enclosing? f).isSome then "True" else "False"
  s!"Environment([{names}], enclosing={enclosed})"

end Store

/-- What an unreachable binding means. -/
def AccessFault.message : AccessFault → String
  | undefined name => s!"Undefined variable '{name}'."
  | noFrame distance => s!"No enclosing scope at distance {distance}"
  | missing name distance => s!"Resolved variable '{name}' missing at distance {distance}"

end LoxKit
