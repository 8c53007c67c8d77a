import LoxKit.Proofs.Machine.Recounted
import LoxKit.Proofs.Store.Links
import Mathlib.Logic.Relation

/-!
# The heap of a machine

Frames, objects and classes are made while programs run, and none is ever taken away.  A **heap** is
a machine together with the classes made so far (`Heap`), the class of number `i` at the place `i`.
It changes by single steps (`Heap.Step`): a frame is made, a name is bound, an object is made or one
of its fields is set, a class is made, another frame becomes the current one.

A heap is orderly (`Heap.Orderly`) if its links lead to earlier frames, its classes inherit from
earlier classes, whatever it holds is made of its own frames and classes, and a frame that binds
one of the names no program can write binds nothing else.  Each step keeps a heap orderly
(`Heap.Step.orderly`) and leaves what there is as it is, but for the values of names and fields
(`Heap.Step.lasts`); so do all steps one after the other (`Heap.Trail.sound`).  And in an orderly
heap the searches for names and methods end (`Heap.Orderly.searchesEnd`).
-/
namespace LoxKit

/-! ## Classes and those they inherit from -/

namespace ClassValue

variable {σ : Type}

/-- A class and the classes it inherits from, the nearest first. -/
def line : ClassValue σ → List (ClassValue σ)
  | root h => [root h]
  | derived h s => derived h s :: s.line

/-- **The search for a method** goes along the line of the class. -/
theorem method?_eq_findSome? (x : String) (c : ClassValue σ) :
    c.method? x = c.line.findSome? (·.head.methods.get? x) := by
  induction c with
  | root h => simp [method?, line, head]
  | derived h s ih =>
    rw [method?, ih, line, List.findSome?_cons]
    dsimp only [head]
    cases h.methods.get? x <;> rfl

end ClassValue

/-! ## Hidden names -/

/-- **A name that no program can write**: a method knows its object or its superclass by it. -/
def Hidden (x : String) : Prop := x = thisName ∨ x = superName

instance : DecidablePred Hidden :=
  fun x => inferInstanceAs (Decidable (x = thisName ∨ x = superName))

theorem Token.IsName.not_hidden {t : Token} (h : t.IsName) : ¬Hidden t.lexeme :=
  fun hx => hx.elim h.1 h.2

/-- No parameter is hidden. -/
theorem FunDecl.Shaped.contains_params {d : FunDecl} (h : d.Shaped) {α : Type} (vs : List α)
    {x : String} (hx : Hidden x) :
    (Bindings.ofList ((d.params.map (·.lexeme)).zip vs)).contains x = false := by
  rw [Bindings.contains_ofList, List.any_eq_false]
  rintro ⟨y, v⟩ hmem hy
  obtain ⟨p, hp, rfl⟩ := List.mem_map.mp (List.of_mem_zip hmem).1
  have hpx : p.lexeme = x := beq_iff_eq.mp hy
  exact (h.params p hp).not_hidden (by rwa [hpx])

namespace Store

variable {s s' s'' : Store (Value FrameId)}

/-- **A frame that binds a hidden name binds nothing else.** -/
def Sealed (s : Store (Value FrameId)) : Prop :=
  ∀ f x, Hidden x → (s.bindings f).contains x → ∃ v, s.bindings f = .ofList [(x, v)]

/-- **What lasts in a store**: its frames stay where they are and keep their names, those that bind
a hidden name keep the value as well, and none of the others comes to bind one. -/
structure Lasts (s s' : Store (Value FrameId)) : Prop extends s.Later s' where
  kept : ∀ f x, Hidden x → (s.bindings f).contains x → s'.bindings f = s.bindings f
  plain : ∀ f < s.frames.size, ∀ x, Hidden x →
    (s'.bindings f).contains x → (s.bindings f).contains x

namespace Lasts

theorem refl (s : Store (Value FrameId)) : s.Lasts s :=
  ⟨.refl s, fun _ _ _ _ => rfl, fun _ _ _ _ h => h⟩

theorem trans (h : s.Lasts s') (h' : s'.Lasts s'') : s.Lasts s'' where
  toLater := h.toLater.trans h'.toLater
  kept f x hx hf := by rw [h'.kept f x hx (h.names f x hf), h.kept f x hx hf]
  plain f hf x hx hf'' :=
    h.plain f hf x hx (h'.plain f (Nat.lt_of_lt_of_le hf h.size_le) x hx hf'')

theorem new (s : Store (Value FrameId)) (e : Option FrameId) (b : Bindings (Value FrameId)) :
    s.Lasts (s.new e b).2 where
  toLater := .new s e b
  kept f x _ hf := by rw [bindings_new, if_neg (Nat.ne_of_lt (lt_size_of_contains hf))]
  plain f hf x _ hx := by rwa [bindings_new, if_neg (Nat.ne_of_lt hf)] at hx

/-- A name that is not hidden is defined in a frame that binds no hidden name. -/
theorem define (v : Value FrameId) {f : FrameId} {x : String} (hf : f < s.frames.size)
    (hplain : ∀ y, Hidden y → (s.bindings f).contains y = false) (hx : ¬Hidden x) :
    s.Lasts (s.define f x v) where
  toLater := .define s v hf fun h => hx (.inr h)
  kept g y hy hg := by
    rw [bindings_define _ _ _ _ _ hf, if_neg]
    rintro rfl
    rw [hplain y hy] at hg
    cases hg
  plain g _ y hy hg := by
    have hyx : y ≠ x := fun h => hx (h ▸ hy)
    rwa [← Bindings.isSome_get?, get?_define_of_ne _ _ _ _ hyx, Bindings.isSome_get?] at hg

end Lasts

namespace Sealed

theorem new (h : s.Sealed) (e : Option FrameId) {b : Bindings (Value FrameId)}
    (hb : ∀ x, Hidden x → b.contains x → ∃ v, b = .ofList [(x, v)]) : (s.new e b).2.Sealed := by
  intro f x hx hf
  rw [bindings_new] at hf ⊢
  split
  · rename_i hsize
    rw [if_pos hsize] at hf
    exact hb x hx hf
  · rename_i hsize
    rw [if_neg hsize] at hf
    exact h f x hx hf

theorem define (h : s.Sealed) (v : Value FrameId) {f : FrameId} {x : String}
    (hf : f < s.frames.size) (hplain : ∀ y, Hidden y → (s.bindings f).contains y = false)
    (hx : ¬Hidden x) : (s.define f x v).Sealed := by
  have hlasts := Lasts.define v hf hplain hx
  intro g y hy hg
  rcases Nat.lt_or_ge g s.frames.size with hlt | hge
  · -- the hidden name was bound there before, so the frame is not the one that changed
    have hg' := hlasts.plain g hlt y hy hg
    obtain ⟨w, hw⟩ := h g y hy hg'
    exact ⟨w, (hlasts.kept g y hy hg').trans hw⟩
  · rw [bindings_of_size_le _ (by rwa [size_define])] at hg
    cases hg

/-- A frame that binds another name binds no hidden one. -/
theorem plain (h : s.Sealed) {f : FrameId} {x : String} (hf : (s.bindings f).contains x)
    (hx : ¬Hidden x) (y : String) (hy : Hidden y) : (s.bindings f).contains y = false := by
  cases hfy : (s.bindings f).contains y with
  | false => rfl
  | true =>
    obtain ⟨v, hv⟩ := h f y hy hfy
    rw [hv, Bindings.contains_singleton, beq_iff_eq] at hf
    exact absurd (hf ▸ hy) hx

end Sealed
end Store

/-! ## Heaps -/

/-- **A machine and the classes made so far**, in the order in which they were made. -/
structure Heap where
  machine : Machine
  classes : List (ClassValue FrameId)

namespace Heap

/-- Before anything has run there are no classes. -/
def initial (clock : Nat → Float) : Heap := ⟨.initial clock, []⟩

section

variable (h : Heap)

/-- **A function of the heap**: it is at home in one of the frames, and its declaration is one of
a program. -/
structure HasFunction (f : Closure FrameId) : Prop where
  live : f.home < h.machine.frames.frames.size
  shaped : f.decl.Shaped

/-- **A value of the heap** is made of its functions and its classes. -/
def Has : Value FrameId → Prop
  | .function f => h.HasFunction f
  | .classValue c | .object _ c => c ∈ h.classes
  | _ => True

/-- What a statement leaves to its surroundings is of the heap. -/
def HasCompletion : Completion FrameId → Prop
  | .giveBack v => h.Has v
  | _ => True

/-- **A frame for names of the program**: it binds no hidden name. -/
structure Ordinary (f : FrameId) : Prop where
  live : f < h.machine.frames.frames.size
  plain : ∀ x, Hidden x → (h.machine.frames.bindings f).contains x = false

/-- **Bindings for a new frame**: of values of the heap, and if a hidden name is bound, then
nothing else is. -/
structure Admits (b : Bindings (Value FrameId)) : Prop where
  values : ∀ x v, b.get? x = some v → h.Has v
  single : ∀ x, Hidden x → b.contains x → ∃ v, b = .ofList [(x, v)]

/-- **A class of the next number**, of functions of the heap and with a class of the heap as its
superclass. -/
structure AdmitsClass (head : ClassHead FrameId) (parent : Option (ClassValue FrameId)) :
    Prop where
  number : head.number = h.machine.classCount
  parent : ∀ p ∈ parent, p ∈ h.classes
  methods : ∀ x f, head.methods.get? x = some f → h.HasFunction f

end

/-- **A single change of a heap.** -/
inductive Step : Heap → Heap → Prop where
  | newFrame {h : Heap} {home : FrameId} {b : Bindings (Value FrameId)} :
    home < h.machine.frames.frames.size → h.Admits b →
    Step h ⟨{ h.machine with frames := (h.machine.frames.new (some home) b).2 }, h.classes⟩
  /-- A name is bound in the current frame, or where it is bound already. -/
  | bind {h : Heap} {f : FrameId} {x : String} {v : Value FrameId} :
    f = h.machine.current ∨ (h.machine.frames.bindings f).contains x → ¬Hidden x → h.Has v →
    Step h ⟨{ h.machine with frames := h.machine.frames.define f x v }, h.classes⟩
  | newObject {h : Heap} :
    Step h ⟨{ h.machine with fields := h.machine.fields.push .empty }, h.classes⟩
  | setField {h : Heap} (id : ObjectId) (x : String) {v : Value FrameId} : h.Has v →
    Step h ⟨{ h.machine with fields := h.machine.fields.modify id (·.put x v) }, h.classes⟩
  | newClass {h : Heap} {head : ClassHead FrameId} {parent : Option (ClassValue FrameId)} :
    h.AdmitsClass head parent →
    Step h ⟨{ h.machine with classCount := h.machine.classCount + 1 },
      h.classes ++ [.of head parent]⟩
  | enter {h : Heap} {f : FrameId} : h.Ordinary f →
    Step h ⟨{ h.machine with current := f }, h.classes⟩
  /-- Something is printed, or the clock is read, or a call is begun. -/
  | aside {h : Heap} {m : Machine} : m.frames = h.machine.frames →
    m.current = h.machine.current → m.fields = h.machine.fields →
    m.classCount = h.machine.classCount → Step h ⟨m, h.classes⟩

/-- **One change after the other.** -/
def Trail : Heap → Heap → Prop := Relation.ReflTransGen Step

/-- **The heaps that come about**, from one in which nothing has run. -/
def Reachable (h : Heap) : Prop := ∃ clock, (initial clock).Trail h

/-- **An orderly heap.** -/
structure Orderly (h : Heap) : Prop where
  /-- Links lead to earlier frames. -/
  linked : h.machine.frames.Linked
  /-- The frames of methods and superclasses bind nothing else. -/
  single : h.machine.frames.Sealed
  current : h.Ordinary h.machine.current
  values : ∀ f x v, (h.machine.frames.bindings f).get? x = some v → h.Has v
  fields : ∀ (id : ObjectId) b, h.machine.fields[id]? = some b →
    ∀ x v, b.get? x = some v → h.Has v
  count : h.classes.length = h.machine.classCount
  numbers : ∀ (i : Nat) c, h.classes[i]? = some c → c.head.number = i
  /-- Classes inherit from earlier classes. -/
  inherits : ∀ c ∈ h.classes, ∀ p, c.superclass? = some p →
    p ∈ h.classes ∧ p.head.number < c.head.number
  methods : ∀ c ∈ h.classes, ∀ x f, c.head.methods.get? x = some f → h.HasFunction f

/-- **What lasts in a heap**: its frames as they are, but for the values of names, and its
classes. -/
structure Lasts (h h' : Heap) : Prop where
  frames : h.machine.frames.Lasts h'.machine.frames
  classes : h.classes <+: h'.classes

variable {h h' h'' : Heap}

/-! ### What lasts -/

namespace Lasts

theorem refl (h : Heap) : h.Lasts h := ⟨.refl _, List.prefix_rfl⟩

theorem trans (hl : h.Lasts h') (hl' : h'.Lasts h'') : h.Lasts h'' :=
  ⟨hl.frames.trans hl'.frames, hl.classes.trans hl'.classes⟩

end Lasts

theorem HasFunction.lasts {f : Closure FrameId} (hf : h.HasFunction f) (hl : h.Lasts h') :
    h'.HasFunction f := ⟨Nat.lt_of_lt_of_le hf.live hl.frames.size_le, hf.shaped⟩

theorem Has.lasts {v : Value FrameId} (hv : h.Has v) (hl : h.Lasts h') : h'.Has v := by
  cases v with
  | function f => exact HasFunction.lasts hv hl
  | classValue c | object id c => exact hl.classes.subset hv
  | _ => trivial

theorem HasCompletion.lasts {c : Completion FrameId} (hc : h.HasCompletion c) (hl : h.Lasts h') :
    h'.HasCompletion c := by
  cases c with
  | giveBack v => exact Has.lasts hc hl
  | _ => trivial

theorem Ordinary.lasts {f : FrameId} (hf : h.Ordinary f) (hl : h.Lasts h') : h'.Ordinary f where
  live := Nat.lt_of_lt_of_le hf.live hl.frames.size_le
  plain x hx := by
    cases hf' : (h'.machine.frames.bindings f).contains x with
    | false => rfl
    | true =>
      have hfx := hl.frames.plain f hf.live x hx hf'
      rw [hf.plain x hx] at hfx
      cases hfx

theorem has_of_plain {v : Value FrameId} (hv : v.Plain) : h.Has v := by cases v <;> trivial

theorem has_ofLiteral (v : Literal) : h.Has (.ofLiteral v) := by cases v <;> trivial

/-! ### What is bound in new frames -/

/-- A single binding. -/
theorem admits_singleton {v : Value FrameId} (hv : h.Has v) (x : String) :
    h.Admits (.ofList [(x, v)]) where
  values y w hw := by
    obtain ⟨-, rfl⟩ := Bindings.of_get?_singleton hw
    exact hv
  single y _ hy := by
    rw [Bindings.contains_singleton, beq_iff_eq] at hy
    exact ⟨v, by rw [hy]⟩

/-- Values of the heap bound to names of the program. -/
theorem admits_of_plain {b : Bindings (Value FrameId)} (hb : ∀ x v, b.get? x = some v → h.Has v)
    (hplain : ∀ x, Hidden x → b.contains x = false) : h.Admits b :=
  ⟨hb, fun x hx hbx => by rw [hplain x hx] at hbx; cases hbx⟩

/-! ### Steps -/

/-- Where a name is bound, no hidden name is. -/
theorem Orderly.ordinary (ho : h.Orderly) {f : FrameId} {x : String}
    (hf : f = h.machine.current ∨ (h.machine.frames.bindings f).contains x) (hx : ¬Hidden x) :
    h.Ordinary f := by
  rcases hf with rfl | hf
  · exact ho.current
  · exact ⟨Store.lt_size_of_contains hf, ho.single.plain hf hx⟩

/-- **A step leaves what there is as it is**, but for the values of names and fields. -/
theorem Step.lasts (hs : Step h h') (ho : h.Orderly) : h.Lasts h' := by
  cases hs with
  | newFrame => exact ⟨.new .., List.prefix_rfl⟩
  | bind hf hx =>
    have hplain := ho.ordinary hf hx
    exact ⟨.define _ hplain.live hplain.plain hx, List.prefix_rfl⟩
  | newClass => exact ⟨.refl _, List.prefix_append ..⟩
  | newObject | setField | enter => exact ⟨.refl _, List.prefix_rfl⟩
  | aside hframes =>
    refine ⟨?_, List.prefix_rfl⟩
    rw [hframes]
    exact .refl _

/-- A heap of the same frames and classes is orderly, with values of the heap in its fields. -/
theorem Orderly.withMachine (ho : h.Orderly) {m : Machine} (hframes : m.frames = h.machine.frames)
    (hcount : m.classCount = h.machine.classCount) (hcurrent : h.Ordinary m.current)
    (hfields : ∀ (id : ObjectId) b, m.fields[id]? = some b →
      ∀ x v, b.get? x = some v → h.Has v) : Orderly ⟨m, h.classes⟩ := by
  have hl : h.Lasts ⟨m, h.classes⟩ :=
    ⟨hframes ▸ .refl _, List.prefix_rfl⟩
  exact {
    linked := hframes ▸ ho.linked
    single := hframes ▸ ho.single
    current := hcurrent.lasts hl
    values := fun f x v hv => (ho.values f x v (by rwa [← hframes])).lasts hl
    fields := fun id b hb x v hv => (hfields id b hb x v hv).lasts hl
    count := ho.count.trans hcount.symm
    numbers := ho.numbers
    inherits := ho.inherits
    methods := fun c hc x f hf => (ho.methods c hc x f hf).lasts hl }

/-- A heap of the same classes and fields is orderly, if its frames are. -/
theorem Orderly.withFrames (ho : h.Orderly) {s : Store (Value FrameId)}
    (hlasts : h.machine.frames.Lasts s) (hlinked : s.Linked) (hsingle : s.Sealed)
    (hvalues : ∀ f x v, (s.bindings f).get? x = some v → h.Has v) :
    Orderly ⟨{ h.machine with frames := s }, h.classes⟩ := by
  have hl : h.Lasts ⟨{ h.machine with frames := s }, h.classes⟩ := ⟨hlasts, List.prefix_rfl⟩
  exact {
    linked := hlinked
    single := hsingle
    current := ho.current.lasts hl
    values := fun f x v hv => (hvalues f x v hv).lasts hl
    fields := fun id b hb x v hv => (ho.fields id b hb x v hv).lasts hl
    count := ho.count
    numbers := ho.numbers
    inherits := ho.inherits
    methods := fun c hc x f hf => (ho.methods c hc x f hf).lasts hl }

/-- A class has the number of its place. -/
theorem Orderly.getElem?_number (ho : h.Orderly) {c : ClassValue FrameId} (hc : c ∈ h.classes) :
    h.classes[c.head.number]? = some c := by
  obtain ⟨i, hi⟩ := List.mem_iff_getElem?.mp hc
  rwa [ho.numbers i c hi]

theorem Orderly.number_lt (ho : h.Orderly) {c : ClassValue FrameId} (hc : c ∈ h.classes) :
    c.head.number < h.machine.classCount := by
  rw [← ho.count]
  exact (List.getElem?_eq_some_iff.mp (ho.getElem?_number hc)).1

/-- The methods that a class inherits are functions of the heap like its own. -/
theorem Orderly.method? (ho : h.Orderly) {c : ClassValue FrameId} (hc : c ∈ h.classes)
    {x : String} {f : Closure FrameId} (hf : c.method? x = some f) : h.HasFunction f := by
  induction c with
  | root head => exact ho.methods _ hc x f hf
  | derived head p ih =>
    rw [ClassValue.method?, Option.or_eq_some_iff] at hf
    rcases hf with hf | ⟨-, hf⟩
    · exact ho.methods _ hc x f hf
    · exact ih (ho.inherits _ hc p rfl).1 hf

/-- **A new class** inherits from an earlier one. -/
theorem Orderly.newClass (ho : h.Orderly) {head : ClassHead FrameId}
    {parent : Option (ClassValue FrameId)} (hc : h.AdmitsClass head parent) :
    Orderly ⟨{ h.machine with classCount := h.machine.classCount + 1 },
      h.classes ++ [.of head parent]⟩ := by
  have hl := Step.lasts (.newClass hc) ho
  have hnumber : head.number = h.classes.length := hc.number.trans ho.count.symm
  refine ⟨ho.linked, ho.single, ho.current.lasts hl, fun f x v hv => (ho.values f x v hv).lasts hl,
    fun id b hb x v hv => (ho.fields id b hb x v hv).lasts hl, ?_, ?_, ?_, ?_⟩
  · simp [ho.count]
  · intro i c hi
    rw [List.getElem?_append] at hi
    split at hi
    · exact ho.numbers i c hi
    · -- behind the classes there were, there is the new one alone
      rw [List.getElem?_singleton] at hi
      split at hi
      · cases hi
        rw [ClassValue.head_of, hnumber]
        omega
      · cases hi
  · intro c hmem p hp
    rcases List.mem_append.mp hmem with hold | hnew
    · obtain ⟨hpmem, hlt⟩ := ho.inherits c hold p hp
      exact ⟨List.mem_append_left _ hpmem, hlt⟩
    · rw [List.mem_singleton.mp hnew] at hp ⊢
      rw [ClassValue.superclass?_of] at hp
      have hpmem := hc.parent p hp
      refine ⟨List.mem_append_left _ hpmem, ?_⟩
      rw [ClassValue.head_of, hc.number]
      exact ho.number_lt hpmem
  · intro c hmem x f hf
    rcases List.mem_append.mp hmem with hold | hnew
    · exact (ho.methods c hold x f hf).lasts hl
    · rw [List.mem_singleton.mp hnew, ClassValue.head_of] at hf
      exact (hc.methods x f hf).lasts hl

/-- **A step keeps a heap orderly.** -/
theorem Step.orderly (hs : Step h h') (ho : h.Orderly) : h'.Orderly := by
  cases hs with
  | @newFrame home b hhome hb =>
    refine ho.withFrames (.new ..) (ho.linked.new ?_ b) (ho.single.new _ hb.single) ?_
    · rintro p ⟨⟩
      exact hhome
    · intro f x v hv
      rw [Store.bindings_new] at hv
      split at hv
      · exact hb.values x v hv
      · exact ho.values f x v hv
  | @bind f x v hf hx hv =>
    have hplain := ho.ordinary hf hx
    refine ho.withFrames (.define v hplain.live hplain.plain hx) (ho.linked.define f x v)
      (ho.single.define v hplain.live hplain.plain hx) ?_
    intro g y u hu
    rcases Store.get?_define hu with rfl | hu
    · exact hv
    · exact ho.values g y u hu
  | newObject => exact ho.withMachine rfl rfl ho.current (forall_field_push ho.fields)
  | setField id x hv => exact ho.withMachine rfl rfl ho.current (forall_field_put ho.fields hv)
  | newClass hc => exact ho.newClass hc
  | enter hf => exact ho.withMachine rfl rfl hf ho.fields
  | aside hframes hcurrent hfields hcount =>
    exact ho.withMachine hframes hcount (hcurrent ▸ ho.current) (hfields ▸ ho.fields)

/-! ### Trails -/

/-- **Whatever happens, a heap stays orderly, and what there is lasts.** -/
theorem Trail.sound (ht : h.Trail h') (ho : h.Orderly) : h'.Orderly ∧ h.Lasts h' := by
  induction ht with
  | refl => exact ⟨ho, .refl h⟩
  | tail _ hs ih => exact ⟨hs.orderly ih.1, ih.2.trans (hs.lasts ih.1)⟩

/-- Before anything has run, a heap is orderly. -/
theorem orderly_initial (clock : Nat → Float) : (initial clock).Orderly where
  linked := Store.Linked.empty.new (fun _ hp => by cases hp) _
  single f x hx hf := by
    obtain ⟨v, hv⟩ := Option.isSome_iff_exists.mp ((Bindings.isSome_get? _ x).trans hf)
    obtain ⟨rfl, -⟩ := Machine.of_get?_initialFrames hv
    exact absurd hx (by decide)
  current := ⟨Nat.zero_lt_one, fun x hx => by rcases hx with rfl | rfl <;> rfl⟩
  values f x v hv := by
    obtain ⟨-, rfl⟩ := Machine.of_get?_initialFrames hv
    trivial
  fields id b hb := by simp [initial, Machine.initial] at hb
  count := rfl
  numbers i c hc := by simp [initial] at hc
  inherits c hc := absurd hc List.not_mem_nil
  methods c hc := absurd hc List.not_mem_nil

/-- **The heaps that come about are orderly.** -/
theorem Reachable.orderly (hr : h.Reachable) : h.Orderly := by
  obtain ⟨clock, ht⟩ := hr
  exact (ht.sound (orderly_initial clock)).1

theorem Reachable.trans (hr : h.Reachable) (ht : h.Trail h') : h'.Reachable := by
  obtain ⟨clock, ht'⟩ := hr
  exact ⟨clock, Relation.ReflTransGen.trans ht' ht⟩

/-! ### Searches -/

/-- **The searches end.**  There are no more links from a frame than there are frames before it, and
the search for a name follows them; there are no more classes in the line of a class than have its
number or a smaller one, and the search for a method goes along it. -/
structure SearchesEnd (h : Heap) : Prop where
  outward : ∀ f, h.machine.frames.outward? f (f + 1) = none
  holder : ∀ x f, h.machine.frames.holder? x f =
    if (h.machine.frames.bindings f).contains x then some f
    else (h.machine.frames.enclosing? f).bind (h.machine.frames.holder? x)
  line : ∀ c ∈ h.classes, c.line.length ≤ c.head.number + 1
  method : ∀ c ∈ h.classes, ∀ x, c.method? x = c.line.findSome? (·.head.methods.get? x)

/-- The line of a class is one of earlier and earlier classes. -/
theorem Orderly.line_length_le (ho : h.Orderly) {c : ClassValue FrameId} (hc : c ∈ h.classes) :
    c.line.length ≤ c.head.number + 1 := by
  induction c with
  | root head => simp [ClassValue.line]
  | derived head p ih =>
    obtain ⟨hp, hlt⟩ := ho.inherits _ hc p rfl
    have hle : p.line.length ≤ p.head.number + 1 := ih hp
    rw [ClassValue.line, List.length_cons]
    omega

theorem Orderly.searchesEnd (ho : h.Orderly) : h.SearchesEnd where
  outward f := ho.linked.outward?_eq_none (Nat.lt_succ_self f)
  holder := ho.linked.holder?_eq
  line _ := ho.line_length_le
  method c _ x := c.method?_eq_findSome? x

/-! ### What is the same ever after -/

/-- **A class is told by its number**, and it is the same ever after. -/
theorem Lasts.class_eq (hl : h.Lasts h') (ho' : h'.Orderly) {c c' : ClassValue FrameId}
    (hc : c ∈ h.classes) (hc' : c' ∈ h'.classes) (hnumber : c'.head.number = c.head.number) :
    c' = c := by
  have hlater := ho'.getElem?_number (hl.classes.subset hc)
  rw [← hnumber, ho'.getElem?_number hc'] at hlater
  exact Option.some.inj hlater

/-- **A frame that binds a hidden name** binds nothing else, and is the same ever after. -/
theorem Lasts.bindings_eq (hl : h.Lasts h') (ho : h.Orderly) {f : FrameId} {x : String}
    (hx : Hidden x) (hf : (h.machine.frames.bindings f).contains x) :
    ∃ v, h.machine.frames.bindings f = .ofList [(x, v)] ∧
      h'.machine.frames.bindings f = .ofList [(x, v)] := by
  obtain ⟨v, hv⟩ := ho.single f x hx hf
  exact ⟨v, hv, (hl.frames.kept f x hx hf).trans hv⟩

/-- **A frame that is made for a hidden name**, as that of a bound method or of a superclass is,
keeps its single binding and its place. -/
theorem Orderly.newFrame_kept (ho : h.Orderly) {home : FrameId}
    (hhome : home < h.machine.frames.frames.size) {x : String} (hx : Hidden x)
    {v : Value FrameId} (hv : h.Has v) :
    ∃ f m, Run.newFrame home (.ofList [(x, v)]) h.machine = .ok f m ∧ h.Trail ⟨m, h.classes⟩ ∧
      ∀ h', Trail ⟨m, h.classes⟩ h' → h'.machine.frames.bindings f = .ofList [(x, v)] ∧
        h'.machine.frames.enclosing? f = some home := by
  have hs : Step h _ := .newFrame hhome (admits_singleton hv x)
  refine ⟨_, _, rfl, .single hs, fun h' ht => ?_⟩
  have ho' := hs.orderly ho
  have hl := (ht.sound ho').2
  have hbindings : (h.machine.frames.new (some home) (.ofList [(x, v)])).2.bindings
      h.machine.frames.frames.size = .ofList [(x, v)] := by
    rw [Store.bindings_new, if_pos rfl]
  constructor
  · rw [hl.frames.kept _ x hx (by simp [hbindings]), hbindings]
  · rw [hl.frames.enclosing _ (by simp), Store.enclosing?_new, if_pos rfl]

end Heap
end LoxKit
