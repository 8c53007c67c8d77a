import LoxKit.Proofs.Machine.Course
import LoxKit.Proofs.Scope.Once

/-!
# The names that a run defines

A name comes into a frame in one of two ways: the frame is made with it, or the name is defined
while the frame is current.  Nothing ever takes a name away.  So behind any step the frames that
there were bind the names that they did, and the current one perhaps some more
(`Machine.Gains`).

The body of a block or of a function has a frame of its own, and whatever it defines goes there.
So the frames around it gain nothing (`Machine.Course.contains`), and neither do they by
expressions, by calls, or by statements that are not declarations (`Machine.quietAt`).  A
declaration that completes gives the current frame its one name, and one that fails gives it none
(`Machine.exec_declaration`).
-/
namespace LoxKit
namespace Machine

variable {m m₁ m₂ : Machine}

/-- **What frames a change leaves, and what names in them.**  The current frame gains some
names. -/
structure Gains (names : List String) (m m' : Machine) : Prop where
  size_le : m.frames.frames.size ≤ m'.frames.frames.size
  current : m'.current = m.current
  contains : ∀ f < m.frames.frames.size, ∀ x, (m'.frames.bindings f).contains x ↔
    (m.frames.bindings f).contains x ∨ f = m.current ∧ x ∈ names

namespace Gains

variable {ns ns' : List String}

theorem refl (m : Machine) : Gains [] m m := ⟨Nat.le_refl _, rfl, by simp⟩

theorem trans (h : Gains ns m m₁) (h' : Gains ns' m₁ m₂) : Gains (ns ++ ns') m m₂ := by
  refine ⟨Nat.le_trans h.size_le h'.size_le, h'.current.trans h.current, fun f hf x => ?_⟩
  rw [h'.contains f (Nat.lt_of_lt_of_le hf h.size_le), h.contains f hf, h.current, or_assoc,
    ← and_or_left, List.mem_append]

/-- A change that leaves the frames alone. -/
theorem of_frames {m' : Machine} (hf : m'.frames = m.frames) (hc : m'.current = m.current) :
    Gains [] m m' := by
  refine ⟨Nat.le_of_eq (by rw [hf]), hc, fun f _ x => ?_⟩
  rw [hf]
  simp

theorem newFrame (m : Machine) (home : FrameId) (b : Bindings (Value FrameId)) :
    Gains [] m { m with frames := (m.frames.new (some home) b).2 } := by
  refine ⟨?_, rfl, fun f hf x => ?_⟩
  · rw [Store.size_new]
    exact Nat.le_succ _
  · rw [Store.bindings_new, if_neg (Nat.ne_of_lt hf)]
    simp

/-- A name is defined in the current frame. -/
theorem define (m : Machine) (x : String) (v : Value FrameId) :
    Gains [x] m { m with frames := m.frames.define m.current x v } := by
  refine ⟨Nat.le_of_eq (Store.size_define ..).symm, rfl, fun f hf y => ?_⟩
  by_cases hcurrent : f = m.current
  · rw [Store.bindings_define _ _ _ _ _ (hcurrent ▸ hf), if_pos hcurrent, Bindings.contains_put,
      hcurrent]
    simp [or_comm]
  · have hsame : (m.frames.define m.current x v).bindings f = m.frames.bindings f := by
      simp [Store.define, Store.bindings, Array.getElem?_modify, Ne.symm hcurrent]
    rw [hsame]
    simp [hcurrent]

/-- A name that is bound is given another value. -/
theorem assign (m : Machine) {g : FrameId} {x : String} (v : Value FrameId)
    (hx : (m.frames.bindings g).contains x) :
    Gains [] m { m with frames := m.frames.define g x v } := by
  refine ⟨Nat.le_of_eq (Store.size_define ..).symm, rfl, fun f hf y => ?_⟩
  rw [Store.bindings_define _ _ _ _ _ (Store.lt_size_of_contains hx)]
  split
  · rename_i hfg
    rw [Bindings.contains_put, hfg]
    by_cases hy : y = x
    · simp [hy, hx]
    · simp [hy]
  · simp

end Gains

/-- **Whatever happens in a frame, the others keep their names.** -/
theorem Course.contains (h : m.Course m₁) :
    m.frames.frames.size ≤ m₁.frames.frames.size ∧
      ∀ f < m.frames.frames.size, f ≠ m.current → ∀ x,
        (m₁.frames.bindings f).contains x ↔ (m.frames.bindings f).contains x := by
  induction h with
  | done m => exact ⟨Nat.le_refl _, fun _ _ _ _ => Iff.rfl⟩
  | @change m m₁ m₂ hc _ ih =>
    have hgains : ∃ ns, m.Gains ns m₁ := by
      cases hc with
      | newFrame home b => exact ⟨_, .newFrame m home b⟩
      | define x v => exact ⟨_, .define m x v⟩
      | assign v hx => exact ⟨_, .assign m v hx⟩
      | _ => exact ⟨_, .of_frames rfl rfl⟩
    obtain ⟨ns, hgains⟩ := hgains
    refine ⟨Nat.le_trans hgains.size_le ih.1, fun f hf hne x => ?_⟩
    rw [ih.2 f (Nat.lt_of_lt_of_le hf hgains.size_le) (by rwa [hgains.current]),
      hgains.contains f hf]
    simp [hne]
  | @body m m₁ m₂ home b _ _ ihbody ihrest =>
    have hnew := Gains.newFrame m home b
    have hsize : m.frames.frames.size < (m.frames.new (some home) b).2.frames.size := by
      rw [Store.size_new]
      exact Nat.lt_succ_self _
    refine ⟨Nat.le_trans (Nat.le_of_lt hsize) (Nat.le_trans ihbody.1 ihrest.1),
      fun f hf hne x => ?_⟩
    have hf' := Nat.lt_trans hf hsize
    -- the body defines its names in the frame just made
    rw [ihrest.2 f (Nat.lt_of_lt_of_le hf' ihbody.1) hne, ihbody.2 f hf' (Nat.ne_of_lt hf),
      hnew.contains f hf]
    simp

/-- **Every step abides by the names that there are** but for the definition of names, since a body
defines what it defines in a frame of its own. -/
instance : Conduct (Gains []) where
  refl := .refl
  trans := .trans
  newFrame := .newFrame
  assign m _ _ := .assign m
  aside h hframes := .of_frames hframes (Course.single h).current
  body {m _} home b h := by
    have hnew := Gains.newFrame m home b
    obtain ⟨hsize, hcontains⟩ := h.contains
    refine ⟨Nat.le_trans hnew.size_le hsize, rfl, fun f hf y => ?_⟩
    rw [← hnew.contains f hf]
    exact hcontains f (Nat.lt_of_lt_of_le hf hnew.size_le) (Nat.ne_of_lt hf) y

end Machine

/-! ## Steps that define nothing -/

/-- **A step leaves the names of all frames as they were**, whether it yields something or
fails. -/
def Quiet {α : Type} (x : Run α) : Prop := ∀ m : Machine, m.Gains [] (m.after x).2

namespace Machine

/-- **Expressions, calls and statements that declare nothing leave all names as they were.** -/
structure QuietAt (turns room : Nat) : Prop where
  eval : ∀ e, Quiet (eval turns room e)
  evalAll : ∀ es, Quiet (evalAll turns room es)
  call : ∀ v vs, Quiet (call turns room v vs)
  construct : ∀ c vs, Quiet (construct turns room c vs)
  invoke : ∀ f vs, Quiet (invoke turns room f vs)
  exec : ∀ s, s.Shaped → s.isDeclaration = false → Quiet (exec turns room s)

/-- Nor do the parts of a statement declare anything, if it is shaped. -/
theorem quiet_exec (turns room : Nat) (s : Stmt) (hs : s.Shaped) (hd : s.isDeclaration = false) :
    Quiet (exec turns room s) := by
  induction room generalizing s with
  | zero => exact Abides.throw _
  | succ room ih =>
    refine (abidesAt _ turns room).exec_succ (coursesAt turns room).execAll hd fun p hp => ?_
    obtain ⟨hpd, hps⟩ := hs.part hp
    exact ih p hps hpd

theorem quietAt (turns room : Nat) : QuietAt turns room := by
  have h := abidesAt (Gains []) turns room
  exact ⟨h.eval, h.evalAll, h.call, h.construct, h.invoke, quiet_exec turns room⟩

end Machine

/-! ## Declarations -/

/-- **A step defines a name** in the current frame if it completes, and nothing if it fails. -/
def Defines {α : Type} (name : String) (x : Run α) : Prop :=
  ∀ m : Machine, m.current < m.frames.frames.size →
    match x m with
    | .ok _ m' => m.Gains [name] m'
    | .error _ m' => m.Gains [] m'

/-- **A step that cannot fail** where the current frame binds a name, and that defines nothing. -/
def Surely {α : Type} (here : FrameId) (name : String) (x : Run α) : Prop :=
  ∀ m : Machine, m.current = here → (m.frames.bindings here).contains name →
    ∃ a m', x m = .ok a m' ∧ m.Gains [] m'

section Declarations

variable {α β : Type} {here : FrameId} {name : String}

/-- Before its name is defined, a declaration is quiet. -/
theorem Defines.after {x : Run α} {f : α → Run β} (hx : Quiet x) (hf : ∀ a, Defines name (f a)) :
    Defines name (x >>= f) := by
  intro m hm
  have h := hx m
  unfold Machine.after at h
  simp only [Bind.bind, EStateM.bind]
  cases hxm : x m with
  | error e m₁ =>
    rw [hxm] at h
    exact h
  | ok a m₁ =>
    rw [hxm] at h
    have hm₁ : m₁.current < m₁.frames.frames.size := by
      rw [h.current]
      exact Nat.lt_of_lt_of_le hm h.size_le
    have hfa := hf a m₁ hm₁
    dsimp only
    cases hfm : f a m₁ with
    | error e m₂ =>
      rw [hfm] at hfa
      exact h.trans hfa
    | ok b m₂ =>
      rw [hfm] at hfa
      exact h.trans hfa

theorem Defines.get {f : Machine → Run β} (hf : ∀ m, Defines name (f m)) :
    Defines name (MonadState.get >>= f) := fun m hm => hf m m hm

/-- What a declaration yields does not matter. -/
theorem Defines.map {x : Run α} (hx : Defines name x) (b : β) :
    Defines name (x >>= fun _ => Pure.pure b) := by
  intro m hm
  have h := hx m hm
  simp only [Bind.bind, EStateM.bind]
  cases hxm : x m with
  | error e m₁ =>
    rw [hxm] at h
    exact h
  | ok a m₁ =>
    rw [hxm] at h
    exact h

/-- Once its name is defined, a declaration completes. -/
theorem Defines.define {x : Run α} (v : Value FrameId) (hx : ∀ here, Surely here name x) :
    Defines name (Run.define name v >>= fun _ => x) := by
  intro m hm
  let m₁ : Machine := { m with frames := m.frames.define m.current name v }
  have hbound : (m₁.frames.bindings m.current).contains name := by
    show ((m.frames.define m.current name v).bindings m.current).contains name
    rw [Store.bindings_define _ _ _ _ _ hm, if_pos rfl, Bindings.contains_put]
    simp
  obtain ⟨a, m', hrun, hgains⟩ := hx m.current m₁ rfl hbound
  have hstep : (Run.define name v >>= fun _ => x) m = .ok a m' := hrun
  rw [hstep]
  exact (Machine.Gains.define m name v).trans hgains

namespace Surely

theorem pure (a : α) : Surely here name (Pure.pure a) := fun m _ _ => ⟨a, m, rfl, .refl m⟩

theorem bind {x : Run α} {f : α → Run β} (hx : Surely here name x)
    (hf : ∀ a, Surely here name (f a)) : Surely here name (x >>= f) := by
  intro m hcurrent hm
  obtain ⟨a, m₁, hxm, h₁⟩ := hx m hcurrent hm
  have hm₁ : (m₁.frames.bindings here).contains name :=
    (h₁.contains here (Store.lt_size_of_contains hm) name).mpr (.inl hm)
  obtain ⟨b, m₂, hfm, h₂⟩ := hf a m₁ (h₁.current.trans hcurrent) hm₁
  refine ⟨b, m₂, ?_, h₁.trans h₂⟩
  simp only [Bind.bind, EStateM.bind, hxm, hfm]

theorem get {f : Machine → Run β} (hf : ∀ m, m.current = here → Surely here name (f m)) :
    Surely here name (MonadState.get >>= f) :=
  fun m hcurrent hm => hf m hcurrent m hcurrent hm

/-- There is room enough. -/
theorem need {spare room : Nat} (h : spare ≤ room) : Surely here name (Run.need spare room) := by
  intro m _ _
  refine ⟨(), m, ?_, .refl m⟩
  rw [Run.need, if_neg (by omega)]
  rfl

theorem modify {g : Machine → Machine} (hf : ∀ m, (g m).frames = m.frames)
    (hc : ∀ m, (g m).current = m.current) : Surely here name (modifyThe Machine g) :=
  fun m _ _ => ⟨(), g m, rfl, .of_frames (hf m) (hc m)⟩

theorem newFrame (home : FrameId) (b : Bindings (Value FrameId)) :
    Surely here name (Run.newFrame home b) :=
  fun m _ _ => ⟨_, _, rfl, .newFrame m home b⟩

/-- The name is found where it was defined. -/
theorem assignFrom {n : Token} (v : Value FrameId) :
    Surely here n.lexeme (Run.assignFrom here n v) := by
  intro m _ hm
  have hlocate : m.frames.locate here n.lexeme = .ok here := by
    unfold Store.locate Store.holder?
    rw [if_pos hm]
  exact ⟨(), _, Run.assignFrom_ok hlocate v, .assign m v hm⟩

end Surely

end Declarations

namespace Machine

theorem defines_declareClass {room : Nat} (hroom : 3 ≤ room) (n : Token) (r : Option Reference)
    (ms : List FunDecl) : Defines n.lexeme (declareClass room n r ms) := by
  have hspare : (if ms.isEmpty then Spare.make else 1 + Spare.make) ≤ room := by
    split <;> simp only [Spare.make] <;> omega
  refine .after (abides_superclass? room r) fun parent => .after (Abides.need _ _) fun _ =>
    .define .nil fun here => .get fun m hm => ?_
  rw [hm]
  -- from here on the name is defined, so nothing may fail any more
  have hmake (frame : FrameId) : Surely here n.lexeme (do
      Run.need (if ms.isEmpty then Spare.make else 1 + Spare.make) room
      let number := (← get).classCount
      modify fun m => { m with classCount := m.classCount + 1 }
      let head : ClassHead FrameId := ⟨number, n.lexeme, methodTable frame ms⟩
      Run.assignFrom here n (.classValue (.of head parent))) :=
    .bind (.need hspare) fun _ => .get fun _ _ =>
      .bind (.modify (fun _ => rfl) fun _ => rfl) fun _ => .assignFrom _
  cases parent with
  | none => exact .bind (.pure here) hmake
  | some c =>
    exact .bind (.need (by simp only [Spare.make]; omega)) fun _ => .bind (.newFrame here _) hmake

/-- **A declaration defines its name if it completes, and nothing if it fails.**  With less room a
class could fail when its name is defined already. -/
theorem exec_declaration {turns room : Nat} {s : Stmt} {n : Token} (hroom : 5 ≤ room)
    (hn : s.declared? = some n) : Defines n.lexeme (exec turns room s) := by
  obtain ⟨room, rfl⟩ := Nat.exists_eq_add_of_le' (Nat.le_of_succ_le hroom)
  have hpure (name : String) (here : FrameId) :
      Surely here name (pure Completion.normal : Run (Completion FrameId)) := .pure _
  cases s with
  | var n e =>
    cases hn
    cases e with
    | none => exact .after (Abides.need _ _) fun _ => .define .nil (hpure _)
    | some e =>
      exact .after ((quietAt _ _).eval e) fun v => .after (Abides.need _ _) fun _ =>
        .define v (hpure _)
  | function d =>
    cases hn
    exact .after (Abides.need _ _) fun _ => .get fun m => .define _ (hpure _)
  | classDecl n r ms =>
    cases hn
    exact .after (Abides.need _ _) fun _ => (defines_declareClass (by omega) n r ms).map _
  | _ => cases hn

end Machine
end LoxKit
