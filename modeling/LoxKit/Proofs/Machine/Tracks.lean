import LoxKit.Proofs.Machine.Heap

/-!
# Steps along trails

The steps that runs are made of take an orderly heap along a trail, whether they yield something or
fail (`Heap.Tracks`), and what they yield is of the heap behind them.  There is one rule for each
way of putting steps together and one for each thing a step can do.
-/
namespace LoxKit
namespace Heap

/-- **A step takes a heap along a trail**, and yields what is said. -/
def Tracks {α : Type} (h : Heap) (x : Run α) (Q : α → Heap → Prop) : Prop :=
  h.Orderly →
    match x h.machine with
    | .ok a m => ∃ cs, h.Trail ⟨m, cs⟩ ∧ Q a ⟨m, cs⟩
    | .error _ m => ∃ cs, h.Trail ⟨m, cs⟩

namespace Tracks

variable {α β : Type} {h : Heap} {Q R : α → Heap → Prop}

/-- **A step that goes along a trail leads to a heap**, whether it yields something or fails. -/
theorem trail {x : Run α} (hx : h.Tracks x Q) (ho : h.Orderly) :
    ∃ cs, h.Trail ⟨(h.machine.after x).2, cs⟩ := by
  have hrun := hx ho
  unfold Machine.after
  cases hxm : x h.machine with
  | ok a m =>
    rw [hxm] at hrun
    obtain ⟨cs, ht, -⟩ := hrun
    exact ⟨cs, ht⟩
  | error e m =>
    rw [hxm] at hrun
    exact hrun

theorem pure {a : α} (ha : Q a h) : h.Tracks (Pure.pure a) Q := fun _ => ⟨h.classes, .refl, ha⟩

theorem throw (e : Failure) : h.Tracks (MonadExcept.throw e : Run α) Q :=
  fun _ => ⟨h.classes, .refl⟩

theorem fail (place : Token) (cause : RunError) : h.Tracks (Run.fail place cause : Run α) Q :=
  throw _

/-- What a step may build on. -/
theorem given {x : Run α} (hx : h.Orderly → h.Tracks x Q) : h.Tracks x Q := fun ho => hx ho ho

theorem bind {x : Run α} {f : α → Run β} {R : β → Heap → Prop} (hx : h.Tracks x Q)
    (hf : ∀ a h', h.Lasts h' → Q a h' → h'.Tracks (f a) R) : h.Tracks (x >>= f) R := by
  intro ho
  have hrun := hx ho
  simp only [Bind.bind, EStateM.bind]
  cases hxm : x h.machine with
  | error e m =>
    rw [hxm] at hrun
    exact hrun
  | ok a m =>
    rw [hxm] at hrun
    obtain ⟨cs, ht, ha⟩ := hrun
    obtain ⟨ho', hlasts⟩ := ht.sound ho
    have hrest := hf a ⟨m, cs⟩ hlasts ha ho'
    dsimp only at hrest ⊢
    cases hfa : f a m with
    | ok b m' =>
      rw [hfa] at hrest
      obtain ⟨cs', ht', hb⟩ := hrest
      exact ⟨cs', .trans ht ht', hb⟩
    | error e m' =>
      rw [hfa] at hrest
      obtain ⟨cs', ht'⟩ := hrest
      exact ⟨cs', .trans ht ht'⟩

theorem get {f : Machine → Run α} (hf : h.Orderly → h.Tracks (f h.machine) Q) :
    h.Tracks (MonadState.get >>= f) Q := fun ho => hf ho ho

theorem ite {P : Prop} [Decidable P] {x y : Run α} (hx : P → h.Tracks x Q)
    (hy : ¬P → h.Tracks y Q) : h.Tracks (if P then x else y) Q := by
  split
  · exact hx ‹_›
  · exact hy ‹_›

/-- A step for which there must be room. -/
theorem needing (spare room : Nat) {x : Unit → Run α} (hx : h.Tracks (x ()) Q) :
    h.Tracks (Run.need spare room >>= x) Q := by
  unfold Run.need
  split
  · exact throw _
  · exact hx

/-- **A step that is a single change.** -/
theorem modify {g : Machine → Machine} {cs : List (ClassValue FrameId)} {Q : PUnit → Heap → Prop}
    (hs : h.Orderly → Step h ⟨g h.machine, cs⟩) (hQ : Q ⟨⟩ ⟨g h.machine, cs⟩) :
    h.Tracks (modifyThe Machine g) Q := fun ho => ⟨cs, .single (hs ho), hQ⟩

/-- A change of what is no part of the heap. -/
theorem aside {g : Machine → Machine} (hframes : ∀ m, (g m).frames = m.frames)
    (hcurrent : ∀ m, (g m).current = m.current) (hfields : ∀ m, (g m).fields = m.fields)
    (hcount : ∀ m, (g m).classCount = m.classCount) :
    h.Tracks (modifyThe Machine g) fun _ _ => True :=
  modify (fun _ => .aside (hframes _) (hcurrent _) (hfields _) (hcount _)) trivial

/-- What an operator yields. -/
theorem ofExcept {r : Except Failure α} (hr : ∀ a, r = .ok a → Q a h) :
    h.Tracks (liftExcept r : Run α) Q := by
  cases r with
  | ok a => exact pure (hr a rfl)
  | error e => exact throw e

theorem access (name : Token) {r : Except AccessFault α} (hr : ∀ a, r = .ok a → Q a h) :
    h.Tracks (Run.access name r) Q := by
  cases r with
  | ok a => exact pure (hr a rfl)
  | error fault => cases fault <;> exact throw _

/-! ### Frames -/

/-- A new frame is one for names of the program, if what it binds at first is. -/
theorem newFrame {home : FrameId} {b : Bindings (Value FrameId)}
    (hhome : home < h.machine.frames.frames.size) (hb : h.Admits b) :
    h.Tracks (Run.newFrame home b) fun f h' => f < h'.machine.frames.frames.size ∧
      ((∀ x, Hidden x → b.contains x = false) → h'.Ordinary f) := by
  have hlive : h.machine.frames.frames.size <
      (h.machine.frames.new (some home) b).2.frames.size := by simp
  refine .get fun _ => .bind (Q := fun _ h' =>
    h'.machine.frames = (h.machine.frames.new (some home) b).2)
    (.modify (fun _ => .newFrame hhome hb) rfl) ?_
  intro _ h' _ hframes
  rw [← hframes] at hlive
  refine .pure ⟨hlive, fun hplain => ⟨hlive, fun x hx => ?_⟩⟩
  rw [hframes, Store.bindings_new, if_pos rfl]
  exact hplain x hx

theorem bindIn {f : FrameId} {x : Token} (hx : x.IsName) {v : Value FrameId} (hv : h.Has v)
    (hf : f = h.machine.current ∨ (h.machine.frames.bindings f).contains x.lexeme) :
    h.Tracks (Run.bindIn f x.lexeme v) fun _ _ => True :=
  .modify (fun _ => .bind hf hx.not_hidden hv) trivial

theorem define {x : Token} (hx : x.IsName) {v : Value FrameId} (hv : h.Has v) :
    h.Tracks (Run.define x.lexeme v) fun _ _ => True :=
  .get fun _ => bindIn hx hv (.inl rfl)

theorem readAt (hops : Int) (x : String) :
    h.Tracks (Run.readAt hops x) fun v h' => h'.Has v := by
  refine .get fun ho => ?_
  cases hv : h.machine.frames.getAt h.machine.current hops x with
  | ok v =>
    obtain ⟨g, hg⟩ := Store.bound_of_getAt hv
    exact .pure (ho.values g x v hg)
  | error fault => exact .throw _

theorem readReference (r : Reference) :
    h.Tracks (Run.readReference r) fun v h' => h'.Has v := by
  unfold Run.readReference
  cases r.hops with
  | some hops => exact readAt hops _
  | none =>
    refine .get fun ho => .access r.name fun v hv => ?_
    obtain ⟨g, hg⟩ := Store.bound_of_get hv
    exact ho.values g _ v hg

/-- A name is given a value where it is bound. -/
theorem assign {x : Token} (hx : x.IsName) {v : Value FrameId} (hv : h.Has v)
    {place : Except AccessFault FrameId}
    (hplace : ∀ g, place = .ok g → (h.machine.frames.bindings g).contains x.lexeme) :
    h.Tracks (Run.access x place >>= fun g => Run.bindIn g x.lexeme v) fun _ _ => True := by
  cases place with
  | ok g => exact bindIn hx hv (.inr (hplace g rfl))
  | error fault => cases fault <;> exact .throw _

theorem assignFrom (f : FrameId) {x : Token} (hx : x.IsName) {v : Value FrameId} (hv : h.Has v) :
    h.Tracks (Run.assignFrom f x v) fun _ _ => True :=
  .get fun _ => assign hx hv fun _ hg => Store.contains_of_locate hg

theorem writeReference {r : Reference} (hr : r.name.IsName) {v : Value FrameId} (hv : h.Has v) :
    h.Tracks (Run.writeReference r v) fun _ _ => True := by
  unfold Run.writeReference
  cases r.hops with
  | some hops => exact .get fun _ => assign hr hv fun _ hg => Store.contains_of_locateAt hg
  | none => exact assignFrom globalFrame hr hv

/-- **A body runs in a frame of its own**, and however it ends the frame before is current
again. -/
theorem inFrame {f : FrameId} (hf : h.Ordinary f) {x : Run (Completion FrameId)}
    (hx : ∀ h', h.Lasts h' → h'.Tracks x fun c h'' => h''.HasCompletion c) :
    h.Tracks (Run.inFrame f x) fun c h' => h'.HasCompletion c := by
  intro ho
  have henter : Step h ⟨{ h.machine with current := f }, h.classes⟩ := .enter hf
  have hlasts := henter.lasts ho
  have hbody := hx _ hlasts (henter.orderly ho)
  -- the frame that was current is still one for names of the program
  have hback {m : Machine} {cs : List (ClassValue FrameId)}
      (ht : Trail ⟨{ h.machine with current := f }, h.classes⟩ ⟨m, cs⟩) :
      Step ⟨m, cs⟩ ⟨{ m with current := h.machine.current }, cs⟩ :=
    .enter (ho.current.lasts (hlasts.trans (ht.sound (henter.orderly ho)).2))
  unfold Run.inFrame
  dsimp only
  cases hxm : x { h.machine with current := f } with
  | ok c m =>
    rw [hxm] at hbody
    obtain ⟨cs, ht, hc⟩ := hbody
    have ho' := (ht.sound (henter.orderly ho)).1
    exact ⟨cs, (Relation.ReflTransGen.head henter ht).tail (hback ht),
      hc.lasts ((hback ht).lasts ho')⟩
  | error e m =>
    rw [hxm] at hbody
    obtain ⟨cs, ht⟩ := hbody
    exact ⟨cs, (Relation.ReflTransGen.head henter ht).tail (hback ht)⟩

/-! ### Objects and classes -/

/-- **A method is bound** in a frame that binds its object and nothing else. -/
theorem bindMethod {f : Closure FrameId} (hf : h.HasFunction f) {this : Value FrameId}
    (hthis : h.Has this) : h.Tracks (Run.bind f this) fun g h' => h'.HasFunction g := by
  refine .bind (newFrame hf.live (admits_singleton hthis _)) ?_
  rintro _ h' - ⟨hlive, -⟩
  exact .pure ⟨hlive, hf.shaped⟩

theorem newObject {c : ClassValue FrameId} (hc : c ∈ h.classes) :
    h.Tracks (Run.newObject c) fun v h' => h'.Has v := by
  refine .get fun _ => .bind (Q := fun _ h' => c ∈ h'.classes)
    (.modify (fun _ => .newObject) hc) ?_
  intro _ h' _ hc'
  exact .pure hc'

theorem setField (id : ObjectId) (x : String) {v : Value FrameId} (hv : h.Has v) :
    h.Tracks (Run.setField id x v) fun _ _ => True := .modify (fun _ => .setField id x hv) trivial

theorem readClock : h.Tracks Run.readClock fun v h' => h'.Has v :=
  .get fun _ => .bind (.aside (g := fun m => { m with readings := m.readings + 1 }) (fun _ => rfl)
    (fun _ => rfl) (fun _ => rfl) fun _ => rfl) fun _ _ _ _ => .pure trivial

/-- What a call yields. -/
theorem callResult (room : Nat) (f : Closure FrameId) {c : Completion FrameId}
    (hc : h.HasCompletion c) : h.Tracks (Machine.callResult room f c) fun v h' => h'.Has v := by
  unfold Machine.callResult
  refine .ite (fun _ => .needing _ _ (.get fun ho => ?_)) fun _ => ?_
  · cases hv : h.machine.frames.getAt f.home 0 "this" with
    | ok v =>
      obtain ⟨g, hg⟩ := Store.bound_of_getAt hv
      exact .pure (ho.values g _ v hg)
    | error fault => exact .throw _
  · cases c with
    | giveBack v => exact .pure hc
    | normal | leave => exact .pure trivial

/-! ### Loops -/

theorem repeatWhile {test : Run (Value FrameId)} {body : Run (Completion FrameId)}
    (htest : ∀ h : Heap, h.Tracks test fun _ _ => True)
    (hbody : ∀ h : Heap, h.Tracks body fun c h' => h'.HasCompletion c) (turns : Nat) (h : Heap) :
    h.Tracks (Run.repeatWhile test body turns) fun c h' => h'.HasCompletion c := by
  induction turns generalizing h with
  | zero => exact .throw _
  | succ turns ih =>
    refine .bind (htest h) fun v h₁ _ _ => .ite (fun _ => ?_) fun _ => .pure trivial
    refine .bind (hbody h₁) fun c h₂ _ hc => ?_
    cases c with
    | normal => exact ih h₂
    | leave => exact .pure trivial
    | giveBack v => exact .pure hc

end Tracks
end Heap
end LoxKit
