import LoxKit.Proofs.Machine.Valid

/-!
# Steps that keep the invariant

A step of a watched run keeps the invariant if it does so whether it succeeds or fails, comes
back to the frame it began in, defines names only in the frames that are said, and fails by a
breach for one reason alone: it was about to store to a name that its frame does not bind
(`Keeps`).  This module says so of the single steps; what they yield is as good as the values
they find.
-/
namespace LoxKit

open Scope Watching

/-! ## The one breach -/

/-- A store finds the name it stores to where resolution saw it. -/
def Event.Lands : Event → Prop
  | .stored r m =>
    ∀ d : Nat, r.hops = some d → ∃ g, m.frames.locateAt m.current d r.name.lexeme = .ok g
  | _ => True

/-- Every store in between has found its name. -/
def Watched.Landed (w w' : Watched) : Prop :=
  ∃ new, w'.journal = w.journal ++ new ∧ ∀ e ∈ new, e.Lands

/-- **The store that has not found its name** is the last event. -/
def Watched.Missed (w w' : Watched) (b : Breach) : Prop :=
  ∃ new r m, w'.journal = w.journal ++ (new ++ [.stored r m]) ∧ (∀ e ∈ new, e.Lands) ∧
    ¬(Event.stored r m).Lands ∧ b = .access (.missing r.name.lexeme 0)

/-- **How a step may fail.** -/
def Watched.Fails (w w' : Watched) : Failure → Prop
  | .breach b => w.Missed w' b
  | _ => w.Landed w'

/-- **How a step may go**, if it defines names in the frames said. -/
structure Watched.Goes (V : Visit → Prop) (may : FrameId → Prop) (w w' : Watched) : Prop where
  valid : w'.Valid V
  later : w.Later w'
  steady : w.machine.frames.Steady may w'.machine.frames
  current : w'.machine.current = w.machine.current

/-- **A step keeps the invariant**, and defines names in the frames said. -/
def Keeps (V : Visit → Prop) (may : FrameId → Prop) (w : Watched) (x : Watching α)
    (Q : α → Watched → Prop) : Prop :=
  w.Valid V →
    match x w with
    | .ok a w' => w.Goes V may w' ∧ w.Landed w' ∧ Q a w'
    | .error e w' => w.Goes V may w' ∧ w.Fails w' e

section Watched

variable {V : Visit → Prop} {may p q : FrameId → Prop} {w w' w'' : Watched} {Γ : Stack}

theorem Watched.Landed.refl (w : Watched) : w.Landed w := ⟨[], by simp, by simp⟩

theorem Watched.Landed.trans (h : w.Landed w') (h' : w'.Landed w'') : w.Landed w'' := by
  obtain ⟨new, hj, hnew⟩ := h
  obtain ⟨new', hj', hnew'⟩ := h'
  refine ⟨new ++ new', by rw [hj', hj, List.append_assoc], fun e he => ?_⟩
  exact (List.mem_append.mp he).elim (hnew e) (hnew' e)

theorem Watched.Landed.fails (h : w.Landed w') {e : Failure} (h' : w'.Fails w'' e) :
    w.Fails w'' e := by
  cases e with
  | breach b =>
    obtain ⟨new, hj, hnew⟩ := h
    obtain ⟨new', r, m, hj', hnew', hrest⟩ := h'
    refine ⟨new ++ new', r, m, by rw [hj', hj]; simp, fun e he => ?_, hrest⟩
    exact (List.mem_append.mp he).elim (hnew e) (hnew' e)
  | error place cause => exact h.trans h'
  | stackOverflow => exact h.trans h'
  | outOfTurns => exact h.trans h'

/-- Of two steps the second may define names in frames that are new to the first. -/
theorem Watched.Goes.trans (h : w.Goes V p w') (h' : w'.Goes V q w'')
    (hp : ∀ f < w.machine.frames.frames.size, p f → may f)
    (hq : ∀ f < w.machine.frames.frames.size, q f → may f) : w.Goes V may w'' :=
  ⟨h'.valid, h.later.trans h'.later, h.steady.trans h'.steady h.later.frames.size_le hp hq,
    h'.current.trans h.current⟩

theorem Watched.Goes.widen (h : w.Goes V p w')
    (hp : ∀ f < w.machine.frames.frames.size, p f → may f) : w.Goes V may w' :=
  ⟨h.valid, h.later, h.steady.widen hp, h.current⟩

theorem Watched.Goes.refl (h : w.Valid V) : w.Goes V may w := ⟨h, .refl w, .refl _, rfl⟩

/-- Where a run stands, it goes on to stand if no name is defined there. -/
theorem Watched.Stands.goes_of (h : w.Stands Γ) (hgoes : w.Goes V may w')
    (hmay : ¬may w.machine.current) : w'.Stands Γ := by
  refine ⟨?_, ?_, h.body, ?_⟩
  · rw [hgoes.current]
    exact hgoes.later.matches_ h.chain
  · intro l hl x hx
    rw [hgoes.current] at hx
    exact h.ready l hl x (hgoes.steady _ h.live hmay x hx)
  · rw [hgoes.current]
    exact Nat.lt_of_lt_of_le h.live hgoes.later.frames.size_le

theorem Watched.Stands.goes (h : w.Stands Γ) (hgoes : w.Goes V nowhere w') : w'.Stands Γ :=
  h.goes_of hgoes fun hn => hn

end Watched

namespace Keeps

variable {α β : Type} {V : Visit → Prop} {may p q : FrameId → Prop} {w : Watched}

/-- The frames in which names may be defined may be more, and what a step leads to may be
weakened, also by what holds behind every step. -/
theorem weaken {x : Watching α} {Q R : α → Watched → Prop} (h : Keeps V p w x Q)
    (hp : ∀ f < w.machine.frames.frames.size, p f → may f)
    (hQR : ∀ a w', w.Goes V p w' → Q a w' → R a w') : Keeps V may w x R := by
  intro hw
  have hx := h hw
  cases hxw : x w with
  | ok a w' =>
    rw [hxw] at hx
    exact ⟨hx.1.widen hp, hx.2.1, hQR a w' hx.1 hx.2.2⟩
  | error e w' =>
    rw [hxw] at hx
    exact ⟨hx.1.widen hp, hx.2⟩

theorem imp {x : Watching α} {Q R : α → Watched → Prop} (h : Keeps V may w x Q)
    (hQR : ∀ a w', w.Goes V may w' → Q a w' → R a w') : Keeps V may w x R :=
  h.weaken (fun _ _ hf => hf) hQR

theorem mono {x : Watching α} {Q R : α → Watched → Prop} (h : Keeps V may w x Q)
    (hQR : ∀ a w', Q a w' → R a w') : Keeps V may w x R := h.imp fun a w' _ => hQR a w'

theorem widen {x : Watching α} {Q : α → Watched → Prop} (h : Keeps V p w x Q)
    (hp : ∀ f < w.machine.frames.frames.size, p f → may f) : Keeps V may w x Q :=
  h.weaken hp fun _ _ _ hQ => hQ

/-- What defines no names may define some. -/
theorem anywhere {x : Watching α} {Q : α → Watched → Prop} (h : Keeps V nowhere w x Q) :
    Keeps V may w x Q := h.widen fun _ _ hn => hn.elim

/-- **One step after the other.**  Each may define names where both together may, and the
second also where it is new to the first. -/
theorem bind_of {x : Watching α} {f : α → Watching β} {Q : α → Watched → Prop}
    {R : β → Watched → Prop} (hx : Keeps V p w x Q)
    (hp : ∀ f < w.machine.frames.frames.size, p f → may f)
    (hq : ∀ f < w.machine.frames.frames.size, q f → may f)
    (hf : ∀ a w', w.Goes V p w' → Q a w' → Keeps V q w' (f a) R) :
    Keeps V may w (x >>= f) R := by
  intro hw
  have h := hx hw
  simp only [Bind.bind, EStateM.bind]
  cases hxw : x w with
  | error e w' =>
    rw [hxw] at h
    exact ⟨h.1.widen hp, h.2⟩
  | ok a w' =>
    rw [hxw] at h
    obtain ⟨hgoes, hlanded, hQ⟩ := h
    have h' := hf a w' hgoes hQ hgoes.valid
    cases hfw : f a w' with
    | ok b w'' =>
      rw [hfw] at h'
      simp only [hfw]
      exact ⟨hgoes.trans h'.1 hp hq, hlanded.trans h'.2.1, h'.2.2⟩
    | error e w'' =>
      rw [hfw] at h'
      simp only [hfw]
      exact ⟨hgoes.trans h'.1 hp hq, hlanded.fails h'.2⟩

theorem bind {x : Watching α} {f : α → Watching β} {Q : α → Watched → Prop}
    {R : β → Watched → Prop} (hx : Keeps V may w x Q)
    (hf : ∀ a w', w.Goes V may w' → Q a w' → Keeps V may w' (f a) R) :
    Keeps V may w (x >>= f) R :=
  hx.bind_of (fun _ _ h => h) (fun _ _ h => h) hf

/-- A step that defines no names, and what comes after it. -/
theorem before {x : Watching α} {f : α → Watching β} {Q : α → Watched → Prop}
    {R : β → Watched → Prop} (hx : Keeps V nowhere w x Q)
    (hf : ∀ a w', w.Goes V nowhere w' → Q a w' → Keeps V may w' (f a) R) :
    Keeps V may w (x >>= f) R :=
  hx.bind_of (fun _ _ h => h.elim) (fun _ _ h => h) hf

theorem pure {a : α} {Q : α → Watched → Prop} (h : Q a w) : Keeps V may w (Pure.pure a) Q :=
  fun hw => ⟨.refl hw, .refl w, h⟩

theorem throw {e : Failure} (Q : α → Watched → Prop) (he : ∀ b, e ≠ .breach b) :
    Keeps V may w (MonadExcept.throw e) Q := by
  intro hw
  refine ⟨.refl hw, ?_⟩
  cases e with
  | breach b => exact absurd rfl (he b)
  | _ => exact .refl w

theorem get {Q : Watched → Watched → Prop} (h : Q w w) : Keeps V may w MonadState.get Q :=
  fun hw => ⟨.refl hw, .refl w, h⟩

theorem ite {P : Prop} [Decidable P] {x y : Watching α} {Q : α → Watched → Prop}
    (hx : P → Keeps V may w x Q) (hy : ¬P → Keeps V may w y Q) :
    Keeps V may w (if P then x else y) Q := by
  split
  · exact hx ‹_›
  · exact hy ‹_›

/-- A step with nothing to note, by what it does to the machine. -/
theorem lift {step : Run α} {Q : α → Watched → Prop}
    (h : w.Valid V →
      match step w.machine with
      | .ok a m => w.Goes V may { w with machine := m } ∧ Q a { w with machine := m }
      | .error e m => w.Goes V may { w with machine := m } ∧ ∀ b, e ≠ .breach b) :
    Keeps V may w (Watching.lift step) Q := by
  intro hw
  have hstep := h hw
  have hlanded : ∀ m, w.Landed { w with machine := m } := fun m => ⟨[], by simp, by simp⟩
  unfold Watching.lift
  cases hs : step w.machine with
  | ok a m => rw [hs] at hstep; exact ⟨hstep.1, hlanded m, hstep.2⟩
  | error e m =>
    rw [hs] at hstep
    refine ⟨hstep.1, ?_⟩
    cases e with
    | breach b => exact absurd rfl (hstep.2 b)
    | _ => exact hlanded m

/-- A step that yields something and leaves the machine alone. -/
theorem reading {step : Run α} {Q : α → Prop}
    (h : w.Valid V →
      match step w.machine with
      | .ok a m => m = w.machine ∧ Q a
      | .error e m => m = w.machine ∧ ∀ b, e ≠ .breach b) :
    Keeps V may w (Watching.lift step) fun a w' => w' = w ∧ Q a := by
  refine .lift fun hw => ?_
  have hstep := h hw
  cases hs : step w.machine with
  | ok a m =>
    rw [hs] at hstep
    obtain ⟨rfl, hQ⟩ := hstep
    exact ⟨.refl hw, rfl, hQ⟩
  | error e m =>
    rw [hs] at hstep
    obtain ⟨rfl, he⟩ := hstep
    exact ⟨.refl hw, he⟩

theorem need (spare room : Nat) :
    Keeps V may w (Watching.lift (Run.need spare room)) fun _ w' => w' = w := by
  refine .mono (.reading (Q := fun _ => True) fun _ => ?_) fun _ _ h => h.1
  unfold Run.need
  by_cases h : room < spare
  · rw [if_pos h]
    exact ⟨rfl, Failure.stackOverflow_ne_breach⟩
  · rw [if_neg h]
    exact ⟨rfl, trivial⟩

/-- What needs spare room is begun only if there is so much. -/
theorem needing (spare room : Nat) {x : Unit → Watching α} {Q : α → Watched → Prop}
    (h : Keeps V may w (x ()) Q) : Keeps V may w (Watching.lift (Run.need spare room) >>= x) Q := by
  refine (Keeps.need spare room).bind ?_
  rintro _ _ - rfl
  exact h

theorem fail (place : Token) (cause : RunError) (Q : α → Watched → Prop) :
    Keeps V may w (Watching.lift (Run.fail place cause)) Q :=
  .lift fun hw => ⟨.refl hw, Failure.error_ne_breach place cause⟩

/-- A change of the machine that touches neither frames nor objects. -/
theorem modify {g : Machine → Machine} (hframes : ∀ m, (g m).frames = m.frames)
    (hcurrent : ∀ m, (g m).current = m.current) (hfields : ∀ m, (g m).fields = m.fields) :
    Keeps V may w (Watching.lift (modifyThe Machine g)) fun _ _ => True := by
  refine .lift fun hw => ⟨⟨hw.of_eq (hframes _) (hfields _), ⟨?_, List.prefix_refl _⟩, ?_,
    hcurrent _⟩, trivial⟩
  · rw [hframes]
    exact .refl _
  · rw [hframes]
    exact .refl _

/-- Noting an event that stores nothing. -/
theorem note {event : Machine → Event} (he : (event w.machine).Matched V w.journal)
    (hl : (event w.machine).Lands) :
    Keeps V may w (Watching.note event) fun _ w' => w' =
      { w with journal := w.journal ++ [event w.machine] } :=
  fun hw => ⟨⟨hw.note he, ⟨.refl _, List.prefix_append _ _⟩, .refl _, rfl⟩,
    ⟨[event w.machine], rfl, by simpa using hl⟩, rfl⟩

/-- Going on behind a note that stores nothing. -/
theorem noting {event : Machine → Event} {x : Unit → Watching α} {Q : α → Watched → Prop}
    (he : (event w.machine).Matched V w.journal) (hl : (event w.machine).Lands)
    (h : ∀ w', w.Goes V nowhere w' → Keeps V may w' (x ()) Q) :
    Keeps V may w (Watching.note event >>= x) Q :=
  (Keeps.note he hl).before fun _ w' hgoes _ => h w' hgoes

end Keeps

/-! ## New frames -/

/-- **A frame is opened** in a frame, to bind some names. -/
structure Watched.Opened (w w' : Watched) (opening : Opening) (e : FrameId)
    (b : Bindings (Value FrameId)) (f : FrameId) : Prop where
  new : f = w.machine.frames.frames.size
  live : f < w'.machine.frames.frames.size
  bindings : w'.machine.frames.bindings f = b
  /-- It lies in the scope it is opened for, around it the scopes of the frame around it. -/
  lies : ∀ l Γ, w.Matches e Γ → opening.Opens l → l.BoundIn b → w'.Matches f (l :: Γ)

/-- A run stands in the scope of a frame that is opened, in which just the names bound there
are ready. -/
theorem Watched.Opened.stands {w w' : Watched} {opening : Opening} {e f : FrameId}
    {b : Bindings (Value FrameId)} (h : w.Opened w' opening e b f) {l : Level} {Γ : Stack}
    (hΓ : w.Matches e Γ) (ho : opening.Opens l) (hl : l.BoundIn b)
    (hready : ∀ x, b.contains x → l.names.get? x = some true) (hbody : Stack.OfBody (l :: Γ)) :
    Watched.Stands { w' with machine := { w'.machine with current := f } } (l :: Γ) := by
  refine ⟨h.lies l Γ hΓ ho hl, ?_, hbody, h.live⟩
  rintro _ ⟨rfl⟩ x hx
  refine hready x ?_
  rwa [← h.bindings]

namespace Keeps

variable {α : Type} {V : Visit → Prop} {may : FrameId → Prop} {w : Watched}

/-- **A new frame.** -/
theorem newFrame (opening : Opening) (e : FrameId) {b : Bindings (Value FrameId)}
    (hb : ∀ x v, b.get? x = some v → ValueOk V w v) :
    Keeps V may w (Watching.newFrame opening e b) fun f w' => w.Opened w' opening e b f := by
  intro hw
  let m : Machine := { w.machine with frames := (w.machine.frames.new (some e) b).2 }
  have hnew : Watched.Valid V { w with machine := m } := hw.new e hb
  have hvalid := hnew.note (e := .opened w.machine.frames.frames.size opening) trivial
  have hlater : w.Later ⟨m, w.journal ++ [.opened w.machine.frames.frames.size opening]⟩ :=
    ⟨.new .., List.prefix_append _ _⟩
  have hbindings : m.frames.bindings w.machine.frames.frames.size = b := by
    rw [Store.bindings_new, if_pos rfl]
  have hlive : w.machine.frames.frames.size < m.frames.frames.size := by
    rw [Store.size_new]
    exact Nat.lt_succ_self _
  have hsteady : w.machine.frames.Steady may m.frames := .new _ _ _
  refine ⟨⟨hvalid, hlater, hsteady, rfl⟩, ⟨[_], rfl, by simp [Event.Lands]⟩, rfl, hlive,
    hbindings, fun l Γ hΓ ho hl => ?_⟩
  refine ⟨⟨⟨opening, by simp, ho⟩, ?_⟩, e, ?_, hlater.matches_ hΓ⟩
  · rw [← hbindings] at hl
    exact hl
  · change (w.machine.frames.new (some e) b).2.enclosing? w.machine.frames.frames.size = some e
    rw [Store.enclosing?_new, if_pos rfl]

/-- What is done in another frame. -/
theorem inFrame {f : FrameId} {x : Watching α} {Q : α → Watched → Prop}
    (hx : Keeps V may { w with machine := { w.machine with current := f } } x Q) :
    Keeps V may w (Watching.inFrame f x) fun a w' =>
      ∃ g, Q a { w' with machine := { w'.machine with current := g } } := by
  intro hw
  have h := hx (hw.of_eq rfl rfl)
  unfold Watching.inFrame
  simp only
  cases hxw : x { w with machine := { w.machine with current := f } } with
  | ok a w' =>
    rw [hxw] at h
    obtain ⟨hgoes, hlanded, hQ⟩ := h
    exact ⟨⟨hgoes.valid.of_eq rfl rfl, ⟨hgoes.later.frames, hgoes.later.journal⟩, hgoes.steady,
      rfl⟩, hlanded, w'.machine.current, hQ⟩
  | error e w' =>
    rw [hxw] at h
    obtain ⟨hgoes, hfails⟩ := h
    refine ⟨⟨hgoes.valid.of_eq rfl rfl, ⟨hgoes.later.frames, hgoes.later.journal⟩, hgoes.steady,
      rfl⟩, ?_⟩
    cases e <;> exact hfails

end Keeps
end LoxKit
