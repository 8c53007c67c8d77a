import LoxKit.Proofs.Lexical.Twin

/-!
# Steps that mirror each other

A step of a machine and a step of a world mirror each other (`Mirrors`) if, from where the two
agree, both succeed with results that belong together, or both fail alike, and the two agree
afterwards.

Two things are let pass.  A machine may fail by a breach, but only by that of a name which is
missing in the frame where the machine is; and either side may run out of room before the other,
as far as the leeway goes (`Leeway`).
-/
namespace LoxKit

open Twin

/-- **Which side may run out of room** before the other. -/
structure Leeway where
  machine : Prop
  world : Prop

/-- **What a step of a machine and one of a world lead to** is the same on both sides. -/
inductive Mirrored (L : Leeway) (may : FrameId → Prop) (t : Twin) {α β : Type}
    (Q : α → β → Twin → Prop) :
    EStateM.Result Failure Machine α → EStateM.Result Failure Lexical.World β → Prop where
  | ok {a b} {t' : Twin} : t.Goes may t' → Q a b t' →
    Mirrored L may t Q (.ok a t'.machine) (.ok b t'.world)
  | error {e} {t' : Twin} : t.Goes may t' →
    Mirrored L may t Q (.error e t'.machine) (.error e t'.world)
  | breach {x m r} : Mirrored L may t Q (.error (.breach (.access (.missing x 0))) m) r
  | machineOverflow {m r} : L.machine → Mirrored L may t Q (.error .stackOverflow m) r
  | worldOverflow {r W} : L.world → Mirrored L may t Q r (.error .stackOverflow W)

/-- **A step of a machine and a step of a world mirror each other.** -/
def Mirrors (L : Leeway) (may : FrameId → Prop) (t : Twin) {α β : Type} (x : Run α)
    (y : Lexical.Step β) (Q : α → β → Twin → Prop) : Prop :=
  t.Agrees → Mirrored L may t Q (x t.machine) (y t.world)

namespace Mirrors

variable {L : Leeway} {may : FrameId → Prop} {t : Twin} {α α' β β' : Type}

/-- What two steps may bind may be widened, and what they lead to weakened, also by what holds
behind every step. -/
theorem weaken {p : FrameId → Prop} {x : Run α} {y : Lexical.Step β} {Q R : α → β → Twin → Prop}
    (h : Mirrors L p t x y Q) (hmay : ∀ i < t.size, p i → may i)
    (hQR : ∀ a b t', t.Goes p t' → Q a b t' → R a b t') : Mirrors L may t x y R := by
  intro ht
  have hx := h ht
  generalize x t.machine = r at hx ⊢
  generalize y t.world = r' at hx ⊢
  cases hx with
  | ok hgoes hQ => exact .ok (hgoes.widen hmay) (hQR _ _ _ hgoes hQ)
  | error hgoes => exact .error (hgoes.widen hmay)
  | breach => exact .breach
  | machineOverflow hL => exact .machineOverflow hL
  | worldOverflow hL => exact .worldOverflow hL

theorem imp {x : Run α} {y : Lexical.Step β} {Q R : α → β → Twin → Prop}
    (h : Mirrors L may t x y Q) (hQR : ∀ a b t', t.Goes may t' → Q a b t' → R a b t') :
    Mirrors L may t x y R := h.weaken (fun _ _ hi => hi) hQR

theorem widen {p : FrameId → Prop} {x : Run α} {y : Lexical.Step β} {Q : α → β → Twin → Prop}
    (hx : Mirrors L p t x y Q) (hmay : ∀ i < t.size, p i → may i) :
    Mirrors L may t x y Q := hx.weaken hmay fun _ _ _ _ hQ => hQ

/-- **One step after the other.**  Each may bind what both together may, and the second also
what is new to the first. -/
theorem bind_of {p q : FrameId → Prop} {x : Run α} {y : Lexical.Step β} {f : α → Run α'}
    {g : β → Lexical.Step β'} {Q : α → β → Twin → Prop} {R : α' → β' → Twin → Prop}
    (hx : Mirrors L p t x y Q)
    (hp : ∀ i < t.size, p i → may i) (hq : ∀ i < t.size, q i → may i)
    (hf : ∀ a b t', t.Goes p t' → Q a b t' → Mirrors L q t' (f a) (g b) R) :
    Mirrors L may t (x >>= f) (y >>= g) R := by
  intro ht
  have h := hx ht
  simp only [Bind.bind, EStateM.bind]
  generalize x t.machine = r at h ⊢
  generalize y t.world = r' at h ⊢
  cases h with
  | @ok a b t' hgoes hQ =>
    have h' := hf a b t' hgoes hQ hgoes.agrees
    dsimp only
    generalize f a t'.machine = r at h' ⊢
    generalize g b t'.world = r' at h' ⊢
    cases h' with
    | ok hgoes' hR => exact .ok (hgoes.trans hgoes' hp hq) hR
    | error hgoes' => exact .error (hgoes.trans hgoes' hp hq)
    | breach => exact .breach
    | machineOverflow hL => exact .machineOverflow hL
    | worldOverflow hL => exact .worldOverflow hL
  | error hgoes => exact .error (hgoes.widen hp)
  | breach => exact .breach
  | machineOverflow hL => exact .machineOverflow hL
  | worldOverflow hL =>
    cases r <;> exact .worldOverflow hL

theorem bind {x : Run α} {y : Lexical.Step β} {f : α → Run α'} {g : β → Lexical.Step β'}
    {Q : α → β → Twin → Prop} {R : α' → β' → Twin → Prop} (hx : Mirrors L may t x y Q)
    (hf : ∀ a b t', t.Goes may t' → Q a b t' → Mirrors L may t' (f a) (g b) R) :
    Mirrors L may t (x >>= f) (y >>= g) R :=
  hx.bind_of (fun _ _ h => h) (fun _ _ h => h) hf

/-- A step that binds nothing, and what comes after it. -/
theorem before {x : Run α} {y : Lexical.Step β} {f : α → Run α'} {g : β → Lexical.Step β'}
    {Q : α → β → Twin → Prop} {R : α' → β' → Twin → Prop} (hx : Mirrors L nowhere t x y Q)
    (hf : ∀ a b t', t.Goes nowhere t' → Q a b t' → Mirrors L may t' (f a) (g b) R) :
    Mirrors L may t (x >>= f) (y >>= g) R :=
  hx.bind_of (fun _ _ h => h.elim) (fun _ _ h => h) hf

theorem pure {a : α} {b : β} {Q : α → β → Twin → Prop} (h : Q a b t) :
    Mirrors L may t (Pure.pure a) (Pure.pure b) Q :=
  fun ht => .ok (.refl ht) h

/-- Both sides fail alike. -/
theorem throw (e : Failure) (Q : α → β → Twin → Prop) :
    Mirrors L may t (MonadExcept.throw e) (MonadExcept.throw e) Q :=
  fun ht => .error (.refl ht)

theorem fail (place : Token) (cause : RunError) (Q : α → β → Twin → Prop) :
    Mirrors L may t (Run.fail place cause) (Lexical.Step.fail place cause) Q :=
  .throw _ Q

/-- A step that succeeds on both sides, by what it does. -/
theorem step {x : Run α} {y : Lexical.Step β} {Q : α → β → Twin → Prop} {a : α} {b : β}
    (t' : Twin) (hx : x t.machine = .ok a t'.machine) (hy : y t.world = .ok b t'.world)
    (h : t.Agrees → t.Goes may t' ∧ Q a b t') : Mirrors L may t x y Q := by
  intro ht
  obtain ⟨hgoes, hQ⟩ := h ht
  rw [hx, hy]
  exact .ok hgoes hQ

/-- A step that the machine alone makes first. -/
theorem bind_left {q : FrameId → Prop} {x : Run α} {f : α → Run α'} {y : Lexical.Step β}
    {Q : α' → β → Twin → Prop} {a : α} (t' : Twin) (hx : x t.machine = .ok a t'.machine)
    (hworld : t'.world = t.world)
    (hgoes : t.Agrees → t.Goes nowhere t') (hq : ∀ i < t.size, q i → may i)
    (h : Mirrors L q t' (f a) y Q) : Mirrors L may t (x >>= f) y Q := by
  have hx' : Mirrors L nowhere t x (Pure.pure ()) fun b _ t'' => b = a ∧ t'' = t' :=
    .step t' hx (by rw [hworld]; rfl) fun ht => ⟨hgoes ht, rfl, rfl⟩
  refine hx'.bind_of (g := fun _ => y) (fun _ _ h => h.elim) hq ?_
  rintro _ _ _ - ⟨rfl, rfl⟩
  exact h

theorem ite {P P' : Prop} [Decidable P] [Decidable P'] {x x' : Run α} {y y' : Lexical.Step β}
    {Q : α → β → Twin → Prop} (hP : P ↔ P') (hx : P → Mirrors L may t x y Q)
    (hy : ¬P → Mirrors L may t x' y' Q) :
    Mirrors L may t (if P then x else x') (if P' then y else y') Q := by
  by_cases h : P
  · rw [if_pos h, if_pos (hP.mp h)]
    exact hx h
  · rw [if_neg h, if_neg fun h' => h (hP.mpr h')]
    exact hy h

/-- The machine alone looks at itself. -/
theorem looking {x : Machine → Run α} {y : Lexical.Step β} {Q : α → β → Twin → Prop}
    (h : Mirrors L may t (x t.machine) y Q) : Mirrors L may t (get >>= x) y Q := h

/-- Both sides look at themselves. -/
theorem lookingBoth {x : Machine → Run α} {y : Lexical.World → Lexical.Step β}
    {Q : α → β → Twin → Prop} (h : Mirrors L may t (x t.machine) (y t.world) Q) :
    Mirrors L may t (get >>= x) (get >>= y) Q := h

/-- **The machine alone needs spare room.** -/
theorem needing {spare room : Nat} (hroom : room < spare → L.machine) {x : Unit → Run α}
    {y : Lexical.Step β} {Q : α → β → Twin → Prop} (h : Mirrors L may t (x ()) y Q) :
    Mirrors L may t (Run.need spare room >>= x) y Q := by
  intro ht
  by_cases hlt : room < spare
  · have hneed : (Run.need spare room >>= x) t.machine = .error .stackOverflow t.machine := by
      simp only [Run.need, if_pos hlt, Bind.bind, EStateM.bind]
      rfl
    rw [hneed]
    exact .machineOverflow (hroom hlt)
  · have hneed : (Run.need spare room >>= x) t.machine = x () t.machine := by
      simp only [Run.need, if_neg hlt, Bind.bind, EStateM.bind]
      rfl
    rw [hneed]
    exact h ht

/-- The world alone goes on with what a step yields. -/
theorem yielding {x : Run α} {y : Lexical.Step β} {g : β → β'} {Q : α → β' → Twin → Prop}
    (h : Mirrors L may t x y fun a b t' => Q a (g b) t') :
    Mirrors L may t x (y >>= fun b => Pure.pure (g b)) Q := by
  intro ht
  have hx := h ht
  simp only [Bind.bind, EStateM.bind]
  generalize x t.machine = r at hx ⊢
  generalize y t.world = r' at hx ⊢
  cases hx with
  | ok hgoes hQ => exact .ok hgoes hQ
  | error hgoes => exact .error hgoes
  | breach => exact .breach
  | machineOverflow hL => exact .machineOverflow hL
  | worldOverflow hL => exact .worldOverflow hL

/-- The machine does in another frame what the world does. -/
theorem inFrame {f : FrameId} {x : Run α} {y : Lexical.Step β} {Q : α → β → Twin → Prop}
    (hx : Mirrors L may { t with machine := { t.machine with current := f } } x y Q)
    (hQ : ∀ a b t' g, Q a b t' →
      Q a b { t' with machine := { t'.machine with current := g } }) :
    Mirrors L may t (Run.inFrame f x) y Q := by
  intro ht
  have h := hx { ht with }
  unfold Run.inFrame
  dsimp only at h ⊢
  generalize x { t.machine with current := f } = r at h ⊢
  generalize y t.world = r' at h ⊢
  cases h with
  | @ok a b t' hgoes hQ' =>
    have hback : t.Goes may
        { t' with machine := { t'.machine with current := t.machine.current } } :=
      ⟨{ hgoes.agrees with }, hgoes.later, hgoes.steady, rfl⟩
    exact .ok hback (hQ a b t' _ hQ')
  | @error e t' hgoes =>
    have hback : t.Goes may
        { t' with machine := { t'.machine with current := t.machine.current } } :=
      ⟨{ hgoes.agrees with }, hgoes.later, hgoes.steady, rfl⟩
    exact .error hback
  | breach => exact .breach
  | machineOverflow hL => exact .machineOverflow hL
  | worldOverflow hL => cases r <;> exact .worldOverflow hL

end Mirrors
end LoxKit
