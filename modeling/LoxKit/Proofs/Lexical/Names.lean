import LoxKit.Proofs.Lexical.Mirrors

/-!
# Names on both sides

Where a run stands (`Twin.Stands`), the current frame represents what names mean there, and
binds no local name that is not ready.  So a read and a store that resolution has settled mean
the same on both sides (`Mirrors.read`, `Mirrors.write`), and a declaration of a name that the
scope does not have yet leads to where the run stands behind it (`Mirrors.declare`).

A store to a variable inside the variable's own initializer finds no such name in the frame,
just because the frame binds none that is not ready; it fails by a breach.
-/
namespace LoxKit

open Scope Twin

/-- **Where a run stands.** -/
structure Twin.Stands (t : Twin) (Γ : Stack) (ρ : Lexical.Env) : Prop where
  represents : t.ties.Represents t.machine.current Γ ρ.cells
  /-- What the frame binds is ready. -/
  ready : ∀ l ∈ Γ.head?, ∀ x, (t.bond t.machine.current x).isSome → l.names.get? x = some true
  body : Γ.OfBody
  isLocal : ρ.isLocal = !Γ.isEmpty

/-! ## Looking names up -/

/-- From a frame that nothing encloses, a name is found in that frame or nowhere. -/
theorem Store.locate_outermost {α : Type} {s : Store α} {f : FrameId}
    (h : s.enclosing? f = none) (x : String) :
    s.locate f x = if (s.bindings f).contains x then .ok f else .error (.undefined x) := by
  unfold locate holder?
  rw [h]
  split <;> rename_i hx <;> split at hx <;> simp_all

theorem Store.get_outermost {α : Type} {s : Store α} {f : FrameId}
    (h : s.enclosing? f = none) (x : String) :
    s.get f x = match (s.bindings f).get? x with
      | some v => .ok v
      | none => .error (.undefined x) := by
  have hsome := (s.bindings f).isSome_get? x
  unfold get
  rw [locate_outermost h]
  cases hx : (s.bindings f).get? x with
  | none =>
    rw [hx] at hsome
    rw [← hsome]
    rfl
  | some v =>
    rw [hx] at hsome
    rw [← hsome]
    simp only [Option.isSome_some, if_true, Bind.bind, Except.bind, Store.read, hx]

namespace Twin

variable {t t' : Twin} {Γ : Stack} {ρ : Lexical.Env} {f : FrameId}

/-- Only frames represent anything. -/
theorem Agrees.lt_size_of_represents (h : t.Agrees) {cells : List (String × Lexical.Cell)}
    (hΓ : t.ties.Represents f Γ cells) : f < t.size := by
  cases Γ with
  | nil =>
    obtain ⟨rfl, -⟩ := hΓ
    exact h.size_pos
  | cons l Γ =>
    obtain ⟨g, -, hg, -⟩ := hΓ
    exact Store.lt_size_of_enclosing? hg

/-- In a scope there is a local frame. -/
theorem Agrees.ne_global (h : t.Agrees) {l : Level} {cells : List (String × Lexical.Cell)}
    (hΓ : t.ties.Represents f (l :: Γ) cells) : f ≠ globalFrame := by
  rintro rfl
  obtain ⟨g, -, hg, -⟩ := hΓ
  cases h.outermost.symm.trans hg

/-- Where a run stands, it goes on to stand if nothing is bound there. -/
theorem Stands.goes_of (h : t.Stands Γ ρ) (ht : t.Agrees) {may : FrameId → Prop}
    (hgoes : t.Goes may t') (hmay : ¬may t.machine.current) : t'.Stands Γ ρ := by
  have hlt := ht.lt_size_of_represents h.represents
  refine ⟨?_, ?_, h.body, h.isLocal⟩
  · rw [hgoes.current]
    exact h.represents.later hgoes.later
  · intro l hl x hx
    rw [hgoes.current, hgoes.steady _ hlt hmay] at hx
    exact h.ready l hl x hx

theorem Stands.goes (h : t.Stands Γ ρ) (ht : t.Agrees) (hgoes : t.Goes nowhere t') :
    t'.Stands Γ ρ :=
  h.goes_of ht hgoes fun hn => hn

/-- A run stands in the same way while a name that it does not know is declared. -/
theorem Stands.enter_pending (h : t.Stands Γ ρ) {x : String}
    (hx : ∀ l ∈ Γ.head?, l.names.contains x = false) : t.Stands (Γ.enter x false) ρ := by
  refine ⟨h.represents.enter_pending hx, ?_, h.body.enter x false, ?_⟩
  · rcases Γ with - | ⟨l, Γ⟩
    · exact h.ready
    · have hl := hx l rfl
      have hready := h.ready l rfl
      cases l with
      | block body names =>
        rintro _ ⟨rfl⟩ y hy
        exact (Scope.get?_put_false hl y).mpr (hready y hy)
      | call decl names =>
        rintro _ ⟨rfl⟩ y hy
        exact (Scope.get?_put_false hl y).mpr (hready y hy)
      | this site => exact h.ready
      | super site => exact h.ready
  · rw [h.isLocal]
    rcases Γ with - | ⟨l, Γ⟩
    · rfl
    · cases l <;> rfl

end Twin

/-! ## Reading and storing -/

namespace Mirrors

variable {L : Leeway} {may : FrameId → Prop} {t : Twin} {Γ : Stack} {ρ : Lexical.Env}

/-- A local name is read from its frame and from its cell. -/
theorem readAt {f g : FrameId} {hops : Int} {x : String} {ℓ : Lexical.Cell}
    (hf : t.machine.current = f) (hg : t.ties.frames.outward? f hops.toNat = some g)
    (hℓ : t.bond g x = some ℓ) :
    Mirrors L may t (Run.readAt hops x) (Lexical.Step.content ℓ)
      fun v v' t' => t' = t ∧ ValueLike t.ties v v' ∧ (t.bindings g).get? x = some v := by
  intro ht
  obtain ⟨v, v', hv, hv', hlike⟩ := ht.held g x ℓ hℓ
  have hread : Run.readAt hops x t.machine = .ok v t.machine := by
    subst hf
    have hget : t.machine.frames.getAt t.machine.current hops x = .ok v :=
      Store.getAt_of_bound hg hv
    exact Run.readAt_ok hget
  have hcontent : Lexical.Step.content ℓ t.world = .ok v' t.world := Lexical.Step.content_eq hv'
  exact step (L := L) (Q := fun v v' t' => t' = t ∧ ValueLike t.ties v v' ∧
    (t.bindings g).get? x = some v) t hread hcontent (fun ht => ⟨.refl ht, rfl, hlike, hv⟩) ht

/-- **A settled use** finds the same on both sides. -/
theorem read (hs : t.Stands Γ ρ) {r : Reference} (hdepth : r.hops = Γ.depth? r.name.lexeme)
    (hready : ∀ d l, r.hops = some d → Γ[d]? = some l →
      l.names.get? r.name.lexeme = some true) :
    Mirrors L may t (Run.readReference r) (Lexical.Step.read ρ r.name)
      fun v v' t' => t' = t ∧ ValueLike t.ties v v' := by
  cases hhops : r.hops with
  | none =>
    have hcell : ρ.cell? r.name.lexeme = none :=
      hs.represents.lookup_none (hdepth.symm.trans hhops)
    intro ht
    have hglobal : Option.Rel (ValueLike t.ties)
        ((t.machine.frames.bindings globalFrame).get? r.name.lexeme)
        (t.world.globals.get? r.name.lexeme) := ht.globals r.name.lexeme
    have hmachine : Run.readReference r t.machine =
        Run.access r.name (t.machine.frames.get globalFrame r.name.lexeme) t.machine := by
      simp only [Run.readReference, hhops]
      rfl
    rw [hmachine, Store.get_outermost ht.outermost]
    unfold Lexical.Step.read
    rw [hcell]
    dsimp only
    rw [Lexical.Step.get_bind]
    generalize (t.machine.frames.bindings globalFrame).get? r.name.lexeme = v at hglobal ⊢
    generalize t.world.globals.get? r.name.lexeme = v' at hglobal ⊢
    cases hglobal with
    | none => exact .error (.refl ht)
    | some hv => exact .ok (.refl ht) ⟨rfl, hv⟩
  | some d =>
    obtain ⟨l, hl, -⟩ := Stack.level_of_depth? (hdepth.symm.trans hhops)
    obtain ⟨g, ℓ, hg, hℓ, hlookup⟩ := hs.represents.lookup_some (hdepth.symm.trans hhops) hl
      (hready d l hhops hl)
    have hmachine : Run.readReference r = Run.readAt d r.name.lexeme := by
      simp only [Run.readReference, hhops]
    have hworld : Lexical.Step.read ρ r.name = Lexical.Step.content ℓ := by
      simp only [Lexical.Step.read, show ρ.cell? r.name.lexeme = some ℓ from hlookup]
    rw [hmachine, hworld]
    rw [← Int.toNat_natCast d] at hg
    exact (readAt rfl hg hℓ).imp fun _ _ _ _ h => ⟨h.1, h.2.1⟩

/-- **A store to a global name** changes the same on both sides. -/
theorem assignGlobal {n : Token} (hcell : ρ.cell? n.lexeme = none) {v : Value FrameId}
    {v' : Value Lexical.Env} (hv : ValueLike t.ties v v') :
    Mirrors L nowhere t (Run.assignFrom globalFrame n v) (Lexical.Step.write ρ n v')
      fun _ _ _ => True := by
  intro ht
  have hglobal : Option.Rel (ValueLike t.ties)
      ((t.machine.frames.bindings globalFrame).get? n.lexeme)
      (t.world.globals.get? n.lexeme) := ht.globals n.lexeme
  have hmachine : Run.assignFrom globalFrame n v t.machine = (do
      let g ← Run.access n (t.machine.frames.locate globalFrame n.lexeme)
      Run.bindIn g n.lexeme v : Run Unit) t.machine := rfl
  have hworld : Lexical.Step.write ρ n v' t.world =
      (if t.world.globals.contains n.lexeme then
        modify fun W => { W with globals := W.globals.put n.lexeme v' }
      else Lexical.Step.fail n (.undefinedVariable n.lexeme) : Lexical.Step Unit) t.world := by
    simp only [Lexical.Step.write, hcell]
    rfl
  rw [hmachine, hworld, Store.locate_outermost ht.outermost, ← Bindings.isSome_get?,
    ← Bindings.isSome_get?]
  generalize (t.machine.frames.bindings globalFrame).get? n.lexeme = u at hglobal ⊢
  generalize t.world.globals.get? n.lexeme = u' at hglobal ⊢
  cases hglobal with
  | none => exact .error (.refl ht)
  | some _ => exact .ok (ht.defineGlobal _ hv) trivial

/-- **A settled store** changes the same on both sides, or is a breach: it assigns a variable
inside the variable's own initializer. -/
theorem write (hs : t.Stands Γ ρ) {r : Reference} (hsettled : (Visit.use .assign r Γ).Settled)
    {v : Value FrameId} {v' : Value Lexical.Env} (hv : ValueLike t.ties v v') :
    Mirrors L nowhere t (Run.writeReference r v) (Lexical.Step.write ρ r.name v')
      fun _ _ _ => True := by
  obtain ⟨hdepth, -, hready⟩ := hsettled
  cases hhops : r.hops with
  | none =>
    have hmachine : Run.writeReference r v = Run.assignFrom globalFrame r.name v := by
      simp only [Run.writeReference, hhops]
    rw [hmachine]
    exact assignGlobal (hs.represents.lookup_none (hdepth.symm.trans hhops)) hv
  | some d =>
    intro ht
    obtain ⟨l, hl, hc⟩ := Stack.level_of_depth? (hdepth.symm.trans hhops)
    have hmachine : Run.writeReference r v = Run.assignAt d r.name v := by
      simp only [Run.writeReference, hhops]
    rw [hmachine]
    rcases hready d l hhops hl with hx | ⟨rfl, hx⟩
    · obtain ⟨g, ℓ, hg, hℓ, hlookup⟩ :=
        hs.represents.lookup_some (hdepth.symm.trans hhops) hl hx
      rw [← Int.toNat_natCast d] at hg
      have hcontains : (t.machine.frames.bindings g).contains r.name.lexeme := ht.contains hℓ
      have hassign : Run.assignAt d r.name v t.machine =
          .ok () (t.assign g r.name.lexeme ℓ v v').machine := by
        have hlocate : t.machine.frames.locateAt t.machine.current d r.name.lexeme = .ok g :=
          Store.locateAt_of_contains hg hcontains
        exact Run.assignAt_ok hlocate v
      have hwrite : Lexical.Step.write ρ r.name v' t.world =
          .ok () (t.assign g r.name.lexeme ℓ v v').world := by
        simp only [Lexical.Step.write, show ρ.cell? r.name.lexeme = some ℓ from hlookup]
        rfl
      rw [hassign, hwrite]
      exact .ok (ht.assign hℓ hv) trivial
    · -- the frame binds only what is ready, and the name is not
      have hmissing : (t.machine.frames.bindings t.machine.current).contains r.name.lexeme
          = false := by
        rw [← Bool.not_eq_true]
        intro hbound
        rcases Γ with - | ⟨l', Γ⟩
        · cases hl
        · cases hl
          have htied := ht.tied _ _ (ht.ne_global hs.represents) hbound
          cases (hs.ready _ rfl _ htied).symm.trans hx
      have hassign : Run.assignAt (0 : Nat) r.name v t.machine =
          .error (.breach (.access (.missing r.name.lexeme (0 : Nat)))) t.machine := by
        have hlocate := Store.locateAt_of_not_contains (d := (0 : Nat))
          (f := t.machine.current) rfl hmissing
        exact Run.assignAt_missing hlocate v
      rw [hassign]
      exact .breach

end Mirrors
end LoxKit
