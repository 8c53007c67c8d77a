import LoxKit.Proofs.Machine.Keeps

/-!
# Names in a run

Reading and changing names keeps the invariant, as far as resolution has settled it.  Where a
frame is matched with the scopes of a settled visit, a read finds its name in the frame at the
distance (`Keeps.readReference`).  So does a store, unless it assigns a variable inside the
variable's own initializer; and there it does not, for the current frame binds no name that is
not ready (`Watched.Stands.lands_iff`).
-/
namespace LoxKit

open Scope Watching

variable {V : Visit → Prop} {may : FrameId → Prop} {w : Watched} {Γ : Stack}

/-- Where names lead is where frames lead. -/
theorem Watched.Matches.outward {f : FrameId} (hΓ : w.Matches f Γ) {d : Nat} {l : Level}
    (hl : Γ[d]? = some l) : ∃ g, w.machine.frames.outward? f d = some g ∧ w.LiesIn g l :=
  Store.Chain.outward hΓ hl

/-- **A ready name is read** from the frame that lies in its scope. -/
theorem Watched.Matches.getAt (hw : w.Valid V) {f : FrameId} (hΓ : w.Matches f Γ) {d : Nat}
    {l : Level} {x : String} (hl : Γ[d]? = some l) (hx : l.names.get? x = some true)
    {hops : Int} (hhops : hops.toNat = d) :
    ∃ v, w.machine.frames.getAt f hops x = .ok v ∧ ValueOk V w v ∧
      ∀ site, l = .super site → x = superName → ∃ c, v = .classValue c := by
  obtain ⟨g, hg, -, hnames, hsuper⟩ := hΓ.outward hl
  rw [← hhops] at hg
  have hbound : ((w.machine.frames.bindings g).get? x).isSome := by
    rw [Bindings.isSome_get?]
    exact hnames x hx
  obtain ⟨v, hv⟩ := Option.isSome_iff_exists.mp hbound
  refine ⟨v, Store.getAt_of_bound hg hv, hw.bound g x v hv, ?_⟩
  rintro site rfl rfl
  obtain ⟨c, hc⟩ := hsuper
  exact ⟨c, Option.some.inj (hv.symm.trans hc)⟩

theorem Keeps.readAt {hops : Int} {x : String} {v : Value FrameId}
    (hv : w.machine.frames.getAt w.machine.current hops x = .ok v) :
    Keeps V may w (Watching.lift (Run.readAt hops x)) fun v' w' => w' = w ∧ v' = v := by
  refine .reading fun _ => ?_
  rw [Run.readAt_ok hv]
  exact ⟨rfl, rfl⟩

/-- **A settled read** finds a value, or else names a global that is not defined. -/
theorem Keeps.readReference {r : Reference} (hΓ : w.Matches w.machine.current Γ)
    (hdepth : r.hops = Γ.depth? r.name.lexeme)
    (hready : ∀ d l, r.hops = some d → Γ[d]? = some l →
      l.names.get? r.name.lexeme = some true) :
    Keeps V may w (Watching.lift (Run.readReference r)) fun v w' => w' = w ∧ ValueOk V w v := by
  intro hw
  cases hhops : r.hops with
  | none =>
    refine Keeps.reading (fun _ => ?_) hw
    simp only [Run.readReference, hhops, Run.get_bind]
    cases hget : w.machine.frames.get globalFrame r.name.lexeme with
    | ok v =>
      obtain ⟨g, hg⟩ := Store.bound_of_get hget
      exact ⟨rfl, hw.bound g _ v hg⟩
    | error e =>
      rw [Store.get_error hget]
      exact ⟨rfl, Failure.error_ne_breach _ _⟩
  | some d =>
    obtain ⟨l, hl, -⟩ := Stack.level_of_depth? (hdepth.symm.trans hhops)
    obtain ⟨v, hv, hok, -⟩ := hΓ.getAt hw hl (hready d l hhops hl) (Int.toNat_natCast d)
    have hread : Keeps V may w _ _ := Keeps.readAt hv
    have heq : Run.readReference r = Run.readAt d r.name.lexeme := by
      simp only [Run.readReference, hhops]
    rw [heq]
    exact (hread.mono fun v' w' h => ⟨h.1, h.2 ▸ hok⟩) hw

/-- Entering a name, which the frame must bind if it is ready. -/
theorem Watched.Matches.enter {x : String} {f : FrameId} {ready : Bool} (hΓ : w.Matches f Γ)
    (hbound : ready = true → Γ ≠ [] → (w.machine.frames.bindings f).contains x) :
    w.Matches f (Γ.enter x ready) := by
  have hput : ∀ {names : Scope}, (∀ y, names.get? y = some true →
      (w.machine.frames.bindings f).contains y) → Γ ≠ [] →
      ∀ y, (names.put x ready).get? y = some true →
        (w.machine.frames.bindings f).contains y := by
    intro names h hne y hy
    rw [Bindings.get?_put] at hy
    split at hy
    · rename_i hyx
      rw [hyx]
      exact hbound (Option.some.inj hy) hne
    · exact h y hy
  rcases Γ with - | ⟨l, Γ⟩
  · exact hΓ
  · obtain ⟨⟨hopened, hl⟩, hrest⟩ := hΓ
    cases l with
    | block body names => exact ⟨⟨hopened, hput hl.1 (by simp), trivial⟩, hrest⟩
    | call decl names => exact ⟨⟨hopened, hput hl.1 (by simp), trivial⟩, hrest⟩
    | this site => exact ⟨⟨hopened, hl⟩, hrest⟩
    | super site => exact ⟨⟨hopened, hl⟩, hrest⟩

/-- A run stands in the same way while a name that is not declared yet is entered. -/
theorem Watched.Stands.enter_pending (h : w.Stands Γ) {x : String}
    (hx : ∀ l ∈ Γ.head?, l.names.contains x = false) : w.Stands (Γ.enter x false) := by
  refine ⟨h.chain.enter nofun, ?_, h.body.enter x false, h.live⟩
  rcases Γ with - | ⟨l, Γ⟩
  · exact h.ready
  · obtain ⟨l', henter, hnames⟩ := h.body.enter_cons x false
    rw [henter]
    rintro _ ⟨rfl⟩ y hy
    have hready := h.ready l rfl y hy
    have hyx : y ≠ x := by
      rintro rfl
      rw [Bindings.get?_eq_none (hx l rfl)] at hready
      cases hready
    rw [hnames, if_neg hyx]
    exact hready

/-- Where a run stands behind a name that is defined. -/
theorem Watched.Stands.define (h : w.Stands Γ) {x : String} (v : Value FrameId)
    (hx : x ≠ superName) :
    Watched.Stands { w with machine := { w.machine with
      frames := w.machine.frames.define w.machine.current x v } } (Γ.enter x true) := by
  have hlater : w.Later { w with machine := { w.machine with
      frames := w.machine.frames.define w.machine.current x v } } :=
    ⟨.define _ v h.live hx, List.prefix_refl _⟩
  have hbindings : ∀ f, (w.machine.frames.define w.machine.current x v).bindings f =
      if f = w.machine.current then (w.machine.frames.bindings w.machine.current).put x v
      else w.machine.frames.bindings f :=
    fun f => Store.bindings_define _ _ _ _ _ h.live
  refine ⟨(hlater.matches_ h.chain).enter fun _ _ => ?_, ?_, h.body.enter x true, ?_⟩
  · change ((w.machine.frames.define w.machine.current x v).bindings
      w.machine.current).contains x
    rw [hbindings, if_pos rfl, Bindings.contains_put]
    simp
  · rcases Γ with - | ⟨l, Γ⟩
    · rintro l hl
      cases hl
    · obtain ⟨l', henter, hnames⟩ := h.body.enter_cons x true
      rw [henter]
      rintro _ ⟨rfl⟩ y hy
      change ((w.machine.frames.define w.machine.current x v).bindings
        w.machine.current).contains y at hy
      rw [hbindings, if_pos rfl, Bindings.contains_put] at hy
      rw [hnames]
      by_cases hyx : y = x
      · rw [if_pos hyx]
      · rw [if_neg hyx]
        exact h.ready l rfl y (by simpa [hyx] using hy)
  · exact Nat.lt_of_lt_of_le h.live hlater.frames.size_le

/-- **Defining a name** enters it into the scope of the current frame.  Its value may be at
home in that scope already. -/
theorem Keeps.define {x : String} {v : Value FrameId} (hx : x ≠ superName) (hs : w.Stands Γ)
    (hv : ∀ w', w.Later w' → w'.Matches w.machine.current (Γ.enter x true) → ValueOk V w' v) :
    Keeps V (· = w.machine.current) w (Watching.lift (Run.define x v)) fun _ w' =>
      w'.Stands (Γ.enter x true) := by
  refine .lift fun hw => ?_
  let m : Machine :=
    { w.machine with frames := w.machine.frames.define w.machine.current x v }
  have hlater : w.Later { w with machine := m } := ⟨.define _ v hs.live hx, List.prefix_refl _⟩
  have hs' : Watched.Stands { w with machine := m } (Γ.enter x true) := hs.define v hx
  exact ⟨⟨hw.define hs.live hx (hv _ hlater hs'.chain), hlater, .define _ x v hs.live, rfl⟩, hs'⟩

/-- Changing the value of a name that is bound. -/
theorem goes_bindIn {f : FrameId} {x : String} {v : Value FrameId} (hw : w.Valid V)
    (hf : (w.machine.frames.bindings f).contains x) (hx : x ≠ superName) (hv : ValueOk V w v) :
    w.Goes V may
      { w with machine := { w.machine with frames := w.machine.frames.define f x v } } :=
  have hsize := Store.lt_size_of_contains hf
  have hlater : w.Later { w with machine := { w.machine with
      frames := w.machine.frames.define f x v } } := ⟨.define _ v hsize hx, List.prefix_refl _⟩
  ⟨hw.define hsize hx (hv.later hlater), hlater, .define_bound v hf, rfl⟩

theorem Keeps.assignFrom {f : FrameId} {n : Token} {v : Value FrameId} (hn : n.IsName)
    (hv : ValueOk V w v) :
    Keeps V may w (Watching.lift (Run.assignFrom f n v)) fun _ _ => True := by
  refine .lift fun hw => ?_
  cases hg : w.machine.frames.locate f n.lexeme with
  | ok g =>
    rw [Run.assignFrom_ok hg]
    exact ⟨goes_bindIn hw (Store.contains_of_locate hg) hn.2 hv, trivial⟩
  | error e =>
    unfold Run.assignFrom
    rw [Run.get_bind, hg, Store.locate_error hg]
    exact ⟨.refl hw, Failure.error_ne_breach _ _⟩

/-! ## Stores -/

/-- **A settled store finds its name unless it is inside the initializer of the variable that
it assigns.** -/
theorem Watched.Stands.lands_iff (h : w.Stands Γ) {r : Reference}
    (hs : (Visit.use .assign r Γ).Settled) :
    (Event.stored r w.machine).Lands ↔ ¬(Visit.use .assign r Γ).InOwnInitializer := by
  obtain ⟨hdepth, -, hready⟩ := hs
  constructor
  · rintro hlands ⟨l, hl, hpending⟩
    rcases Γ with - | ⟨l', Γ⟩
    · cases hl
    · cases hl
      -- the innermost scope declares the name, and the current frame does not bind it
      have hdeclares : l.names.contains r.name.lexeme := by
        rw [← Bindings.isSome_get?, hpending]
        rfl
      have hhops : r.hops = some 0 := by
        rw [hdepth, Stack.depth?_cons, if_pos hdeclares]
      have hfree : (w.machine.frames.bindings w.machine.current).contains r.name.lexeme =
          false := by
        rw [Bool.eq_false_iff]
        intro hbound
        cases hpending.symm.trans (h.ready l rfl _ hbound)
      obtain ⟨g, hg⟩ := hlands 0 hhops
      cases hg.symm.trans (Store.locateAt_of_not_contains (d := ((0 : Nat) : Int)) rfl hfree)
  · intro hown d hhops
    obtain ⟨l, hl, -⟩ := Stack.level_of_depth? (hdepth.symm.trans hhops)
    obtain ⟨g, hg, -, hnames, -⟩ := h.chain.outward hl
    rw [← Int.toNat_natCast d] at hg
    rcases hready d l hhops hl with htrue | ⟨rfl, hfalse⟩
    · exact ⟨g, Store.locateAt_of_contains hg (hnames _ htrue)⟩
    · refine absurd ⟨l, ?_, hfalse⟩ hown
      rw [List.head?_eq_getElem?]
      exact hl

/-- **A settled store** finds its variable in the frame at the distance, or is noted as the one
that has not. -/
theorem Keeps.storing {r : Reference} {v : Value FrameId} (hstands : w.Stands Γ)
    (hV : V (.use .assign r Γ)) (hs : (Visit.use .assign r Γ).Settled) (hv : ValueOk V w v) :
    Keeps V may w (do
      Watching.note (.stored r)
      Watching.lift (Run.writeReference r v)
      return v) fun v' w' => ValueOk V w' v' := by
  obtain ⟨hdepth, hn, hready⟩ := hs
  have hmatched : (Event.stored r w.machine).Matched V w.journal := ⟨Γ, hV, hstands⟩
  let w₁ : Watched := { w with journal := w.journal ++ [.stored r w.machine] }
  have hlater : w.Later w₁ := ⟨.refl _, List.prefix_append _ _⟩
  have hv₁ : ValueOk V w₁ v := hv.later hlater
  cases hhops : r.hops with
  | none =>
    refine (Keeps.note hmatched fun d hd => nomatch hhops.symm.trans hd).bind ?_
    rintro _ _ - rfl
    have hwrite : Run.writeReference r v = Run.assignFrom globalFrame r.name v := by
      simp only [Run.writeReference, hhops]
    rw [hwrite]
    exact (Keeps.assignFrom hn hv₁).bind fun _ w' hgoes _ => .pure (hv₁.later hgoes.later)
  | some d =>
    obtain ⟨l, hl, -⟩ := Stack.level_of_depth? (hdepth.symm.trans hhops)
    obtain ⟨g, hg, -, hnames, -⟩ := hstands.chain.outward hl
    rw [← Int.toNat_natCast d] at hg
    have hwrite : Run.writeReference r v = Run.assignAt d r.name v := by
      simp only [Run.writeReference, hhops]
    rw [hwrite]
    cases hbound : (w.machine.frames.bindings g).contains r.name.lexeme with
    | true =>
      have hlocated := Store.locateAt_of_contains hg hbound
      refine (Keeps.note hmatched fun d' hd' => ?_).bind ?_
      · cases hhops.symm.trans hd'
        exact ⟨g, hlocated⟩
      · rintro _ _ - rfl
        have hassign : Keeps V may w₁ (Watching.lift (Run.assignAt d r.name v))
            fun _ _ => True := by
          refine .lift fun hw₁ => ?_
          rw [Run.assignAt_ok hlocated]
          exact ⟨goes_bindIn hw₁ hbound hn.2 hv₁, trivial⟩
        exact hassign.bind fun _ w' hgoes _ => .pure (hv₁.later hgoes.later)
    | false =>
      -- the name is not ready in its scope, so the distance is zero
      have hmissing := Store.locateAt_of_not_contains hg hbound
      obtain ⟨rfl, -⟩ : d = 0 ∧ l.names.get? r.name.lexeme = some false := by
        rcases hready d l hhops hl with h | h
        · rw [hnames _ h] at hbound
          cases hbound
        · exact h
      have hmisses : ¬(Event.stored r w.machine).Lands := by
        intro hlands
        obtain ⟨g', hg'⟩ := hlands 0 hhops
        cases hg'.symm.trans hmissing
      intro hw
      have hassign : Run.assignAt (0 : Nat) r.name v w.machine =
          .error (.breach (.access (.missing r.name.lexeme 0))) w.machine :=
        Run.assignAt_missing hmissing v
      have hrun : (do
          Watching.note (.stored r)
          Watching.lift (Run.assignAt (0 : Nat) r.name v)
          return v : Watching (Value FrameId)) w =
            .error (.breach (.access (.missing r.name.lexeme 0))) w₁ := by
        change (do
          Watching.lift (Run.assignAt (0 : Nat) r.name v)
          return v : Watching (Value FrameId)) w₁ = _
        simp only [Bind.bind, EStateM.bind, Watching.lift]
        rw [show w₁.machine = w.machine from rfl, hassign]
      rw [hrun]
      exact ⟨⟨hw.note hmatched, hlater, .refl _, rfl⟩, [], r, w.machine, by simp [w₁], by simp,
        hmisses, rfl⟩

end LoxKit
