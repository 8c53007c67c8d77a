import LoxKit.Proofs.Scope.Stack
import LoxKit.Scope.Resolution

/-!
# Resolution settles what it accepts

A program in which resolution finds nothing wrong comes out with every visit settled
(`Program.resolve_settled`): each distance it noted is right, no name is declared twice in a
scope, and what is read has been defined.  Nothing but the distances is changed, and the
notes are those of the visits, one by one.

Resolution goes on behind a fault, so a step promises something only if nothing has been
reported by its end (`Clean`).
-/
namespace LoxKit
namespace Scope

variable {α β : Type} {w : Walk}

/-! ## Steps that find nothing wrong -/

/-- **The diagnostic of a fault** that resolution finds. -/
def Fault.Reported (d : Diagnostic) : Prop :=
  d.runtime = false ∧ ∃ f : Fault, d.message = f.message

/-- **What is reported on the way** are faults of the program text. -/
def Walk.Reports (w w' : Walk) : Prop :=
  ∃ ds, w'.diagnostics = w.diagnostics ++ ds ∧ ∀ d ∈ ds, Fault.Reported d

theorem Walk.Reports.of_eq {w' : Walk} (h : w'.diagnostics = w.diagnostics) : w.Reports w' :=
  ⟨[], by simpa using h, nofun⟩

theorem Walk.Reports.trans {w' w'' : Walk} (h : w.Reports w') (h' : w'.Reports w'') :
    w.Reports w'' := by
  obtain ⟨ds, hd, hstatic⟩ := h
  obtain ⟨ds', hd', hstatic'⟩ := h'
  refine ⟨ds ++ ds', by rw [hd', hd, List.append_assoc], fun d hmem => ?_⟩
  exact (List.mem_append.mp hmem).elim (hstatic d) (hstatic' d)

theorem Walk.Reports.length_le {w' : Walk} (h : w.Reports w') :
    w.diagnostics.length ≤ w'.diagnostics.length := by
  obtain ⟨ds, hd, -⟩ := h
  rw [hd, List.length_append]
  omega

/-- Nothing was reported on the way if nothing was by its end. -/
theorem Walk.Reports.left_eq {w' w'' : Walk} (h : w.Reports w') (h' : w'.Reports w'')
    (hd : w''.diagnostics = w.diagnostics) : w'.diagnostics = w.diagnostics := by
  obtain ⟨ds, hds, -⟩ := h
  have hlen := h'.length_le
  rw [hd, hds, List.length_append] at hlen
  have hnil : ds = [] := List.eq_nil_of_length_eq_zero (by omega)
  rw [hds, hnil, List.append_nil]

/-- **What a step leads to if it reports nothing.** -/
def Clean (w : Walk) (x : Resolving α) (Q : α → Walk → Prop) : Prop :=
  match x w with
  | .ok a w' => w.Reports w' ∧ (w'.diagnostics = w.diagnostics → Q a w')
  | .error _ w' => w.Reports w'

namespace Clean

theorem mono {x : Resolving α} {Q R : α → Walk → Prop} (h : Clean w x Q)
    (hQR : ∀ a w', Q a w' → R a w') : Clean w x R := by
  unfold Clean at h ⊢
  cases hx : x w with
  | ok a w' => rw [hx] at h; exact ⟨h.1, fun hd => hQR a w' (h.2 hd)⟩
  | error e w' => rw [hx] at h; exact h

/-- Two steps report nothing if neither does. -/
theorem bind {x : Resolving α} {f : α → Resolving β} {Q : α → Walk → Prop}
    {R : α → Walk → β → Walk → Prop} (hx : Clean w x Q)
    (hf : ∀ a w', Clean w' (f a) (R a w')) :
    Clean w (x >>= f) fun b w'' => ∃ a w', Q a w' ∧ R a w' b w'' := by
  unfold Clean at hx ⊢
  simp only [Bind.bind, EStateM.bind]
  cases hxw : x w with
  | error e w' => rw [hxw] at hx; exact hx
  | ok a w' =>
    rw [hxw] at hx
    have hfa := hf a w'
    unfold Clean at hfa
    cases hfw : f a w' with
    | error e w'' => rw [hfw] at hfa; simpa only [hfw] using hx.1.trans hfa
    | ok b w'' =>
      rw [hfw] at hfa
      simp only [hfw]
      refine ⟨hx.1.trans hfa.1, fun hd => ?_⟩
      have hw' := hx.1.left_eq hfa.1 hd
      exact ⟨a, w', hx.2 hw', hfa.2 (hd.trans hw'.symm)⟩

theorem pure (a : α) : Clean w (Pure.pure a) fun b w' => b = a ∧ w' = w :=
  ⟨.of_eq rfl, fun _ => ⟨rfl, rfl⟩⟩

theorem throw (e : Halt) (Q : α → Walk → Prop) :
    Clean w (MonadExcept.throw e : Resolving α) Q :=
  Walk.Reports.of_eq rfl

theorem get : Clean w (MonadState.get : Resolving Walk) fun a w' => a = w ∧ w' = w :=
  ⟨.of_eq rfl, fun _ => ⟨rfl, rfl⟩⟩

theorem modify {g : Walk → Walk} (h : (g w).diagnostics = w.diagnostics) :
    Clean w (modifyThe Walk g : Resolving Unit) fun _ w' => w' = g w :=
  ⟨.of_eq h, fun _ => rfl⟩

theorem need (spare room : Nat) : Clean w (Scope.need spare room) fun _ w' => w' = w := by
  unfold Scope.need
  split
  · exact Clean.throw ..
  · exact (Clean.pure ()).mono fun _ _ h => h.2

/-- A fault is a report. -/
theorem blame (room : Nat) (t : Token) (f : Fault) :
    Clean w (Scope.blame room t f) fun _ _ => False := by
  refine ((Clean.need ..).bind fun _ w' => (?_ : Clean w' _ fun _ _ => False)).mono ?_
  · refine ⟨⟨[_], rfl, ?_⟩, fun h => by simp [Walk.blame] at h⟩
    intro d hd
    rw [List.mem_singleton.mp hd]
    exact ⟨rfl, f, rfl⟩
  · rintro _ _ ⟨_, _, _, h⟩
    exact h

theorem blameIf (c : Bool) (room : Nat) (t : Token) (f : Fault) :
    Clean w (Scope.blameIf c room t f) fun _ w' => c = false ∧ w' = w := by
  unfold Scope.blameIf
  cases c
  · exact (Clean.pure ()).mono fun _ _ h => ⟨rfl, h.2⟩
  · exact (Clean.blame ..).mono fun _ _ h => h.elim

end Clean

/-! ## Single steps -/

theorem Walk.diagnostics_declare (w : Walk) (name : Token) :
    (w.declare name).diagnostics = w.diagnostics := by
  unfold Walk.declare
  split <;> rfl

theorem Walk.diagnostics_define (w : Walk) (name : Token) :
    (w.define name).diagnostics = w.diagnostics := by
  unfold Walk.define
  split <;> rfl

theorem Walk.diagnostics_use (w : Walk) (kind : UseKind) (name : Token) :
    (w.use kind name).diagnostics = w.diagnostics := by
  unfold Walk.use
  split <;> rfl

theorem clean_declare (room : Nat) (name : Token) :
    Clean w (declare room name) fun _ w' =>
      w.declares name = false ∧ w' = (w.lookAt name).declare name := by
  refine ((Clean.need 1 room).bind fun _ _ => (Clean.modify rfl).bind fun _ _ =>
    Clean.get.bind fun _ _ => (Clean.blameIf ..).bind fun _ _ =>
      Clean.modify (Walk.diagnostics_declare ..)).mono ?_
  rintro _ _ ⟨_, _, rfl, _, _, rfl, _, _, ⟨rfl, rfl⟩, _, _, ⟨h, rfl⟩, rfl⟩
  exact ⟨h, rfl⟩

theorem clean_introduce (room : Nat) (name : Token) :
    Clean w (introduce room name) fun _ w' =>
      w.declares name = false ∧ w' = ((w.lookAt name).declare name).define name := by
  refine ((clean_declare room name).bind fun _ _ =>
    Clean.modify (Walk.diagnostics_define ..)).mono ?_
  rintro _ _ ⟨_, _, ⟨h, rfl⟩, rfl⟩
  exact ⟨h, rfl⟩

theorem clean_resolved (room : Nat) (kind : UseKind) (r : Reference) :
    Clean w (resolved room kind r) fun r' w' =>
      r' = { r with hops := depth? w.scopes r.name.lexeme } ∧
        w' = (w.lookAt r.name).use kind r.name := by
  refine ((Clean.need 1 room).bind fun _ _ => (Clean.modify rfl).bind fun _ _ =>
    (Clean.need 2 room).bind fun _ _ => Clean.get.bind fun _ _ =>
      (Clean.modify (Walk.diagnostics_use ..)).bind fun _ _ => Clean.pure _).mono ?_
  rintro _ _ ⟨_, _, rfl, _, _, rfl, _, _, rfl, _, _, ⟨rfl, rfl⟩, _, _, rfl, rfl, rfl⟩
  exact ⟨rfl, rfl⟩

theorem clean_readReference (room : Nat) (r : Reference) :
    Clean w (readReference room r) fun r' w' =>
      w.pending r.name = false ∧ r' = { r with hops := depth? w.scopes r.name.lexeme } ∧
        w' = (w.lookAt r.name).use .read r.name := by
  refine (Clean.get.bind fun _ _ => (Clean.blameIf ..).bind fun _ _ =>
    clean_resolved room .read r).mono ?_
  rintro _ _ ⟨_, _, ⟨rfl, rfl⟩, _, _, ⟨h, rfl⟩, h'⟩
  exact ⟨h, h'⟩

theorem clean_inScope (room : Nat) (names : List String) {p : Resolving α}
    {Q : Walk → α → Walk → Prop} (hp : ∀ w, Clean w p (Q w)) :
    Clean w (inScope room names p) fun a w' =>
      ∃ w₁, Q (w.push names) a w₁ ∧ w' = w₁.pop := by
  refine ((Clean.need scopeRoom room).bind fun _ _ => (Clean.modify rfl).bind fun _ w₁ =>
    (hp w₁).bind fun _ _ => (Clean.modify rfl).bind fun _ _ => Clean.pure _).mono ?_
  rintro _ _ ⟨_, _, rfl, _, _, rfl, _, w₁, h, _, _, rfl, rfl, rfl⟩
  exact ⟨w₁, h, rfl⟩

/-! ## Keeping to a stack -/

/-- **Resolution is where a stack says.** -/
structure Follows (Γ : Stack) (w : Walk) : Prop where
  scopes : w.scopes = Γ.scopes
  classContext : w.classContext = Γ.classContext

/-- **Some visits have been made**: each is settled and noted, and the open scopes are now
those of the stack behind them. -/
structure Noted (Γ : Stack) (w w' : Walk) (visits : List Visit) : Prop where
  scopes : w'.scopes = Γ.scopes
  classContext : w'.classContext = w.classContext
  annotations : w'.annotations = w.annotations ++ visits.filterMap Visit.annotation?
  settled : ∀ v ∈ visits, v.Settled

theorem Noted.none {Γ : Stack} (h : w.scopes = Γ.scopes) : Noted Γ w w [] :=
  ⟨h, rfl, by simp, by simp⟩

theorem Noted.append {Γ Δ : Stack} {w₁ w₂ : Walk} {vs us : List Visit} (h : Noted Γ w w₁ vs)
    (h' : Noted Δ w₁ w₂ us) : Noted Δ w w₂ (vs ++ us) where
  scopes := h'.scopes
  classContext := h'.classContext.trans h.classContext
  annotations := by rw [h'.annotations, h.annotations, List.filterMap_append, List.append_assoc]
  settled v hv := (List.mem_append.mp hv).elim (h.settled v) (h'.settled v)

/-- Behind its visits, resolution is where the stack says. -/
theorem Noted.follows {Γ Δ : Stack} {w' : Walk} {vs : List Visit} (h : Noted Δ w w' vs)
    (hw : Follows Γ w) (hc : Δ.classContext = Γ.classContext) : Follows Δ w' :=
  ⟨h.scopes, h.classContext.trans (hw.classContext.trans hc.symm)⟩

/-- Visiting a use of a name. -/
theorem Noted.use {Γ : Stack} {kind : UseKind} {r : Reference} (h : w.scopes = Γ.scopes)
    (hs : (Visit.use kind { r with hops := Γ.depth? r.name.lexeme } Γ).Settled) :
    Noted Γ w ((w.lookAt r.name).use kind r.name)
      [.use kind { r with hops := Γ.depth? r.name.lexeme } Γ] := by
  have hdepth : depth? (w.lookAt r.name).scopes r.name.lexeme = Γ.depth? r.name.lexeme := by
    rw [Stack.depth?, ← h]
    rfl
  unfold Walk.use
  rw [hdepth]
  refine ⟨?_, ?_, ?_, ?_⟩
  · split <;> exact h
  · split <;> rfl
  · cases hd : Γ.depth? r.name.lexeme <;> simp [Visit.annotation?, Walk.lookAt, hd]
  · simpa using hs

/-- Visiting a declaration of a name, not ready yet. -/
theorem Noted.declare {Γ : Stack} {n : Token} (h : w.scopes = Γ.scopes) (hΓ : Γ.WellFormed)
    (hn : n.IsName) (hw : w.declares n = false) :
    Noted (Γ.enter n.lexeme false) w ((w.lookAt n).declare n) [.declare n Γ] := by
  refine ⟨?_, ?_, ?_, ?_⟩
  · cases hΓ <;> simp_all [Walk.declare, Walk.lookAt, Stack.enter, Level.names]
  · unfold Walk.declare
    split <;> rfl
  · unfold Walk.declare
    split <;> simp [Visit.annotation?, Walk.lookAt]
  · rintro v hv
    rw [List.mem_singleton.mp hv]
    refine ⟨hn, fun l hl => ?_⟩
    rcases Γ with - | ⟨l', Γ⟩
    · cases hl
    · cases hl
      simpa [Walk.declares, h] using hw

/-- Making a name ready is no visit. -/
theorem Noted.define {Γ : Stack} {n : Token} {b : Bool} {w' : Walk} {vs : List Visit}
    (h : Noted (Γ.enter n.lexeme b) w w' vs) (hΓ : Γ.WellFormed) :
    Noted (Γ.enter n.lexeme true) w (w'.define n) vs := by
  have hs := h.scopes
  refine ⟨?_, ?_, ?_, h.settled⟩
  · cases hΓ <;> simp_all [Walk.define, Stack.enter, Level.names]
  · rw [← h.classContext]
    unfold Walk.define
    split <;> rfl
  · rw [← h.annotations]
    unfold Walk.define
    split <;> rfl

/-- Visiting a declaration of a name that is ready at once. -/
theorem Noted.introduce {Γ : Stack} {n : Token} (h : w.scopes = Γ.scopes) (hΓ : Γ.WellFormed)
    (hn : n.IsName) (hw : w.declares n = false) :
    Noted (Γ.enter n.lexeme true) w (((w.lookAt n).declare n).define n) [.declare n Γ] :=
  (Noted.declare h hΓ hn hw).define hΓ

/-! ## Uses of names -/

/-- A variable that is not being initialized has been defined. -/
theorem settled_read {Γ : Stack} {r : Reference} (h : w.scopes = Γ.scopes) (hΓ : Γ.TailReady)
    (hr : r.name.IsName) (hw : w.pending r.name = false) :
    (Visit.use .read { r with hops := Γ.depth? r.name.lexeme } Γ).Settled := by
  refine ⟨rfl, hr, fun d l hd hl => ?_⟩
  obtain ⟨l', hl', hc⟩ := Stack.level_of_depth? hd
  cases hl.symm.trans hl'
  rcases d with - | d
  · rcases Γ with - | ⟨l₀, Γ⟩
    · cases hl
    · cases hl
      have hsome : (l.names.get? r.name.lexeme).isSome := by rwa [Bindings.isSome_get?]
      obtain ⟨ready, hready⟩ := Option.isSome_iff_exists.mp hsome
      cases ready with
      | true => exact hready
      | false => simp [Walk.pending, h, hready] at hw
  · exact hΓ l (List.mem_of_getElem? (by simpa using hl)) _ hc

/-- A superclass that is not the class itself has been defined before it. -/
theorem settled_superclass {Γ : Stack} {r : Reference} {x : String} (hx : r.name.lexeme ≠ x)
    (h : (Visit.use .read { r with hops := (Γ.enter x true).depth? r.name.lexeme }
      (Γ.enter x true)).Settled) :
    (Visit.use .read { r with hops := (Γ.enter x true).depth? r.name.lexeme }
      (Γ.enter x false)).Settled := by
  obtain ⟨-, hr, hready⟩ := h
  refine ⟨Stack.depth?_enter .., hr, fun d l hd hl => ?_⟩
  rcases Γ with - | ⟨l₀, Γ⟩
  · cases hl
  · cases d with
    | zero => cases l₀ <;> cases hl <;>
      simpa [Stack.enter, Level.names, hx, Bindings.get?_put] using hready 0 _ hd rfl
    | succ d => exact hready (d + 1) l hd (by cases l₀ <;> exact hl)

/-- A variable may be assigned as soon as it is declared. -/
theorem settled_assign {Γ : Stack} {r : Reference} (hΓ : Γ.TailReady) (hr : r.name.IsName) :
    (Visit.use .assign { r with hops := Γ.depth? r.name.lexeme } Γ).Settled := by
  refine ⟨rfl, hr, fun d l hd hl => ?_⟩
  obtain ⟨l', hl', hc⟩ := Stack.level_of_depth? hd
  cases hl.symm.trans hl'
  rcases d with - | d
  · have hsome : (l.names.get? r.name.lexeme).isSome := by rwa [Bindings.isSome_get?]
    obtain ⟨ready, hready⟩ := Option.isSome_iff_exists.mp hsome
    cases ready with
    | true => exact .inl hready
    | false => exact .inr ⟨rfl, hready⟩
  · have hl'' : l ∈ Γ.tail := List.mem_of_getElem? (i := d) (by simpa using hl)
    exact .inl (hΓ l hl'' _ hc)

/-- Visiting the superclass of a class. -/
theorem Noted.superclass {Γ : Stack} {r : Reference} {x : String} {w' : Walk}
    (h : Noted (Γ.enter x true) w w'
      [.use .read { r with hops := (Γ.enter x true).depth? r.name.lexeme } (Γ.enter x true)])
    (hx : r.name.lexeme ≠ x) :
    Noted (Γ.enter x true) w w'
      [.use .read { r with hops := (Γ.enter x true).depth? r.name.lexeme } (Γ.enter x false)] := by
  refine ⟨h.scopes, h.classContext, ?_, ?_⟩
  · rw [h.annotations]
    simp only [List.filterMap_cons, Visit.annotation?, Stack.depth?_enter Γ x _ true false]
  · simpa using settled_superclass hx (h.settled _ List.mem_cons_self)

/-! ## Expressions -/

/-- What resolution makes of an expression that it accepts. -/
def ExprSettled (e : Expr) (w : Walk) (e' : Expr) (w' : Walk) : Prop :=
  e'.bare = e.bare ∧
  ∀ Γ, Follows Γ w → Γ.WellFormed → Γ.TailReady → e.Shaped → Noted Γ w w' (e'.visits Γ)

/-- What resolution makes of expressions that it accepts. -/
def ExprsSettled (es : List Expr) (w : Walk) (es' : List Expr) (w' : Walk) : Prop :=
  Expr.bareAll es' = Expr.bareAll es ∧
  ∀ Γ, Follows Γ w → Γ.WellFormed → Γ.TailReady → Expr.AllShaped es →
    Noted Γ w w' (Expr.visitsAll es' Γ)

theorem clean_mapM_expr {room : Nat}
    (ih : ∀ e w, Clean w (expr room e) (ExprSettled e w)) (es : List Expr) :
    ∀ w, Clean w (es.mapM (expr room)) (ExprsSettled es w) := by
  induction es with
  | nil =>
    intro w
    rw [List.mapM_nil]
    refine (Clean.pure _).mono ?_
    rintro _ _ ⟨rfl, rfl⟩
    exact ⟨rfl, fun Γ h _ _ _ => Noted.none h.scopes⟩
  | cons e es ihes =>
    intro w
    rw [List.mapM_cons]
    refine ((ih e w).bind fun _ w₁ => (ihes w₁).bind fun _ _ => Clean.pure _).mono ?_
    rintro _ _ ⟨e', w₁, ⟨hb, he⟩, es', w₂, ⟨hbs, hes⟩, rfl, rfl⟩
    refine ⟨by rw [Expr.bareAll, hb, hbs, Expr.bareAll], fun Γ h hΓ hr hs => ?_⟩
    have h₁ := he Γ h hΓ hr hs.1
    exact h₁.append (hes Γ (h₁.follows h rfl) hΓ hr hs.2)

/-- **Resolution settles the expressions it accepts.** -/
theorem clean_expr (room : Nat) : ∀ e w, Clean w (expr room e) (ExprSettled e w) := by
  induction room with
  | zero => exact fun _ _ => Clean.throw ..
  | succ room ih =>
    intro e w
    cases e with
    | literal v =>
      refine (Clean.pure _).mono ?_
      rintro _ _ ⟨rfl, rfl⟩
      exact ⟨rfl, fun Γ h _ _ _ => Noted.none h.scopes⟩
    | name r =>
      refine ((clean_readReference room r).bind fun _ _ => Clean.pure _).mono ?_
      rintro _ _ ⟨_, _, ⟨hw, rfl, rfl⟩, rfl, rfl⟩
      refine ⟨rfl, fun Γ h _ hr hs => ?_⟩
      rw [h.scopes]
      exact Noted.use h.scopes (settled_read h.scopes hr hs hw)
    | assign r v =>
      refine ((ih v w).bind fun _ _ => (clean_resolved room .assign r).bind fun _ _ =>
        Clean.pure _).mono ?_
      rintro _ _ ⟨v', w₁, ⟨hb, hv⟩, _, _, ⟨rfl, rfl⟩, rfl, rfl⟩
      refine ⟨by simp [Expr.bare, Reference.bare, hb], fun Γ h hΓ hr hs => ?_⟩
      have h₁ := hv Γ h hΓ hr hs.2
      rw [h₁.scopes]
      exact h₁.append (Noted.use h₁.scopes (settled_assign hr hs.1))
    | unary op e =>
      refine ((ih e w).bind fun _ _ => Clean.pure _).mono ?_
      rintro _ _ ⟨e', w₁, ⟨hb, he⟩, rfl, rfl⟩
      exact ⟨by simp [Expr.bare, hb], fun Γ h hΓ hr hs => he Γ h hΓ hr hs.2⟩
    | binary l op r | logical l op r =>
      refine ((ih l w).bind fun _ w₁ => (ih r w₁).bind fun _ _ => Clean.pure _).mono ?_
      rintro _ _ ⟨l', w₁, ⟨hbl, hl⟩, r', w₂, ⟨hbr, hr⟩, rfl, rfl⟩
      refine ⟨by simp [Expr.bare, hbl, hbr], fun Γ h hΓ hrd hs => ?_⟩
      have h₁ := hl Γ h hΓ hrd (by simp_all [Expr.Shaped])
      exact h₁.append (hr Γ (h₁.follows h rfl) hΓ hrd (by simp_all [Expr.Shaped]))
    | conditional t y n =>
      refine ((ih t w).bind fun _ w₁ => (ih y w₁).bind fun _ w₂ => (ih n w₂).bind fun _ _ =>
        Clean.pure _).mono ?_
      rintro _ _ ⟨t', w₁, ⟨hbt, ht⟩, y', w₂, ⟨hby, hy⟩, n', w₃, ⟨hbn, hn⟩, rfl, rfl⟩
      refine ⟨by simp [Expr.bare, hbt, hby, hbn], fun Γ h hΓ hr hs => ?_⟩
      have h₁ := ht Γ h hΓ hr hs.1
      have h₂ := hy Γ (h₁.follows h rfl) hΓ hr hs.2.1
      exact h₁.append (h₂.append (hn Γ (h₂.follows (h₁.follows h rfl) rfl) hΓ hr hs.2.2))
    | call f paren args =>
      refine ((ih f w).bind fun _ w₁ => (clean_mapM_expr ih args w₁).bind fun _ _ =>
        Clean.pure _).mono ?_
      rintro _ _ ⟨f', w₁, ⟨hbf, hf⟩, args', w₂, ⟨hbs, has⟩, rfl, rfl⟩
      refine ⟨by simp [Expr.bare, hbf, hbs], fun Γ h hΓ hr hs => ?_⟩
      have h₁ := hf Γ h hΓ hr hs.1
      exact h₁.append (has Γ (h₁.follows h rfl) hΓ hr hs.2)
    | get o p =>
      refine ((ih o w).bind fun _ _ => Clean.pure _).mono ?_
      rintro _ _ ⟨o', w₁, ⟨hb, ho⟩, rfl, rfl⟩
      exact ⟨by simp [Expr.bare, hb], ho⟩
    | set o p v =>
      refine ((ih v w).bind fun _ w₁ => (ih o w₁).bind fun _ _ => Clean.pure _).mono ?_
      rintro _ _ ⟨v', w₁, ⟨hbv, hv⟩, o', w₂, ⟨hbo, ho⟩, rfl, rfl⟩
      refine ⟨by simp [Expr.bare, hbv, hbo], fun Γ h hΓ hr hs => ?_⟩
      have h₁ := hv Γ h hΓ hr hs.2
      exact h₁.append (ho Γ (h₁.follows h rfl) hΓ hr hs.1)
    | group e =>
      refine ((ih e w).bind fun _ _ => Clean.pure _).mono ?_
      rintro _ _ ⟨e', w₁, ⟨hb, he⟩, rfl, rfl⟩
      exact ⟨by simp [Expr.bare, hb], he⟩
    | self r =>
      refine ((Clean.need 1 room).bind fun _ w₁ => Clean.get.bind fun a w₂ =>
        (?_ : Clean w₂ _ fun e' w' => a.classContext ≠ .none ∧
          e' = .self { r with hops := depth? w₂.scopes r.name.lexeme } ∧
          w' = (w₂.lookAt r.name).use .this r.name)).mono ?_
      · by_cases hc : a.classContext = .none
        · rw [if_pos hc]
          refine ((Clean.blame room r.name .thisOutsideClass).bind fun _ _ =>
            Clean.pure _).mono ?_
          rintro _ _ ⟨_, _, h, _⟩
          exact h.elim
        · rw [if_neg hc]
          refine ((clean_resolved room .this r).bind fun _ _ => Clean.pure _).mono ?_
          rintro _ _ ⟨_, _, ⟨rfl, rfl⟩, rfl, rfl⟩
          exact ⟨hc, rfl, rfl⟩
      · rintro _ _ ⟨_, _, rfl, _, _, ⟨rfl, rfl⟩, hc, rfl, rfl⟩
        refine ⟨rfl, fun Γ h hΓ _ hs => ?_⟩
        rw [h.scopes]
        refine Noted.use h.scopes ⟨rfl, hs, ?_⟩
        obtain ⟨d, site, hd, hl⟩ := hΓ.this_level (by rwa [← h.classContext])
        exact ⟨d, site, by rw [← hd, ← show r.name.lexeme = thisName from hs], hl⟩
    | super r m =>
      refine ((Clean.need 1 room).bind fun _ w₁ => Clean.get.bind fun a w₂ =>
        (?_ : Clean w₂ _ fun e' w' => a.classContext = .derived ∧
          e' = .super { r with hops := depth? w₂.scopes r.name.lexeme } m ∧
          w' = (w₂.lookAt r.name).use .super r.name)).mono ?_
      · cases hc : a.classContext with
        | none | plain =>
          refine ((Clean.blame room r.name _).bind fun _ _ =>
            (clean_resolved room .super r).bind fun _ _ => Clean.pure _).mono ?_
          rintro _ _ ⟨_, _, h, _⟩
          exact h.elim
        | derived =>
          refine ((clean_resolved room .super r).bind fun _ _ => Clean.pure _).mono ?_
          rintro _ _ ⟨_, _, ⟨rfl, rfl⟩, rfl, rfl⟩
          exact ⟨rfl, rfl, rfl⟩
      · rintro _ _ ⟨_, _, rfl, _, _, ⟨rfl, rfl⟩, hc, rfl, rfl⟩
        refine ⟨rfl, fun Γ h hΓ _ hs => ?_⟩
        rw [h.scopes]
        refine Noted.use h.scopes ⟨rfl, hs, ?_⟩
        obtain ⟨d, site, hd, hl⟩ := hΓ.super_level (by rw [← h.classContext, hc])
        exact ⟨d, site, by rw [← hd, ← show r.name.lexeme = superName from hs], hl⟩

/-! ## Statements -/

/-- What resolution makes of a statement that it accepts. -/
def StmtSettled (s : Stmt) (w : Walk) (s' : Stmt) (w' : Walk) : Prop :=
  s'.bare = s.bare ∧
  ∀ Γ, Follows Γ w → Γ.WellFormed → Γ.Ready → s.Shaped → Noted (s.declare Γ) w w' (s'.visits Γ)

/-- What resolution makes of statements that it accepts. -/
def StmtsSettled (ss : List Stmt) (w : Walk) (ss' : List Stmt) (w' : Walk) : Prop :=
  Stmt.bareAll ss' = Stmt.bareAll ss ∧
  ∀ Γ, Follows Γ w → Γ.WellFormed → Γ.Ready → Stmt.AllShaped ss →
    Noted (Stmt.declareAll ss Γ) w w' (Stmt.visitsAll ss' Γ)

/-- What resolution makes of a function that it accepts. -/
def FunSettled (d : FunDecl) (w : Walk) (d' : FunDecl) (w' : Walk) : Prop :=
  d'.bare = d.bare ∧
  ∀ Γ, Follows Γ w → Γ.Hosts → Γ.Ready → d.Shaped → Noted Γ w w' (d'.visits Γ)

/-- What resolution makes of methods that it accepts. -/
def FunsSettled (ds : List FunDecl) (w : Walk) (ds' : List FunDecl) (w' : Walk) : Prop :=
  FunDecl.bareAll ds' = FunDecl.bareAll ds ∧
  ∀ Γ, Follows Γ w → Γ.Hosts → Γ.Ready → FunDecl.AllShaped ds →
    Noted Γ w w' (FunDecl.visitsAll ds' Γ)

theorem clean_mapM_stmt {f : Stmt → Resolving Stmt}
    (ih : ∀ s w, Clean w (f s) (StmtSettled s w)) (ss : List Stmt) :
    ∀ w, Clean w (ss.mapM f) (StmtsSettled ss w) := by
  induction ss with
  | nil =>
    intro w
    rw [List.mapM_nil]
    refine (Clean.pure _).mono ?_
    rintro _ _ ⟨rfl, rfl⟩
    exact ⟨rfl, fun Γ h _ _ _ => Noted.none h.scopes⟩
  | cons s ss ihss =>
    intro w
    rw [List.mapM_cons]
    refine ((ih s w).bind fun _ w₁ => (ihss w₁).bind fun _ _ => Clean.pure _).mono ?_
    rintro _ _ ⟨s', w₁, ⟨hb, h₁⟩, ss', w₂, ⟨hbs, h₂⟩, rfl, rfl⟩
    refine ⟨by rw [Stmt.bareAll, hb, hbs, Stmt.bareAll], fun Γ h hΓ hr hs => ?_⟩
    have hn := h₁ Γ h hΓ hr hs.1
    rw [Stmt.visitsAll, Stmt.declare_eq_of_bare_eq hb]
    exact hn.append
      (h₂ _ (hn.follows h (by simp)) (hs.1.declare_wellFormed hΓ) (s.declare_ready hr) hs.2)

theorem clean_mapM_fun {f : FunDecl → Resolving FunDecl}
    (ih : ∀ d w, Clean w (f d) (FunSettled d w)) (ds : List FunDecl) :
    ∀ w, Clean w (ds.mapM f) (FunsSettled ds w) := by
  induction ds with
  | nil =>
    intro w
    rw [List.mapM_nil]
    refine (Clean.pure _).mono ?_
    rintro _ _ ⟨rfl, rfl⟩
    exact ⟨rfl, fun Γ h _ _ _ => Noted.none h.scopes⟩
  | cons d ds ihds =>
    intro w
    rw [List.mapM_cons]
    refine ((ih d w).bind fun _ w₁ => (ihds w₁).bind fun _ _ => Clean.pure _).mono ?_
    rintro _ _ ⟨d', w₁, ⟨hb, h₁⟩, ds', w₂, ⟨hbs, h₂⟩, rfl, rfl⟩
    refine ⟨by rw [FunDecl.bareAll, hb, hbs, FunDecl.bareAll], fun Γ h hΓ hr hs => ?_⟩
    have hn := h₁ Γ h hΓ hr hs.1
    exact hn.append (h₂ Γ (hn.follows h rfl) hΓ hr hs.2)

theorem clean_params (room : Nat) (ps : List Token) :
    ∀ w, Clean w (ps.forM (introduce room)) fun _ w' =>
      ∀ Γ : Stack, w.scopes = Γ.scopes → Γ.WellFormed → (∀ p ∈ ps, p.IsName) →
        Noted (Γ.enterAll ps) w w' (Token.visitsAll ps Γ) := by
  induction ps with
  | nil =>
    intro w
    refine (Clean.pure _).mono ?_
    rintro _ _ ⟨-, rfl⟩
    exact fun Γ h _ _ => Noted.none h
  | cons p ps ih =>
    intro w
    refine ((clean_introduce room p).bind fun _ w₁ => ih w₁).mono ?_
    rintro _ _ ⟨_, w₁, ⟨hw, rfl⟩, h'⟩ Γ h hΓ hps
    have hp : p.IsName := hps p List.mem_cons_self
    have hn := Noted.introduce h hΓ hp hw
    exact hn.append (h' _ hn.scopes (hΓ.enter hp) fun q hq => hps q (List.mem_cons_of_mem _ hq))

/-- Opening a scope for a level. -/
theorem scopes_push {Γ : Stack} {l : Level} {names : List String} (h : w.scopes = Γ.scopes)
    (hl : l.names = .ofList (names.map (·, true))) :
    (w.push names).scopes = Stack.scopes (l :: Γ) := by
  rw [Walk.push, h, Stack.scopes_cons, hl]

/-- Behind its scope, a construct has been visited. -/
theorem Noted.pop {Γ Δ : Stack} {names : List String} {w' : Walk} {vs : List Visit}
    (h : Noted Δ (w.push names) w' vs) (hΔ : Δ.tail = Γ) : Noted Γ w w'.pop vs := by
  refine ⟨?_, h.classContext, h.annotations, h.settled⟩
  rw [Walk.pop, h.scopes, Stack.scopes, ← List.map_tail, hΔ]
  rfl

@[simp] theorem Stack.classContext_declareAll (ss : List Stmt) (Γ : Stack) :
    (Stmt.declareAll ss Γ).classContext = Γ.classContext := by
  induction ss generalizing Γ with
  | nil => rfl
  | cons s ss ih => rw [Stmt.declareAll_cons, ih, Stmt.classContext_declare]

/-- The room of the steps below is one less. -/
structure SettlesAt (room : Nat) : Prop where
  stmt : ∀ s w, Clean w (stmt room s) (StmtSettled s w)
  classDecl : ∀ n s ms w, Clean w (classDecl room n s ms) (StmtSettled (.classDecl n s ms) w)
  funDecl : ∀ sort d w, Clean w (funDecl room sort d) (FunSettled d w)

theorem SettlesAt.stmt_succ {room : Nat} (ih : SettlesAt room) (s : Stmt) (w : Walk) :
    Clean w (Scope.stmt (room + 1) s) (StmtSettled s w) := by
  cases s with
  | expression e | print e =>
    refine ((clean_expr room e w).bind fun _ _ => Clean.pure _).mono ?_
    rintro _ _ ⟨e', w₁, ⟨hb, he⟩, rfl, rfl⟩
    exact ⟨by simp [Stmt.bare, hb], fun Γ h hΓ hr hs => he Γ h hΓ hr.tail hs⟩
  | var n e =>
    cases e with
    | none =>
      refine ((clean_declare room n).bind fun _ _ => (Clean.pure none).bind fun _ _ =>
        (Clean.modify (Walk.diagnostics_define ..)).bind fun _ _ => Clean.pure _).mono ?_
      rintro _ _ ⟨_, _, ⟨hw, rfl⟩, _, _, ⟨rfl, rfl⟩, _, _, rfl, rfl, rfl⟩
      exact ⟨rfl, fun Γ h hΓ hr hs => Noted.introduce h.scopes hΓ hs.1 hw⟩
    | some e =>
      refine ((clean_declare room n).bind fun _ w₁ =>
        ((clean_expr room e w₁).bind fun _ _ => Clean.pure _).bind fun _ _ =>
        (Clean.modify (Walk.diagnostics_define ..)).bind fun _ _ => Clean.pure _).mono ?_
      rintro _ _ ⟨_, w₁, ⟨hw, rfl⟩, _, w₂, ⟨e', _, ⟨hb, he⟩, rfl, rfl⟩, _, _, rfl, rfl, rfl⟩
      refine ⟨by simp [Stmt.bare, hb], fun Γ h hΓ hr hs => ?_⟩
      have h₁ := Noted.declare h.scopes hΓ hs.1 hw
      have h₂ := he _ (h₁.follows h (by simp)) (hΓ.enter hs.1) (hr.tailReady_enter _ _) (hs.2 e rfl)
      exact (h₁.append h₂).define hΓ
  | block body =>
    refine ((clean_inScope room [] (clean_mapM_stmt ih.stmt body)).bind fun _ _ =>
      Clean.pure _).mono ?_
    rintro _ _ ⟨body', _, ⟨w₁, ⟨hb, hbody⟩, rfl⟩, rfl, rfl⟩
    refine ⟨by simp [Stmt.bare, hb], fun Γ h hΓ hr hs => ?_⟩
    have hpush : Follows (.block body' {} :: Γ) (w.push []) :=
      ⟨scopes_push h.scopes rfl, h.classContext⟩
    have hn := hbody _ hpush (.block OnlyNames.empty hΓ)
      (Stack.Ready.cons (Stack.ready_block body') hr) hs
    exact hn.pop (by simp [Stmt.declare])
  | branch t y n =>
    cases n with
    | none =>
      refine ((clean_expr room t w).bind fun _ w₁ => (ih.stmt y w₁).bind fun _ _ =>
        Clean.pure _).mono ?_
      rintro _ _ ⟨t', w₁, ⟨hbt, ht⟩, y', w₂, ⟨hby, hy⟩, rfl, rfl⟩
      refine ⟨by simp [Stmt.bare, hbt, hby], fun Γ h hΓ hr hs => ?_⟩
      have h₁ := ht Γ h hΓ hr.tail hs.1
      have h₂ := hy Γ (h₁.follows h rfl) hΓ hr hs.2.2
      rw [Stmt.declare_of_isDeclaration_eq_false hs.2.1] at h₂
      exact h₁.append h₂
    | some n =>
      refine ((clean_expr room t w).bind fun _ w₁ => (ih.stmt y w₁).bind fun _ w₂ =>
        (ih.stmt n w₂).bind fun _ _ => Clean.pure _).mono ?_
      rintro _ _ ⟨t', w₁, ⟨hbt, ht⟩, y', w₂, ⟨hby, hy⟩, n', w₃, ⟨hbn, hn⟩, rfl, rfl⟩
      refine ⟨by simp [Stmt.bare, hbt, hby, hbn], fun Γ h hΓ hr hs => ?_⟩
      have h₁ := ht Γ h hΓ hr.tail hs.1
      have h₂ := hy Γ (h₁.follows h rfl) hΓ hr hs.2.1.2
      rw [Stmt.declare_of_isDeclaration_eq_false hs.2.1.1] at h₂
      have h₃ := hn Γ (h₂.follows (h₁.follows h rfl) rfl) hΓ hr hs.2.2.2
      rw [Stmt.declare_of_isDeclaration_eq_false hs.2.2.1] at h₃
      exact h₁.append (h₂.append h₃)
  | loop t body =>
    refine ((clean_expr room t w).bind fun _ w₁ => (ih.stmt body w₁).bind fun _ _ =>
      Clean.pure _).mono ?_
    rintro _ _ ⟨t', w₁, ⟨hbt, ht⟩, body', w₂, ⟨hbb, hbody⟩, rfl, rfl⟩
    refine ⟨by simp [Stmt.bare, hbt, hbb], fun Γ h hΓ hr hs => ?_⟩
    have h₁ := ht Γ h hΓ hr.tail hs.1
    have h₂ := hbody Γ (h₁.follows h rfl) hΓ hr hs.2.2
    rw [Stmt.declare_of_isDeclaration_eq_false hs.2.1] at h₂
    exact h₁.append h₂
  | leave k =>
    refine (Clean.pure _).mono ?_
    rintro _ _ ⟨rfl, rfl⟩
    exact ⟨rfl, fun Γ h _ _ _ => Noted.none h.scopes⟩
  | giveBack k e =>
    refine ((Clean.need 1 room).bind fun _ _ => Clean.get.bind fun _ _ =>
      (Clean.blameIf ..).bind fun _ _ => Clean.get.bind fun _ _ =>
        (Clean.blameIf ..).bind fun _ w₁ => (?_ : Clean w₁ _ fun s' w' =>
          StmtSettled (.giveBack k e) w₁ s' w')).mono ?_
    · cases e with
      | none =>
        refine ((Clean.pure none).bind fun _ _ => Clean.pure _).mono ?_
        rintro _ _ ⟨_, _, ⟨rfl, rfl⟩, rfl, rfl⟩
        exact ⟨rfl, fun Γ h _ _ _ => Noted.none h.scopes⟩
      | some e =>
        refine (((clean_expr room e w₁).bind fun _ _ => Clean.pure _).bind fun _ _ =>
          Clean.pure _).mono ?_
        rintro _ _ ⟨_, w₂, ⟨e', _, ⟨hb, he⟩, rfl, rfl⟩, rfl, rfl⟩
        refine ⟨by simp [Stmt.bare, hb], fun Γ h hΓ hr hs => he Γ h hΓ hr.tail (hs e rfl)⟩
    · rintro _ _ ⟨_, _, rfl, _, _, ⟨rfl, rfl⟩, _, _, ⟨-, rfl⟩, _, _, ⟨rfl, rfl⟩, _, _, ⟨-, rfl⟩, h⟩
      exact h
  | function d =>
    refine ((clean_introduce room d.name).bind fun _ w₁ =>
      (ih.funDecl .function d w₁).bind fun _ _ => Clean.pure _).mono ?_
    rintro _ _ ⟨_, w₁, ⟨hw, rfl⟩, d', w₂, ⟨hb, hd⟩, rfl, rfl⟩
    refine ⟨by simp [Stmt.bare, hb], fun Γ h hΓ hr hs => ?_⟩
    have hname : d.name.IsName := FunDecl.Shaped.name hs
    have hname' : d'.name = d.name := by rw [← d'.bare_name, hb, d.bare_name]
    have h₁ := Noted.introduce h.scopes hΓ hname hw
    have h₂ := hd _ (h₁.follows h (by simp)) (hΓ.enter hname).hosts (hr.enter _) hs
    rw [Stmt.visits, hname']
    exact h₁.append h₂
  | classDecl n s ms => exact ih.classDecl n s ms w

theorem SettlesAt.funDecl_succ {room : Nat} (ih : SettlesAt room) (sort : FunctionContext)
    (d : FunDecl) (w : Walk) : Clean w (Scope.funDecl (room + 1) sort d) (FunSettled d w) := by
  obtain ⟨name, ps, body⟩ := d
  refine (Clean.get.bind fun _ _ => (Clean.modify rfl).bind fun _ _ =>
    (clean_inScope room [] fun w => (clean_params room ps w).bind fun _ w₁ =>
      clean_mapM_stmt ih.stmt body w₁).bind fun _ _ =>
    (Clean.modify rfl).bind fun _ _ => Clean.pure _).mono ?_
  rintro _ _ ⟨_, _, ⟨rfl, rfl⟩, _, _, rfl, body', _, ⟨w₂, ⟨_, w₁, hps, hb, hbody⟩, rfl⟩, _, _,
    rfl, rfl, rfl⟩
  refine ⟨by simp [FunDecl.bare, hb], fun Γ h hΓ hr hs => ?_⟩
  have hcall := hΓ (.mk name ps body') {} OnlyNames.empty
  have hready := Stack.Ready.cons (Stack.ready_call (.mk name ps body')) hr
  have h₁ := hps (.call (.mk name ps body') {} :: Γ) (scopes_push h.scopes rfl) hcall hs.2.1
  have hfollows : Follows (Stack.enterAll ps (.call (.mk name ps body') {} :: Γ)) w₁ := by
    refine ⟨h₁.scopes, h₁.classContext.trans ?_⟩
    rw [Stack.classContext_enterAll]
    exact h.classContext
  have h₂ := hbody _ hfollows (hcall.enterAll hs.2.1) (hready.enterAll ps) hs.2.2
  have h₃ := (h₁.append h₂).pop (Γ := Γ) (by simp)
  exact ⟨h₃.scopes, h₃.classContext, h₃.annotations, h₃.settled⟩

/-- What happens in between does not depend on the class around it. -/
theorem Noted.restore {Γ : Stack} {c : ClassContext} {w' : Walk} {vs : List Visit}
    (h : Noted Γ { w with classContext := c } w' vs) :
    Noted Γ w { w' with classContext := w.classContext } vs :=
  ⟨h.scopes, rfl, h.annotations, h.settled⟩

/-- Resolving the members of a class inside the scope of `this`. -/
theorem clean_members (room : Nat) {f : FunDecl → Resolving FunDecl}
    (ih : ∀ d w, Clean w (f d) (FunSettled d w)) (ms : List FunDecl) (w : Walk) :
    Clean w (inScope room [thisName] (ms.mapM f)) fun ms' w' =>
      FunDecl.bareAll ms' = FunDecl.bareAll ms ∧
      ∀ (Γ : Stack) site, w.scopes = Γ.scopes →
        w.classContext = Stack.classContext (.this site :: Γ) →
        Stack.Hosts (.this site :: Γ) → Stack.Ready (.this site :: Γ) → FunDecl.AllShaped ms →
        Noted Γ w w' (FunDecl.visitsAll ms' (.this site :: Γ)) := by
  refine (clean_inScope room [thisName] (clean_mapM_fun ih ms)).mono ?_
  rintro ms' _ ⟨w₁, ⟨hb, hms⟩, rfl⟩
  refine ⟨hb, fun Γ site hw hc hΓ hr hs => ?_⟩
  exact (hms (.this site :: Γ) ⟨scopes_push hw rfl, hc⟩ hΓ hr hs).pop rfl

theorem SettlesAt.classDecl_succ {room : Nat} (ih : SettlesAt room) (n : Token)
    (s : Option Reference) (ms : List FunDecl) (w : Walk) :
    Clean w (Scope.classDecl (room + 1) n s ms) (StmtSettled (.classDecl n s ms) w) := by
  have hmembers := fun w => clean_members room
    (f := fun d => Scope.funDecl room (if d.isInitializer then .initializer else .method) d)
    (fun d w => ih.funDecl _ d w) ms w
  cases s with
  | none =>
    refine (Clean.get.bind fun a _ => (Clean.modify
        (g := fun w => { w with classContext := .plain }) rfl).bind fun _ _ =>
      (clean_introduce room n).bind fun _ w₂ => (hmembers w₂).bind fun _ _ =>
        (Clean.pure _).bind fun _ _ => (Clean.modify
          (g := fun w => { w with classContext := a.classContext }) rfl).bind fun _ _ =>
            Clean.pure _).mono ?_
    rintro _ _ ⟨_, w, ⟨rfl, rfl⟩, _, _, rfl, _, _, ⟨hw, rfl⟩, ms', w₃, ⟨hb, hms⟩, _, _, ⟨rfl, rfl⟩,
      _, _, rfl, rfl, rfl⟩
    refine ⟨by simp [Stmt.bare, hb], fun Γ h hΓ hr hs => ?_⟩
    have h₁ := Noted.introduce (w := { w with classContext := .plain }) h.scopes hΓ hs.1 hw
    have hΓ' : (Γ.enter n.lexeme true).WellFormed := hΓ.enter hs.1
    have h₂ := hms (Γ.enter n.lexeme true) ⟨n, none, ms'⟩ h₁.scopes h₁.classContext
      (hΓ'.members_hosts ⟨n, none, ms'⟩) ((hr.enter n.lexeme).members ⟨n, none, ms'⟩) hs.2.2
    exact (h₁.append h₂).restore
  | some r =>
    refine (Clean.get.bind fun a _ => (Clean.modify
        (g := fun w => { w with classContext := .plain }) rfl).bind fun _ _ =>
      (clean_introduce room n).bind fun _ _ => (Clean.blameIf ..).bind fun _ _ => (Clean.modify
        (g := fun w => { w with classContext := .derived }) rfl).bind fun _ _ =>
      (clean_readReference (room - 1) r).bind fun _ _ =>
      (clean_inScope room [superName] hmembers).bind fun _ _ => (Clean.pure _).bind fun _ _ =>
        (Clean.modify (g := fun w => { w with classContext := a.classContext }) rfl).bind
          fun _ _ => Clean.pure _).mono ?_
    rintro _ _ ⟨_, w, ⟨rfl, rfl⟩, _, _, rfl, _, _, ⟨hw, hw₂⟩, _, w₂, ⟨hx, rfl⟩, _, _, rfl, _, w₃,
      ⟨hp, rfl, hw₃⟩, ms', _, ⟨w₄, ⟨hb, hms⟩, rfl⟩, _, _, ⟨rfl, rfl⟩, _, _, rfl, rfl, rfl⟩
    refine ⟨by simp [Stmt.bare, Reference.bare, hb], fun Γ h hΓ hr hs => ?_⟩
    have h₁ := Noted.introduce (w := { w with classContext := .plain }) h.scopes hΓ hs.1 hw
    rw [← hw₂] at h₁
    have hΓ' : (Γ.enter n.lexeme true).WellFormed := hΓ.enter hs.1
    have hr' := hr.enter n.lexeme
    have h₂ := Noted.use (w := { w₂ with classContext := .derived }) h₁.scopes
      (settled_read h₁.scopes hr'.tail (hs.2.1 r rfl) hp)
    replace h₂ := h₂.superclass (by simpa using hx)
    rw [← hw₃] at h₂
    rw [h₁.scopes]
    let r' : Reference := { r with hops := (Γ.enter n.lexeme true).depth? r.name.lexeme }
    let site : ClassSite := ⟨n, some r', ms'⟩
    have h₃ := (hms (.super site :: Γ.enter n.lexeme true) site (scopes_push h₂.scopes rfl)
      h₂.classContext (hΓ'.members_hosts site) (hr'.members site) hs.2.2).pop rfl
    exact h₁.restore.append
      (Noted.restore (w := { w₂ with classContext := w.classContext }) (h₂.append h₃))

/-- **Resolution settles the statements it accepts.** -/
theorem settlesAt (room : Nat) : SettlesAt room := by
  induction room with
  | zero =>
    exact ⟨fun _ _ => Clean.throw .., fun _ _ _ _ => Clean.throw .., fun _ _ _ => Clean.throw ..⟩
  | succ room ih =>
    exact ⟨ih.stmt_succ, fun n s ms w => ih.classDecl_succ n s ms w, ih.funDecl_succ⟩

/-! ## Programs -/

/-- What was given up stays as it was. -/
theorem orAbandon_apply (before : α) (p : Resolving α) (w : Walk) :
    orAbandon before p w =
      match p w with
      | .ok a w' => .ok a w'
      | .error _ w' => .ok before w'.abandon := by
  unfold orAbandon
  simp only [tryCatch, tryCatchThe, MonadExceptOf.tryCatch, Bind.bind, EStateM.bind,
    EStateM.tryCatch]
  cases p w <;> rfl

/-- Giving up is reported. -/
theorem clean_orAbandon {before : α} {p : Resolving α} {Q : α → Walk → Prop} (h : Clean w p Q) :
    Clean w (orAbandon before p) Q := by
  unfold Clean at h ⊢
  rw [orAbandon_apply]
  cases hp : p w with
  | ok a w' =>
    rw [hp] at h
    exact h
  | error e w' =>
    rw [hp] at h
    have habandon : w'.Reports w'.abandon := by
      refine ⟨[_], rfl, ?_⟩
      intro d hd
      rw [List.mem_singleton.mp hd]
      exact ⟨rfl, .tooDeep, rfl⟩
    refine ⟨h.trans habandon, fun hd => absurd hd (ne_of_apply_ne List.length ?_)⟩
    have hlen := h.length_le
    simp only [Walk.abandon, List.length_append, List.length_singleton]
    omega

theorem clean_topLevel (room : Nat) (s : Stmt) (w : Walk) :
    Clean w (topLevel room s) (StmtSettled s w) :=
  clean_orAbandon ((settlesAt room).stmt s w)

/-- Whatever is given up, resolution goes on to the end of the program. -/
theorem mapM_topLevel_ok (room : Nat) (ss : List Stmt) :
    ∀ w, ∃ ss' w', ss.mapM (topLevel room) w = .ok ss' w' := by
  induction ss with
  | nil => exact fun w => ⟨[], w, rfl⟩
  | cons s ss ih =>
    intro w
    obtain ⟨s', w₁, h₁⟩ : ∃ s' w₁, topLevel room s w = .ok s' w₁ := by
      rw [topLevel, orAbandon_apply]
      cases stmt room s w with
      | ok s' w₁ => exact ⟨s', w₁, rfl⟩
      | error e w₁ => exact ⟨s, w₁.abandon, rfl⟩
    obtain ⟨ss', w₂, h₂⟩ := ih w₁
    refine ⟨s' :: ss', w₂, ?_⟩
    rw [List.mapM_cons]
    simp only [Bind.bind, EStateM.bind, h₁, h₂]
    rfl

end Scope

open Scope

/-- **Resolution reports faults of the program text.** -/
theorem Program.resolve_reported (p : Program) (room : Nat) :
    ∀ d ∈ (p.resolve room).diagnostics, Fault.Reported d := by
  have hclean := clean_mapM_stmt (clean_topLevel room) p {}
  unfold Clean at hclean
  unfold Program.resolve Resolution.of
  obtain ⟨p', w, hrun⟩ := mapM_topLevel_ok room p {}
  rw [hrun] at hclean ⊢
  obtain ⟨⟨ds, hds, hstatic⟩, -⟩ := hclean
  have hw : w.diagnostics = ds := by simpa using hds
  rw [← hw] at hstatic
  exact hstatic

/-- **Resolution settles the programs it accepts.**  It changes nothing but the distances, and
what it notes is what there is to note of the visits. -/
theorem Program.resolve_settled {p : Program} {room : Nat} (hp : Stmt.AllShaped p)
    (h : (p.resolve room).diagnostics = []) :
    Stmt.bareAll (p.resolve room).result = Stmt.bareAll p ∧
      (∀ v ∈ Stmt.visitsAll (p.resolve room).result [], v.Settled) ∧
      (p.resolve room).annotations =
        (Stmt.visitsAll (p.resolve room).result []).filterMap Visit.annotation? := by
  have hclean := clean_mapM_stmt (clean_topLevel room) p {}
  unfold Clean at hclean
  unfold Program.resolve Resolution.of at h ⊢
  obtain ⟨p', w, hrun⟩ := mapM_topLevel_ok room p {}
  rw [hrun] at hclean h ⊢
  obtain ⟨hbare, hnoted⟩ := hclean.2 h
  have hn := hnoted [] ⟨rfl, rfl⟩ .global (fun l hl => nomatch hl) hp
  exact ⟨hbare, hn.settled, by simpa using hn.annotations⟩

end LoxKit
