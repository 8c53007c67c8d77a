import LoxKit.Proofs.Lexical.Names
import Mathlib.Data.List.Forall2

/-!
# Declarations on both sides

A declaration enters a name into the current frame, and extends the map with a fresh cell
(`Mirrors.declare`).  The two come to the same because the frame does not bind the name yet:
whoever holds on to the frame from before the declaration does not see it, since under the
scopes open there the name is not one of the frame.

A block, a call, the object of a method and the superclass of a class each have a frame of
their own, in which names are entered from the start (`Agrees.enterAll`, `Mirrors.extendFrame`).
-/
namespace LoxKit

open Scope Twin

namespace Twin

variable {t t' : Twin} {Γ : Stack} {ρ : Lexical.Env} {f : FrameId}

/-- **A fresh cell for a name** that is entered into a scope. -/
theorem Agrees.enter (h : t.Agrees) {l l' : Level} {x : String} {v : Value FrameId}
    {v' : Value Lexical.Env} (hΓ : t.ties.Represents f (l :: Γ) ρ.cells)
    (hx : t.bond f x = none)
    (hl : ∀ y, l'.names.get? y = if y = x then some true else l.names.get? y)
    (hv : (t.define f x v v').ties.Represents f (l' :: Γ) (ρ.extend x t.world.store.size).cells →
      ValueLike (t.define f x v v').ties v v') :
    t.Goes (· = f) (t.define f x v v') ∧
      (t.define f x v v').ties.Represents f (l' :: Γ) (ρ.extend x t.world.store.size).cells := by
  have hrepresents : (t.define f x v v').ties.Represents f (l' :: Γ)
      (ρ.extend x t.world.store.size).cells := by
    refine (hΓ.later (later_define v v' hx)).extend ?_ hl
    show (if f = f ∧ x = x then some t.world.store.size else t.bond f x) = _
    rw [if_pos ⟨rfl, rfl⟩]
  exact ⟨h.define (h.lt_size_of_represents hΓ) (h.ne_global hΓ) hx (hv hrepresents), hrepresents⟩

/-- **A name that its scope does not have yet** is not bound by the frame. -/
theorem bond_eq_none {l : Level} {x : String}
    (h : ∀ y, (t.bond f y).isSome → l.names.get? y = some true)
    (hx : l.names.contains x = false) : t.bond f x = none := by
  cases hbond : t.bond f x with
  | none => rfl
  | some ℓ =>
    have hready := h x (by rw [hbond]; rfl)
    rw [Bindings.get?_eq_none hx] at hready
    cases hready

/-- What a frame binds is still ready when a ready name is entered. -/
theorem ready_define {l l' : Level} {x : String} {v : Value FrameId} {v' : Value Lexical.Env}
    (h : ∀ y, (t.bond f y).isSome → l.names.get? y = some true)
    (hl : ∀ y, l'.names.get? y = if y = x then some true else l.names.get? y) :
    ∀ y, ((t.define f x v v').bond f y).isSome → l'.names.get? y = some true := by
  intro y hy
  rw [hl y]
  by_cases hyx : y = x
  · rw [if_pos hyx]
  · rw [if_neg hyx]
    refine h y ?_
    rwa [show (t.define f x v v').bond f y = t.bond f y from if_neg fun hn => hyx hn.2] at hy

/-- A new frame has no names. -/
theorem Agrees.bond_size (h : t.Agrees) (x : String) : t.bond t.size x = none := by
  cases hx : t.bond t.size x with
  | none => rfl
  | some ℓ => exact absurd (h.lt_size hx) (Nat.lt_irrefl _)

/-- **A new frame** represents the same as the frame around it. -/
theorem Agrees.represents_newFrame (h : t.Agrees) {e : FrameId} {l : Level}
    {cells : List (String × Lexical.Cell)} (hΓ : t.ties.Represents e Γ cells)
    (hl : ∀ x, l.names.get? x = none) :
    (t.newFrame e).ties.Represents t.size (l :: Γ) cells := by
  refine ⟨e, cells, ?_, hΓ.later (h.newFrame e).later, fun x hx => ?_, fun _ _ => rfl⟩
  · show (t.machine.frames.new (some e) .empty).2.enclosing? t.machine.frames.frames.size = _
    rw [Store.enclosing?_new, if_pos rfl]
  · cases (hl x).symm.trans hx

/-- **The parameters of a call** are entered one after the other, each with a fresh cell. -/
theorem Agrees.enterAll (decl : FunDecl) :
    ∀ (ps : List Token) (vs : List (Value FrameId)) (vs' : List (Value Lexical.Env))
      (t : Twin) (ρ : Lexical.Env) (names : Scope), t.Agrees →
      t.ties.Represents f (.call decl names :: Γ) ρ.cells →
      (∀ x, (t.bond f x).isSome → names.get? x = some true) →
      (∀ v ∈ Token.visitsAll ps (.call decl names :: Γ), v.Settled) →
      List.Forall₂ (ValueLike t.ties) vs vs' →
      ∃ (t' : Twin) (ρ' : Lexical.Env) (names' : Scope),
        Lexical.Step.extendAll ρ ((ps.map (·.lexeme)).zip vs') t.world = .ok ρ' t'.world ∧
        t'.machine = { t.machine with
          frames := ((ps.map (·.lexeme)).zip vs).foldl (fun s p => s.define f p.1 p.2)
            t.machine.frames } ∧
        t.Goes (· = f) t' ∧ ρ'.isLocal = ρ.isLocal ∧
        (ps.length = vs.length →
          Stack.enterAll ps (.call decl names :: Γ) = .call decl names' :: Γ) ∧
        t'.ties.Represents f (.call decl names' :: Γ) ρ'.cells ∧
        ∀ x, (t'.bond f x).isSome → names'.get? x = some true := by
  intro ps
  induction ps with
  | nil =>
    intro vs vs' t ρ names h hΓ hready _ _
    exact ⟨t, ρ, names, rfl, rfl, .refl h, rfl, fun _ => rfl, hΓ, hready⟩
  | cons p ps ih =>
    intro vs vs' t ρ names h hΓ hready hsettled hvs
    cases hvs with
    | nil => exact ⟨t, ρ, names, rfl, rfl, .refl h, rfl, nofun, hΓ, hready⟩
    | @cons v v' vs vs' hv hvs =>
      obtain ⟨-, hfresh⟩ := hsettled (.declare p _) List.mem_cons_self
      have hx : t.bond f p.lexeme = none :=
        bond_eq_none (l := .call decl names) hready (hfresh _ rfl)
      have hl : ∀ y, (Level.call decl (names.put p.lexeme true)).names.get? y =
          if y = p.lexeme then some true else (Level.call decl names).names.get? y :=
        fun y => names.get?_put p.lexeme y true
      have hlater := later_define (t := t) v v' hx
      obtain ⟨hgoes, hΓ'⟩ := h.enter hΓ hx hl fun _ => hv.later hlater
      obtain ⟨t', ρ', names', hworld, hmachine, hgoes', hlocal, hnames, hrest⟩ :=
        ih vs vs' (t.define f p.lexeme v v') (ρ.extend p.lexeme t.world.store.size)
          (names.put p.lexeme true) hgoes.agrees hΓ' (ready_define hready hl)
          (fun v hv => hsettled v (List.mem_cons_of_mem _ hv))
          (hvs.imp fun _ _ hw => hw.later hlater)
      refine ⟨t', ρ', names', hworld, hmachine, ?_, hlocal, fun hlen => ?_, hrest⟩
      · exact hgoes.trans hgoes' (fun _ _ h => h) (fun _ _ h => h)
      · exact hnames (by simpa using hlen)

end Twin

namespace Mirrors

variable {L : Leeway} {t : Twin} {Γ : Stack} {ρ : Lexical.Env}

/-- **A declaration** of a name that the scope does not have yet.  Its value may be at home
behind the declaration already. -/
theorem declare (hs : t.Stands Γ ρ) {x : String}
    (hx : ∀ l ∈ Γ.head?, l.names.contains x = false) {v : Value FrameId}
    {v' : Lexical.Env → Value Lexical.Env}
    (hv : ∀ (s : Ties) (ρ' : Lexical.Env), t.ties.Later s →
      s.Represents t.machine.current (Γ.enter x true) ρ'.cells → ValueLike s v (v' ρ')) :
    Mirrors L (· = t.machine.current) t (Run.define x v) (Lexical.Step.declare ρ x v')
      fun _ ρ' t' => t'.Stands (Γ.enter x true) ρ' := by
  intro ht
  rcases Γ with - | ⟨l, Γ⟩
  · have hlocal : ρ.isLocal = false := hs.isLocal
    obtain ⟨hglobal, -⟩ := hs.represents
    have hmachine : Run.define x v t.machine =
        .ok () (t.defineGlobal x v (v' ρ)).machine := by
      show EStateM.Result.ok () { t.machine with
        frames := t.machine.frames.define t.machine.current x v } = _
      rw [hglobal]
      rfl
    have hworld : Lexical.Step.declare ρ x v' t.world =
        .ok ρ (t.defineGlobal x v (v' ρ)).world := by
      simp only [Lexical.Step.declare, hlocal]
      rfl
    rw [hmachine, hworld]
    have hgoes := ht.defineGlobal x (hv t.ties ρ (.refl _) hs.represents)
    have hstands : (t.defineGlobal x v (v' ρ)).Stands [] ρ := hs.goes ht hgoes
    exact .ok (hgoes.widen fun _ _ h => h.elim) hstands
  · have hlocal : ρ.isLocal = true := hs.isLocal
    obtain ⟨l', henter, hl⟩ := hs.body.enter_cons x true
    have hfree : t.bond t.machine.current x = none :=
      bond_eq_none (hs.ready l rfl) (hx l rfl)
    have hworld : Lexical.Step.declare ρ x v' t.world =
        .ok (ρ.extend x t.world.store.size)
          (t.define t.machine.current x v (v' (ρ.extend x t.world.store.size))).world := by
      simp only [Lexical.Step.declare, hlocal]
      rfl
    rw [henter] at hv ⊢
    have hvalue := hv _ (ρ.extend x t.world.store.size)
      (later_define v (v' (ρ.extend x t.world.store.size)) hfree)
    obtain ⟨hgoes, hrepresents⟩ := ht.enter hs.represents hfree hl hvalue
    have hstands : (t.define t.machine.current x v
        (v' (ρ.extend x t.world.store.size))).Stands (l' :: Γ)
        (ρ.extend x t.world.store.size) := by
      refine ⟨hrepresents, ?_, ?_, hlocal⟩
      · rintro _ ⟨rfl⟩
        exact ready_define (hs.ready l rfl) hl
      · rw [← henter]
        exact hs.body.enter x true
    rw [hworld]
    exact .ok hgoes hstands

/-- **A frame of its own for a name**, and a map with the name in a fresh cell. -/
theorem extendFrame {e : FrameId} {x : String} {l : Level} {v : Value FrameId}
    {v' : Value Lexical.Env} (hΓ : t.ties.Represents e Γ ρ.cells)
    (hl : l.names = .ofList [(x, true)]) (hv : ValueLike t.ties v v') :
    Mirrors L nowhere t (Run.newFrame e (.ofList [(x, v)])) (Lexical.Step.extend ρ x fun _ => v')
      fun f ρ' t' => t'.ties.Represents f (l :: Γ) ρ'.cells := by
  intro ht
  have hgoes := ht.newFrame e
  have hframe := ht.represents_newFrame (l := .block [] {}) hΓ fun _ => rfl
  have hfree : (t.newFrame e).bond t.size x = none := ht.bond_size x
  have hnames : ∀ y, l.names.get? y =
      if y = x then some true else (Level.block [] {}).names.get? y := by
    intro y
    rw [hl, Bindings.get?_singleton]
    rfl
  have hlater := later_define v v' hfree
  obtain ⟨hgoes', hrepresents⟩ := hgoes.agrees.enter hframe hfree hnames
    fun _ => (hv.later hgoes.later).later hlater
  have hmachine : Run.newFrame e (.ofList [(x, v)]) t.machine =
      .ok t.size ((t.newFrame e).define t.size x v v').machine := by
    show EStateM.Result.ok _ { t.machine with
      frames := (t.machine.frames.new (some e) (.ofList [(x, v)])).2 } =
        .ok _ { t.machine with
          frames := (t.machine.frames.new (some e) .empty).2.define t.size x v }
    rw [show t.size = t.machine.frames.frames.size from rfl, Store.define_new]
    rfl
  rw [hmachine]
  have hboth : t.Goes nowhere ((t.newFrame e).define t.size x v v') :=
    hgoes.trans hgoes' (fun _ _ h => h) (fun _ hlt heq => absurd heq (Nat.ne_of_lt hlt))
  exact .ok hboth hrepresents

/-- **A new value for a name** that was declared last, in the current frame. -/
theorem assignHere {n : Token} (hs : t.Stands (Γ.enter n.lexeme true) ρ) {v : Value FrameId}
    {v' : Value Lexical.Env} (hv : ValueLike t.ties v v') :
    Mirrors L nowhere t (Run.assignFrom t.machine.current n v) (Lexical.Step.write ρ n v')
      fun _ _ _ => True := by
  have hbody := hs.body
  rcases Γ with - | ⟨l, Γ⟩
  · obtain ⟨hglobal, hcells⟩ := hs.represents
    rw [hglobal]
    refine assignGlobal ?_ hv
    show ρ.cells.lookup n.lexeme = none
    rw [hcells]
    rfl
  · intro ht
    have hl : Stack.OfBody (l :: Γ) := by cases l <;> exact hbody
    obtain ⟨l', henter, hnames⟩ := hl.enter_cons n.lexeme true
    have hrepresents := hs.represents
    rw [henter] at hrepresents
    obtain ⟨-, -, -, -, hready, -⟩ := hrepresents
    obtain ⟨ℓ, hℓ, hlookup⟩ := hready n.lexeme (by rw [hnames, if_pos rfl])
    have hlocate : t.machine.frames.locate t.machine.current n.lexeme =
        .ok t.machine.current := by
      have hbound : (t.machine.frames.bindings t.machine.current).contains n.lexeme :=
        ht.contains hℓ
      unfold Store.locate Store.holder?
      rw [if_pos hbound]
    have hassign : Run.assignFrom t.machine.current n v t.machine =
        .ok () (t.assign t.machine.current n.lexeme ℓ v v').machine :=
      Run.assignFrom_ok hlocate v
    have hwrite : Lexical.Step.write ρ n v' t.world =
        .ok () (t.assign t.machine.current n.lexeme ℓ v v').world := by
      simp only [Lexical.Step.write, show ρ.cell? n.lexeme = some ℓ from hlookup]
      rfl
    rw [hassign, hwrite]
    exact .ok (ht.assign hℓ hv) trivial

/-- **The frame of a call** binds the parameters, and the map of the body has them in fresh
cells. -/
theorem openCall {e : FrameId} {d : FunDecl} {vs : List (Value FrameId)}
    {vs' : List (Value Lexical.Env)} (hΓ : t.ties.Represents e Γ ρ.cells)
    (hlocal : ρ.isLocal = true) (hvisits : ∀ v ∈ d.visits Γ, v.Settled)
    (hvs : List.Forall₂ (ValueLike t.ties) vs vs') (harity : d.arity = vs.length) :
    Mirrors L nowhere t (Run.newFrame e (.ofList ((d.params.map (·.lexeme)).zip vs)))
      (Lexical.Step.extendAll ρ ((d.params.map (·.lexeme)).zip vs')) fun f ρ' t' =>
        f = t.size ∧ Twin.Stands { t' with machine := { t'.machine with current := f } }
          (Stack.enterAll d.params (.call d {} :: Γ)) ρ' := by
  intro ht
  have hgoes := ht.newFrame e
  have hframe := ht.represents_newFrame (l := .call d {}) hΓ fun _ => rfl
  rw [FunDecl.visits_eq] at hvisits
  obtain ⟨t', ρ', names, hworld, hmachine, hgoes', hlocal', hnames, hrepresents, hready⟩ :=
    Agrees.enterAll d d.params vs vs' (t.newFrame e) ρ {} hgoes.agrees hframe
      (fun x hx => by
        rw [show (t.newFrame e).bond t.size x = none from ht.bond_size x] at hx
        cases hx)
      (fun v hv => hvisits v (List.mem_append_left _ hv))
      (hvs.imp fun _ _ hv => hv.later hgoes.later)
  have hnew : Run.newFrame e (.ofList ((d.params.map (·.lexeme)).zip vs)) t.machine =
      .ok t.size t'.machine := by
    have hframes : List.foldl (fun s p => s.define t.size p.1 p.2) (t.newFrame e).machine.frames
        ((d.params.map (·.lexeme)).zip vs) =
          (t.machine.frames.new (some e) (.ofList ((d.params.map (·.lexeme)).zip vs))).2 :=
      Store.foldl_define_new ..
    rw [hmachine, hframes]
    rfl
  rw [hnew, show Lexical.Step.extendAll ρ _ t.world = _ from hworld]
  refine .ok ?_ ⟨rfl, ?_⟩
  · exact hgoes.trans hgoes' (fun _ _ h => h) (fun _ hlt heq => absurd heq (Nat.ne_of_lt hlt))
  · rw [hnames harity]
    refine ⟨hrepresents, ?_, trivial, hlocal'.trans hlocal⟩
    rintro _ ⟨rfl⟩
    exact hready

end Mirrors
end LoxKit
