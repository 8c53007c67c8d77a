import LoxKit.Proofs.Session.History

/-!
# Distances and frames

The number that resolution notes at a use of a name is the number of links from the frame in
which the use is evaluated to the frame that binds the name (`Session.Reached.frames_of_use`).
This is so in every session, at every moment at which the evaluation of such a node begins.
-/
namespace LoxKit

open Scope

/-- **Frames and scopes agree on the way outward**: the frames up to a distance are there, and
each was opened for the construct of the scope as far out. -/
def Machine.FollowsScopes (m : Machine) (before : Journal) (Γ : Stack) (d : Nat) : Prop :=
  ∀ i ≤ d, ∃ l f o, Γ[i]? = some l ∧ m.frames.outward? m.current i = some f ∧
    .opened f o ∈ before ∧ o.Opens l

/-- The name that a use looks up is bound so many frames outward, to a class if it is
`super`; the object of the method is bound one frame nearer then. -/
def Machine.FindsName (m : Machine) (kind : UseKind) (x : String) (d : Nat) : Prop :=
  match kind with
  | .assign => True
  | .read | .this => ∃ v, m.frames.getAt m.current d x = .ok v
  | .super =>
    (∃ c, m.frames.getAt m.current d x = .ok (.classValue c)) ∧
      0 < d ∧ ∃ v, m.frames.getAt m.current (d - 1 : Int) thisName = .ok v

/-- The scopes out to the one a name leads to. -/
theorem Stack.getElem?_of_le_depth? {Γ : Stack} {x : String} {d i : Nat}
    (h : Γ.depth? x = some d) (hi : i ≤ d) : ∃ l, Γ[i]? = some l := by
  obtain ⟨l, hl, -⟩ := Stack.level_of_depth? h
  have hd : d < Γ.length := (List.getElem?_eq_some_iff.mp hl).1
  exact ⟨Γ[i], List.getElem?_eq_getElem (Nat.lt_of_le_of_lt hi hd)⟩

/-- In a frame that is matched with the scopes of a visit, the frames out to the distance
follow the scopes. -/
theorem Watched.Matches.followsScopes {w : Watched} {Γ : Stack} {x : String} {d : Nat}
    (hΓ : w.Matches w.machine.current Γ) (hd : Γ.depth? x = some d) :
    w.machine.FollowsScopes w.journal Γ d := by
  intro i hi
  obtain ⟨l, hl⟩ := Stack.getElem?_of_le_depth? hd hi
  obtain ⟨f, hf, ⟨o, ho, hopens⟩, -⟩ := hΓ.outward hl
  exact ⟨l, f, o, hl, hf, ho, hopens⟩

/-- A name that is ready in its scope is read in the frame at the distance. -/
theorem Watched.Matches.getAt_ok {w : Watched} {Γ : Stack} {x : String} {d : Nat} {l : Level}
    (hΓ : w.Matches w.machine.current Γ) (hl : Γ[d]? = some l)
    (hx : l.names.get? x = some true) {hops : Int} (hhops : hops.toNat = d) :
    ∃ g v, (w.machine.frames.bindings g).get? x = some v ∧ w.LiesIn g l ∧
      w.machine.frames.getAt w.machine.current hops x = .ok v := by
  obtain ⟨g, hg, hlies⟩ := hΓ.outward hl
  rw [← hhops] at hg
  have hbound : ((w.machine.frames.bindings g).get? x).isSome := by
    rw [Bindings.isSome_get?]
    exact hlies.2.1 x hx
  obtain ⟨v, hv⟩ := Option.isSome_iff_exists.mp hbound
  exact ⟨g, v, hv, hlies, Store.getAt_of_bound hg hv⟩

/-- In a frame that is matched with the scopes of a settled visit, its name is found. -/
theorem Watched.Matches.findsName {w : Watched} {Γ : Stack} {kind : UseKind} {r : Reference}
    {d : Nat} (hΓ : w.Matches w.machine.current Γ) (hs : (Visit.use kind r Γ).Settled)
    (hd : r.hops = some d) : w.machine.FindsName kind r.name.lexeme d := by
  cases kind with
  | assign => trivial
  | read =>
    obtain ⟨hdepth, -, hready⟩ := hs
    obtain ⟨l, hl, -⟩ := Stack.level_of_depth? (hdepth.symm.trans hd)
    obtain ⟨g, v, -, -, hv⟩ := hΓ.getAt_ok hl (hready d l hd hl) (Int.toNat_natCast d)
    exact ⟨v, hv⟩
  | this =>
    obtain ⟨-, hname, d', site, hd', hl⟩ := hs
    cases hd.symm.trans hd'
    obtain ⟨g, v, -, -, hv⟩ := hΓ.getAt_ok (x := r.name.lexeme) hl (by simp [hname])
      (Int.toNat_natCast d)
    exact ⟨v, hv⟩
  | super =>
    obtain ⟨-, hname, e, site, hd', -, hthis, hsuper⟩ := hs
    cases hd.symm.trans hd'
    obtain ⟨g, v, hg, hlies, hv⟩ := hΓ.getAt_ok (x := r.name.lexeme) hsuper (by simp [hname])
      (Int.toNat_natCast (e + 1))
    obtain ⟨-, c, hc⟩ := hlies.2
    rw [hname, hc] at hg
    cases hg
    obtain ⟨g', v', -, -, hv'⟩ := hΓ.getAt_ok (x := thisName)
      hthis (by simp) (show (((e + 1 : Nat) : Int) - 1).toNat = e by simp)
    exact ⟨⟨c, hv⟩, Nat.succ_pos e, v', hv'⟩

/-- The use of a name that an event is a moment of: the beginning of its evaluation, or for an
assignment also the moment before the store. -/
def Event.use? : Event → Option (UseKind × Reference × Machine)
  | .opened .. => none
  | .used kind r m => some (kind, r, m)
  | .stored r m => some (.assign, r, m)

/-- **The distance of a use is the number of links to its frame.**  In every session, whenever
a node that uses a name is evaluated, the node is one that resolution visited in an accepted
program, and its distance is the one noted there.  The frames from the current one out to that
distance were opened for the scopes that were open at the visit, one by one, and unless the
node assigns, the last of them binds the name. -/
theorem Session.Reached.frames_of_use {s : Session} {j : Journal} {ps : List Program}
    (h : s.Reached j ps) :
    ∀ before e after kind r m, j = before ++ e :: after → e.use? = some (kind, r, m) →
      ∃ p ∈ ps, ∃ Γ, .use kind r Γ ∈ Stmt.visitsAll p [] ∧
        (∃ (q : Program) (room : Nat), p = (q.resolve room).result ∧
          (q.resolve room).annotations =
            (Stmt.visitsAll p []).filterMap Visit.annotation?) ∧
        r.hops = Γ.depth? r.name.lexeme ∧
        ∀ d, r.hops = some d →
          m.FollowsScopes before Γ d ∧ m.FindsName kind r.name.lexeme d := by
  intro before e after kind r m hj he
  obtain ⟨hps, hvalid, -⟩ := h.invariant
  obtain ⟨Γ, ⟨p, hp, hv⟩, hstands⟩ : ∃ Γ, Program.Visited ps (.use kind r Γ) ∧
      Watched.Stands ⟨m, before⟩ Γ := by
    have hmatched := hvalid.journal before e after hj
    cases e with
    | opened f o => cases he
    | used kind r m =>
      cases he
      exact hmatched
    | stored r m =>
      cases he
      exact hmatched
  have hs := (hps p hp).settled _ hv
  have hΓ := hstands.chain
  refine ⟨p, hp, Γ, hv, (hps p hp).noted, hs.1, fun d hd => ⟨?_, ?_⟩⟩
  · exact Watched.Matches.followsScopes (w := ⟨m, before⟩) hΓ (hs.1.symm.trans hd)
  · exact Watched.Matches.findsName (w := ⟨m, before⟩) hΓ hs hd

/-- Two classes, of which one calls a method of the other by `super`. -/
def superCall : String :=
  "class A { m() { return nil; } } class B < A { m() { return super.m(); } } B().m();"

/-- Where `super` is used in a method, it is found two links outward, around the frames of the
call and of the object. -/
theorem Session.Reached.frames_of_super_call :
    ∃ before r m after,
      (Session.watch ⟨100, 10⟩ false (.new fun _ => 0) superCall []).journal =
        before ++ .used .super r m :: after ∧
      r.hops = some 2 ∧
      ∃ Γ, m.FollowsScopes before Γ 2 ∧ m.FindsName .super superName 2 := by
  let isSuper : Event → Bool
    | .used .super r _ => r.hops = some 2 && r.name.lexeme = superName
    | _ => false
  have hany : (Session.watch ⟨100, 10⟩ false (.new fun _ => 0) superCall []).journal.any
      isSuper = true := by decide +kernel
  obtain ⟨e, hmem, he⟩ := List.any_eq_true.mp hany
  obtain ⟨before, after, hj⟩ := List.append_of_mem hmem
  cases e with
  | opened f o => cases he
  | stored r m => cases he
  | used kind r m =>
    cases kind with
    | super =>
      obtain ⟨hhops, hname⟩ : r.hops = some 2 ∧ r.name.lexeme = superName := by
        simpa [isSuper] using he
      have hreached := (Session.Reached.new (fun _ => 0) true).run ⟨100, 10⟩ false superCall
      obtain ⟨p, hp, Γ, -, -, -, hd⟩ :=
        frames_of_use hreached before _ after .super r m hj rfl
      obtain ⟨hfollows, hfinds⟩ := hd 2 hhops
      exact ⟨before, r, m, after, hj, hhops, Γ, hfollows, hname ▸ hfinds⟩
    | _ => cases he

end LoxKit
