import LoxKit.Proofs.Session.Chronicle
import LoxKit.Proofs.Session.Moment

/-!
# What `this` and `super` stand for

Whenever a run comes to a `this` or a `super`, there is a method around the place, and the run
stands in a call of a copy of this method that was bound to an object
(`Session.Told.receiver_of_use`).  This object is what `this` yields.  The methods that `super`
finds are those of the class that was the superclass when the class with the method was declared,
and they are bound to the same object.

What else has happened in the session is of no account: where the copy has been kept, of which class
the object is, and what has been assigned to the names of the classes.
-/
namespace LoxKit

open Scope

/-- **The method around a place**: the innermost class is that of `site`, and inside of it the place
is in the method `decl`, whose scope is the `d`th one outward. -/
structure Scope.Stack.InMethod (Γ : Stack) (d : Nat) (site : ClassSite) (decl : FunDecl) :
    Prop where
  depth : Γ.depth? thisName = some (d + 1)
  level : Γ[d + 1]? = some (.this site)
  call : ∃ names, Γ[d]? = some (.call decl names)
  mem : decl ∈ site.methods

/-- **A run stands in a call of a bound method**: `decl` as the class `c` has it, bound to
`this`, which is an object. -/
structure Machine.WorksOn (m : Machine) (before : List Entry) (d : Nat) (decl : FunDecl)
    (c : ClassValue FrameId) (this : Value FrameId) : Prop where
  bound : ∃ f g, m.frames.outward? m.current (d + 1) = some f ∧ .bound f g this ∈ before ∧
    g.decl = decl ∧ c.head.methods.get? decl.name.lexeme = some g
  declared : ∃ site, .declared site c ∈ before ∧ decl ∈ site.methods
  object : ∃ id k, this = .object id k

/-- **A method that is inherited**: that of the nearest class, from the one given on, bound to an
object in a new frame; or the error if none of them has one. -/
def Machine.inherited (m : Machine) (parent : ClassValue FrameId) (this : Value FrameId)
    (name : Token) : EStateM.Result Failure Machine (Value FrameId) :=
  match parent.method? name.lexeme with
  | some g => .ok (.function { g with home := m.frames.frames.size })
      { m with frames := (m.frames.new (some g.home) (.ofList [(thisName, this)])).2 }
  | none => .error (.error name (.undefinedSuperMethod name.lexeme)) m

/-! ## The frames of a method -/

namespace Noted

variable {n : Noted Entry} {Γ : Stack}

/-- **Where a run stands inside a class**, the frame that lies in the scope of its methods binds an
object for one of them, and the scope inside is that of this method. -/
theorem Accounted.method_of_level (h : n.Accounted) {f₀ : FrameId} (hf₀ : n.Ordinary f₀)
    (hΓ : n.watched.Matches f₀ Γ) {e : Nat} {site : ClassSite}
    (hl : Γ[e]? = some (.this site)) :
    ∃ d f g i, e = d + 1 ∧ n.machine.frames.outward? f₀ (d + 1) = some f ∧
      n.Bound f g i ∧ g.decl ∈ site.methods ∧ ∃ names, Γ[d]? = some (.call g.decl names) := by
  obtain ⟨f, hf, ⟨_, ho, decl, hmem, rfl⟩, -⟩ := hΓ.outward hl
  obtain ⟨g, i, hb, rfl⟩ := h.receiver f decl ho
  cases e with
  | zero =>
    cases hf
    exact absurd hb (hf₀.unbound g i)
  | succ d =>
    refine ⟨d, f, g, i, rfl, hf, hb, hmem, ?_⟩
    have hd : d < Γ.length := Nat.lt_of_succ_lt (List.getElem?_eq_some_iff.mp hl).1
    obtain ⟨f', hf', ⟨o, ho', hopens⟩, -⟩ := hΓ.outward (List.getElem?_eq_getElem hd)
    -- inside the frame of the object there is a call of its method
    have henclosing : n.machine.frames.enclosing? f' = some f := by
      change n.machine.frames.outward? f₀ (d + 1) = some f at hf
      change n.machine.frames.outward? f₀ d = some f' at hf'
      rwa [Store.outward?_succ, hf'] at hf
    cases h.once f' _ _ (h.call f' f g i henclosing hb) ho'
    rw [List.getElem?_eq_getElem hd]
    cases hlevel : Γ[d] with
    | call decl names =>
      rw [hlevel] at hopens
      cases hopens
      exact ⟨names, rfl⟩
    | block body names =>
      rw [hlevel] at hopens
      cases hopens
    | this site' =>
      rw [hlevel] at hopens
      obtain ⟨_, -, hopens⟩ := hopens
      cases hopens
    | super site' =>
      rw [hlevel] at hopens
      cases hopens

end Noted

/-! ## The words -/

/-- `this` yields what its frame binds, if there is room to look there. -/
theorem Machine.eval_self {m : Machine} {r : Reference} {hops : Nat} {v : Value FrameId}
    (hhops : r.hops = some hops)
    (hv : m.frames.getAt m.current hops r.name.lexeme = .ok v) (turns room : Nat) :
    eval turns (room + 1) (.self r) m =
      if room < Spare.read r then .error .stackOverflow m else .ok v m := by
  show (Run.need (Spare.read r) room >>= fun _ => Run.readReference r) m = _
  unfold Run.need
  split
  · rfl
  · rw [pure_bind, Run.readReference, hhops]
    exact Run.readAt_ok hv

/-- `super` yields a method of the class that one frame binds, for the object that the next one
inward binds. -/
theorem Machine.eval_super {m : Machine} {r : Reference} {hops : Nat}
    {parent : ClassValue FrameId} {this : Value FrameId} (hhops : r.hops = some hops)
    (hparent : m.frames.getAt m.current hops superName = .ok (.classValue parent))
    (hthis : m.frames.getAt m.current (hops - 1 : Int) thisName = .ok this) (turns room : Nat)
    (name : Token) :
    eval turns (room + 1) (.super r name) m =
      if room < Spare.bind then .error .stackOverflow m else m.inherited parent this name := by
  show superMethod room r name m = _
  unfold superMethod Run.need
  split
  · rfl
  · have hreadParent : Run.readAt hops "super" m = .ok (.classValue parent) m :=
      Run.readAt_ok hparent
    have hreadThis : Run.readAt (hops - 1) "this" m = .ok this m := Run.readAt_ok hthis
    rw [pure_bind, hhops, inherited]
    simp only [Bind.bind, EStateM.bind, hreadParent, hreadThis]
    cases parent.method? name.lexeme <;> rfl

/-- **What `this` and `super` stand for.**  In every session, wherever a run comes to one of the
two words, the place is in a method of a class that was declared with it, and the run works on an
object that this method was bound to.  There `this` yields this object, and `super` the method of
the name that is inherited from the superclass with which the class was declared, bound to this
object, or the error that there is none; and either fails where it has no room. -/
theorem Session.Told.receiver_of_use {s : Session} {es : List Entry} {ps : List Program}
    (h : s.Told es ps) :
    ∀ before kind r m after, es = before ++ .event (.used kind r m) :: after →
      kind = .this ∨ kind = .super →
      ∃ p ∈ ps, ∃ Γ, .use kind r Γ ∈ Stmt.visitsAll p [] ∧
        ∃ d site decl c this, Γ.InMethod d site decl ∧ m.WorksOn before d decl c this ∧
          (kind = .this → ∀ turns room, Machine.eval turns (room + 1) (.self r) m =
            if room < Spare.read r then .error .stackOverflow m else .ok this m) ∧
          (kind = .super → .declared site c ∈ before ∧ ∃ parent, c.superclass? = some parent ∧
            ∀ turns room name, Machine.eval turns (room + 1) (.super r name) m =
              if room < Spare.bind then .error .stackOverflow m
              else m.inherited parent this name) := by
  intro before kind r m after hes hkind
  obtain ⟨hps, hvalid, -⟩ := h.reached.invariant
  have hright : Noted.Accounted ⟨m, before⟩ := h.faithful.right before _ after hes
  obtain ⟨Γ, ⟨p, hp, hv⟩, hstands⟩ := hvalid.journal (before.filterMap Entry.event?)
    (.used kind r m) (after.filterMap Entry.event?) (by simp [hes, Entry.event?])
  have hΓ : Noted.watched ⟨m, before⟩ |>.Matches m.current Γ := hstands.chain
  have hsettled := (hps p hp).settled _ hv
  refine ⟨p, hp, Γ, hv, ?_⟩
  -- whichever the word, the scope of the methods of the class is open at the place
  obtain ⟨e, site, hdepth, hlevel, hword⟩ : ∃ e site, Γ.depth? thisName = some e ∧
      Γ[e]? = some (.this site) ∧
      ((kind = .this ∧ r.name.lexeme = thisName ∧ r.hops = some e) ∨
        (kind = .super ∧ r.hops = some (e + 1) ∧ Γ[e + 1]? = some (.super site))) := by
    rcases hkind with rfl | rfl
    · obtain ⟨hhops, hname, e, site, he, hlevel⟩ := hsettled
      refine ⟨e, site, ?_, hlevel, .inl ⟨rfl, hname, he⟩⟩
      rw [← hname, ← hhops, he]
    · obtain ⟨-, -, e, site, hhops, hdepth, hlevel, hsuper⟩ := hsettled
      exact ⟨e, site, hdepth, hlevel, .inr ⟨rfl, hhops, hsuper⟩⟩
  obtain ⟨d, f, g, this, rfl, hf, hb, hmem, hcall⟩ :=
    hright.method_of_level hright.current hΓ hlevel
  have hbinds := hright.bound f g this hb
  obtain ⟨site', c, hdeclares⟩ := hbinds.method.declared
  have hthis : m.frames.getAt m.current (d + 1 : Nat) thisName = .ok this :=
    Store.getAt_of_bound (d := (d + 1 : Nat)) hf hbinds.this
  refine ⟨d, site, g.decl, c, this, ⟨hdepth, hlevel, hcall, hmem⟩,
    ⟨⟨f, g, hf, hb, rfl, hdeclares.found⟩, ⟨site', hdeclares.declared, hdeclares.mem⟩,
      hbinds.object⟩, ?_, ?_⟩
  · rintro rfl turns room
    rcases hword with ⟨-, hname, hhops⟩ | ⟨hne, -⟩
    · exact Machine.eval_self hhops (hname ▸ hthis) turns room
    · cases hne
  · rintro rfl
    rcases hword with ⟨hne, -⟩ | ⟨-, hhops, hsuper⟩
    · cases hne
    · -- around the frame of the object there is the one that binds the superclass
      obtain ⟨f', hf', ⟨o, ho, hopens⟩, -⟩ := hΓ.outward hsuper
      change m.frames.outward? m.current (d + 2) = some f' at hf'
      have hhome : f' = g.home := by
        change m.frames.outward? m.current (d + 1) = some f at hf
        rw [Store.outward?_succ, hf] at hf'
        exact Option.some.inj (hf'.symm.trans hbinds.enclosing)
      cases hopens
      obtain ⟨rfl, parent, hparent, hbound⟩ := hdeclares.home.parent site (hhome ▸ ho)
      refine ⟨hdeclares.declared, parent, hparent, fun turns room name => ?_⟩
      refine Machine.eval_super hhops ?_ ?_ turns room name
      · exact Store.getAt_of_bound (d := (d + 2 : Nat)) hf' (hhome ▸ hbound)
      · rwa [show ((d + 1 + 1 : Nat) : Int) - 1 = (d + 1 : Nat) by omega]

/-- A method that is inherited, kept in a variable, and called when the names of the classes stand
for something else. -/
def keptMethod : String :=
  "class A \x7b m() \x7b\x7d \x7d class B < A \x7b t() \x7b return super.m; \x7d \x7d " ++
  "class C < B \x7b m() \x7b\x7d \x7d var f = C().t; A = C; B = nil; f();"

/-- In the method that is kept, `super` stands for the superclass of the class that declares it. -/
theorem Session.Told.receiver_of_kept_method :
    ∃ before r m after,
      (Session.tell ⟨100, 10⟩ false (.new fun _ => 0) keptMethod []).notes =
        before ++ .event (.used .super r m) :: after ∧
      ∃ d site decl c this parent, m.WorksOn before d decl c this ∧
        .declared site c ∈ before ∧ c.superclass? = some parent ∧
        ∀ turns room name, Machine.eval turns (room + 1) (.super r name) m =
          if room < Spare.bind then .error .stackOverflow m
          else m.inherited parent this name := by
  let isSuper : Entry → Bool
    | .event (.used .super _ _) => true
    | _ => false
  have hany : (Session.tell ⟨100, 10⟩ false (.new fun _ => 0) keptMethod []).notes.any
      isSuper = true := by decide +kernel
  obtain ⟨e, hmem, he⟩ := List.any_eq_true.mp hany
  obtain ⟨before, after, hes⟩ := List.append_of_mem hmem
  have htold := (Session.Told.new (fun _ => 0) true).run ⟨100, 10⟩ false keptMethod
  cases e with
  | event e =>
    cases e with
    | used kind r m =>
      cases kind with
      | super =>
        obtain ⟨p, -, Γ, -, d, site, decl, c, this, -, hworks, -, hsuper⟩ :=
          htold.receiver_of_use before .super r m after hes (.inr rfl)
        obtain ⟨hdeclared, parent, hparent, heval⟩ := hsuper rfl
        exact ⟨before, r, m, after, hes, d, site, decl, c, this, parent, hworks, hdeclared,
          hparent, heval⟩
      | _ => cases he
    | _ => cases he
  | _ => cases he

end LoxKit
