import LoxKit.Proofs.Session.Chronicle

/-!
# What calls yield

In every session, each call of an initializer that is complete has yielded the object that the
initializer is bound to, and each call of a class that is complete has yielded a new object of this
class and has called the initializer of the class once, if there is one
(`Session.Told.yields_of_calls`).  It does not matter how the call came about, nor what the body of
the initializer does.
-/
namespace LoxKit

open Scope

/-- **There is no object of a number**: no name and no field stands for it, and it has no fields. -/
structure Machine.Lacks (m : Machine) (id : ObjectId) : Prop where
  names : ∀ f x c, (m.frames.bindings f).get? x ≠ some (.object id c)
  fields : ∀ (j : ObjectId) b, m.fields[j]? = some b → ∀ x c, b.get? x ≠ some (.object id c)
  unmade : m.fields[id]? = none

/-- **The call of a bound method is complete**: `f` is a copy of the method `g` of some class,
made for `this`, which is an object; and if it is an initializer, the call has yielded `this`. -/
structure Entry.MethodDone (before : List Entry) (f g : Closure FrameId) (this v : Value FrameId) :
    Prop where
  bound : .bound f.home g this ∈ before
  copy : f = { g with home := f.home }
  object : ∃ id k, this = .object id k
  declared : ∃ site c, .declared site c ∈ before ∧ g.decl ∈ site.methods ∧
    c.head.methods.get? g.decl.name.lexeme = some g
  initializer : f.decl.name.lexeme = "init" → v = this

/-- **The call of a class is complete**: it has yielded an object of the class that there was
not.  If no class of the chain has an initializer, it did nothing else.  Otherwise it took the
nearest one, made a copy of it for the object, and called the copy with all the arguments. -/
structure Entry.ClassDone (before : List Entry) (c : ClassValue FrameId)
    (args : List (Value FrameId)) (v : Value FrameId) (start : List Entry) (m : Machine)
    (inner : List Entry) : Prop where
  begun : before = start ++ .making c args m :: inner
  object : v = .object m.fields.size c
  new : m.Lacks m.fields.size
  arity : args.length = c.arity
  plain : c.initializer? = none → inner = []
  initialized : ∀ f, c.initializer? = some f → ∃ frame mid, Complete mid ∧
    inner = .bound frame f v :: .begun { f with home := frame } args ::
      (mid ++ [.ended { f with home := frame } args v])

/-- The next object is a new one. -/
theorem Noted.Accounted.lacks {n : Noted Entry} (h : n.Accounted) :
    n.machine.Lacks n.machine.fields.size where
  names f x _ hv := Nat.lt_irrefl _ (h.values f x _ hv).1
  fields j b hb x _ hv := Nat.lt_irrefl _ (h.fields j b hb x _ hv).1
  unmade := Array.getElem?_eq_none (Nat.le_refl _)

/-- **What calls yield.**  In every session, a call of a function that is complete was that of a
bound method, which has yielded the object it is bound to if it is an initializer, or else that of
a function that is no initializer.  A call of a class that is complete has yielded a new object of
the class, and has called its initializer once. -/
theorem Session.Told.yields_of_calls {s : Session} {es : List Entry} {ps : List Program}
    (h : s.Told es ps) :
    (∀ before f args v after, es = before ++ .ended f args v :: after →
      (∃ g this, Entry.MethodDone before f g this v) ∨
        (∀ g this, .bound f.home g this ∉ before) ∧ f.isInitializer = false) ∧
    ∀ before c args v after, es = before ++ .made c args v :: after →
      ∃ start m inner, Entry.ClassDone before c args v start m inner := by
  refine ⟨fun before f args v after hes => ?_, fun before c args v after hes => ?_⟩
  · have hyielded : Entry.Yielded before f v := h.faithful.right before _ after hes
    by_cases hbound : ∃ g this, .bound f.home g this ∈ before
    · obtain ⟨g, this, hb⟩ := hbound
      obtain ⟨hcopy, hobject, hdeclared, hinit⟩ := hyielded.method g this hb
      refine .inl ⟨g, this, hb, hcopy, hobject, hdeclared, fun hname => hinit ?_⟩
      rw [hcopy] at hname
      exact beq_iff_eq.mpr hname
    · have hnone : ∀ g this, .bound f.home g this ∉ before :=
        fun g this hb => hbound ⟨g, this, hb⟩
      exact .inr ⟨hnone, hyielded.function hnone⟩
  · obtain ⟨start, m, inner, hbefore, hv, hinner⟩ : Entry.Made before c args v :=
      h.faithful.right before _ after hes
    -- the call began rightly, so the machine was accounted for
    obtain ⟨haccounted, harity⟩ : Noted.Accounted ⟨m, start⟩ ∧ c.arity = args.length :=
      h.faithful.right start (.making c args m) (inner ++ .made c args v :: after)
        (by rw [hes, hbefore]; simp)
    refine ⟨start, m, inner, hbefore, hv, haccounted.lacks, harity.symm, fun hnone => ?_,
      fun f hf => ?_⟩
    · rwa [hnone] at hinner
    · rwa [hf] at hinner

/-- A class that inherits an initializer, which leaves early and is called once more on the
object. -/
def inheritedInit : String :=
  "class A \x7b init(a) \x7b while (true) return; \x7d \x7d class B < A \x7b \x7d " ++
  "var b = B(1); var f = b.init; f(2);"

/-- The call of a class that inherits its initializer yields an object of the class itself, and
so does the initializer when it is called by another name. -/
theorem Session.Told.yields_of_inherited_init :
    ∃ es, (Session.tell ⟨100, 10⟩ false (.new fun _ => 0) inheritedInit []).notes = es ∧
      (∃ before f args v after g this, es = before ++ .ended f args v :: after ∧
        f.decl.name.lexeme = "init" ∧ Entry.MethodDone before f g this v) ∧
      ∃ before c args v after start m inner, es = before ++ .made c args v :: after ∧
        c.name = "B" ∧ c.initializer?.isSome ∧ Entry.ClassDone before c args v start m inner := by
  let notes := (Session.tell ⟨100, 10⟩ false (.new fun _ => 0) inheritedInit []).notes
  let isCall : Entry → Bool
    | .ended f _ _ => f.isInitializer && f.decl.name.lexeme = "init"
    | _ => false
  let isConstruction : Entry → Bool
    | .made c _ _ => c.name = "B" && c.initializer?.isSome
    | _ => false
  have hany : notes.any isCall ∧ notes.any isConstruction := by decide +kernel
  have htold := (Session.Told.new (fun _ => 0) true).run ⟨100, 10⟩ false inheritedInit
  refine ⟨notes, rfl, ?_, ?_⟩
  · obtain ⟨e, hmem, he⟩ := List.any_eq_true.mp hany.1
    obtain ⟨before, after, hes⟩ := List.append_of_mem hmem
    cases e with
    | ended f args v =>
      obtain ⟨hinit, hname⟩ : f.isInitializer ∧ f.decl.name.lexeme = "init" := by
        simpa [isCall] using he
      rcases htold.yields_of_calls.1 before f args v after hes with ⟨g, this, hdone⟩ | ⟨-, hno⟩
      · exact ⟨before, f, args, v, after, g, this, hes, hname, hdone⟩
      · rw [hinit] at hno
        cases hno
    | _ => cases he
  · obtain ⟨e, hmem, he⟩ := List.any_eq_true.mp hany.2
    obtain ⟨before, after, hes⟩ := List.append_of_mem hmem
    cases e with
    | made c args v =>
      obtain ⟨hname, hinit⟩ : c.name = "B" ∧ c.initializer?.isSome := by
        simpa [isConstruction] using he
      obtain ⟨start, m, inner, hdone⟩ := htold.yields_of_calls.2 before c args v after hes
      exact ⟨before, c, args, v, after, start, m, inner, hes, hname, hinit, hdone⟩
    | _ => cases he

end LoxKit
