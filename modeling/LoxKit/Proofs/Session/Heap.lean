import LoxKit.Proofs.Machine.Trails
import LoxKit.Proofs.Session.Contained

/-!
# The heap of a session

Whatever a session does, its heap changes step by step (`Session.Onward.trail`), however its batches
end: normally, by an error of the program, by a stack overflow or by a broken promise.  So at every
moment links lead to earlier frames and classes inherit from earlier classes, and what has been made
is there ever after as it was (`Session.Arises.heap_lasts`).
-/
namespace LoxKit
namespace Session

/-- **What may come of a session**, by batches, by lines of a prompt, by what is written in between,
and by forgetting what was reported. -/
inductive Onward (s : Session) : Session → Prop where
  | refl : Onward s s
  | write {s' : Session} (text : String) : Onward s s' → Onward s (s'.write text)
  | reset {s' : Session} : Onward s s' → Onward s s'.reset
  | run {s' : Session} (limits : Limits) (list : Bool) (source : String) :
    Onward s s' → Onward s (s'.run limits list source).2
  | line {s' : Session} (limits : Limits) (list : Bool) (source : String) :
    Onward s s' → Onward s (s'.runLine limits list source).2

/-- **What a session runs goes along a trail.** -/
theorem Runs.trail {limits : Limits} {p : Program} (hp : Runs limits p) {h : Heap}
    (ho : h.Orderly) : ∃ cs, h.Trail ⟨(h.machine.runProgram limits p).2, cs⟩ :=
  (Machine.tracks_runAll limits.turns limits.room p h hp.shaped).trail ho

/-- **The heap of a session is one that comes about.** -/
theorem Arises.reachable {s : Session} (hs : s.Arises) :
    ∃ cs, Heap.Reachable ⟨s.machine, cs⟩ := by
  refine hs.invariant (P := fun m => ∃ cs, Heap.Reachable ⟨m, cs⟩)
    (fun clock => ⟨[], clock, .refl⟩) ?_ ?_
  · rintro m text ⟨cs, hr⟩
    exact ⟨cs, hr.trans (.single (.aside rfl rfl rfl rfl))⟩
  · rintro m limits p hp ⟨cs, hr⟩
    obtain ⟨cs', ht⟩ := hp.trail hr.orderly
    exact ⟨cs', hr.trans ht⟩

/-- **A session goes on along a trail.** -/
theorem Onward.trail {s s' : Session} (hon : s.Onward s') {cs : List (ClassValue FrameId)}
    (ho : Heap.Orderly ⟨s.machine, cs⟩) :
    ∃ cs', Heap.Trail ⟨s.machine, cs⟩ ⟨s'.machine, cs'⟩ := by
  let P (m : Machine) : Prop := ∃ cs', Heap.Trail ⟨s.machine, cs⟩ ⟨m, cs'⟩
  have hwrite (m : Machine) (text : String) : P m → P (m.write text) :=
    fun ⟨cs', ht⟩ => ⟨cs', ht.tail (.aside rfl rfl rfl rfl)⟩
  have hrun (m : Machine) (limits : Limits) (p : Program) (hp : Runs limits p) :
      P m → P (m.runProgram limits p).2 := by
    rintro ⟨cs', ht⟩
    obtain ⟨cs'', ht'⟩ := hp.trail (ht.sound ho).1
    exact ⟨cs'', .trans ht ht'⟩
  induction hon with
  | refl => exact ⟨cs, .refl⟩
  | write text _ ih => exact hwrite _ text ih
  | reset _ ih => exact ih
  | run limits list source _ ih => exact invariant_run hwrite hrun limits list source ih
  | line limits list source _ ih => exact invariant_runLine hwrite hrun limits list source ih

/-- **The heap lasts.**  The heap of every session comes about by single changes, one after the
other, and so does what becomes of it, however the batches end.  Every activation of the evaluator
goes along such a trail, up to the value it yields or to its failure, so the heaps in the midst of a
run are among those that come about.

And whatever heap comes about and whatever becomes of it, frames link to earlier frames and classes
inherit from earlier classes, and the searches for names and methods end.  Frames stay in their
places and keep their names, and those made for a method or a superclass keep their single binding.
Classes are there ever after with the methods they have, and yield the same method for a name. -/
theorem Arises.heap_lasts {s s' : Session} (hs : s.Arises) (hon : s.Onward s') :
    (∃ h h' : Heap, h.machine = s.machine ∧ h'.machine = s'.machine ∧ h.Reachable ∧
      h.Trail h') ∧
    (∀ turns room, Machine.TracksAt turns room) ∧
    ∀ h : Heap, h.Reachable → h.Orderly ∧ h.SearchesEnd ∧
      (∀ home x v, home < h.machine.frames.frames.size → Hidden x → h.Has v →
        ∃ f m, Run.newFrame home (.ofList [(x, v)]) h.machine = .ok f m ∧
          h.Trail ⟨m, h.classes⟩ ∧ ∀ h', Heap.Trail ⟨m, h.classes⟩ h' →
            h'.machine.frames.bindings f = .ofList [(x, v)] ∧
              h'.machine.frames.enclosing? f = some home) ∧
      ∀ h', h.Trail h' → h.Lasts h' ∧
        (∀ f x, Hidden x → (h.machine.frames.bindings f).contains x →
          ∃ v, h.machine.frames.bindings f = .ofList [(x, v)] ∧
            h'.machine.frames.bindings f = .ofList [(x, v)]) ∧
        ∀ c ∈ h.classes, ∀ c' ∈ h'.classes, c'.head.number = c.head.number →
          c' = c ∧ ∀ x, c'.method? x = c.method? x := by
  refine ⟨?_, Machine.tracksAt, fun h hr => ?_⟩
  · obtain ⟨cs, hr⟩ := hs.reachable
    obtain ⟨cs', ht⟩ := hon.trail hr.orderly
    exact ⟨⟨s.machine, cs⟩, ⟨s'.machine, cs'⟩, rfl, rfl, hr, ht⟩
  · have ho := hr.orderly
    refine ⟨ho, ho.searchesEnd, fun home x v hhome hx hv => ho.newFrame_kept hhome hx hv,
      fun h' ht => ?_⟩
    obtain ⟨ho', hl⟩ := ht.sound ho
    refine ⟨hl, fun f x hx hf => hl.bindings_eq ho hx hf, fun c hc c' hc' hnumber => ?_⟩
    have hsame := hl.class_eq ho' hc hc' hnumber
    exact ⟨hsame, fun x => by rw [hsame]⟩

/-- A class that is declared anew, with the old one as its superclass, and a method of the old one
bound to an object of the new one. -/
def declaredAnew : String :=
  "class A \x7b m() \x7b \x7d \x7d var B = A; " ++
    "class A < B \x7b n() \x7b return super.m; \x7d \x7d var f = A().n();"

/-- A variable that is assigned in its own initializer, where it is not bound yet. -/
def ownInitializer : String := "\x7b var a = (a = 1); \x7d"

/-- A batch that ends by a broken promise leaves both classes, the frame of the superclass and that
of the bound method as they are. -/
theorem Arises.heap_lasts_of_breach :
    let s := ((Session.new fun _ => 0).run ⟨200, 10⟩ false declaredAnew).2
    let r := s.run ⟨200, 10⟩ false ownInitializer
    r.1 = .error (.breach (.access (.missing "a" 0))) ∧
    ∃ h h' : Heap, h.machine = s.machine ∧ h'.machine = r.2.machine ∧ h.classes.length = 2 ∧
      h.Orderly ∧ h.SearchesEnd ∧ h.Lasts h' ∧
      (∃ v, s.machine.frames.bindings 1 = .ofList [(superName, v)] ∧
        r.2.machine.frames.bindings 1 = .ofList [(superName, v)]) ∧
      ∃ v, s.machine.frames.bindings 4 = .ofList [(thisName, v)] ∧
        r.2.machine.frames.bindings 4 = .ofList [(thisName, v)] := by
  intro s r
  have hs : s.Arises := .run ⟨200, 10⟩ false declaredAnew (.new (fun _ => 0) true)
  have hon : s.Onward r.2 := .run ⟨200, 10⟩ false ownInitializer .refl
  obtain ⟨⟨h, h', hm, hm', hr, ht⟩, -, hlasts⟩ := hs.heap_lasts hon
  obtain ⟨ho, hends, -, hafter⟩ := hlasts h hr
  obtain ⟨hl, hhidden, -⟩ := hafter h' ht
  have hcount : h.classes.length = 2 := by
    rw [ho.count, hm]
    decide +kernel
  rw [hm, hm'] at hhidden
  exact ⟨by decide +kernel, h, h', hm, hm', hcount, ho, hends, hl,
    hhidden 1 superName (.inr rfl) (by decide +kernel),
    hhidden 4 thisName (.inl rfl) (by decide +kernel)⟩

end Session
end LoxKit
