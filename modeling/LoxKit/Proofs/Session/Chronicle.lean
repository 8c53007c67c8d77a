import LoxKit.Proofs.Machine.Recounted
import LoxKit.Proofs.Session.History

/-!
# The chronicle of a session

As the machine of a session may be watched all the while, so its runs may be told with all their
entries, one run behind the other (`Session.tell`, `Session.Told`).  The chronicle tells the
journal of the session (`Session.Told.reached`), and is faithful (`Session.Told.faithful`).
-/
namespace LoxKit

open Scope

/-- **Runs a program with entries.** -/
def Noted.runProgram (limits : Limits) (n : Noted Entry) (p : Program) :
    Except Failure Unit × Noted Entry :=
  match Machine.runAll (Machine.tellExec limits.turns limits.room) p n with
  | .ok _ n => (.ok (), n)
  | .error e n => (.error e, n)

/-- To tell a program that runs is to watch it run. -/
theorem Noted.runProgram_watched (limits : Limits) (n : Noted Entry) (p : Program) :
    n.watched.runProgram limits p =
      ((n.runProgram limits p).1, (n.runProgram limits p).2.watched) := by
  have h := Machine.tellRunAll_tells limits.turns limits.room p n
  unfold Watched.runProgram Noted.runProgram
  rw [← h]
  cases Machine.runAll (Machine.tellExec limits.turns limits.room) p n <;> rfl

/-- A program that runs is recounted faithfully. -/
theorem Noted.Faithful.runProgram {n : Noted Entry} (h : n.Faithful) (limits : Limits)
    {p : Program} (hp : Stmt.AllShaped p) : (n.runProgram limits p).2.Faithful := by
  have hrun := Machine.recounts_tellRunAll limits.turns limits.room p n hp h
  unfold Noted.runProgram
  cases hr : Machine.runAll (Machine.tellExec limits.turns limits.room) p n with
  | ok _ n' =>
    rw [hr] at hrun
    exact hrun.1.faithful
  | error e n' =>
    rw [hr] at hrun
    exact hrun.faithful

/-- A machine that has run nothing is accounted for by an empty chronicle. -/
theorem Noted.faithful_initial (clock : Nat → Float) :
    Noted.Faithful ⟨.initial clock, []⟩ := by
  have henclosing (f : FrameId) : (Machine.initial clock).frames.enclosing? f = none := by
    refine (Store.enclosing?_new {} none _ f).trans ?_
    split <;> rfl
  have hopened (f : FrameId) (o : Opening) : ¬Noted.Opened ⟨.initial clock, []⟩ f o :=
    List.not_mem_nil
  have hbound (f : FrameId) (g : Closure FrameId) (i : Value FrameId) :
      ¬Noted.Bound ⟨.initial clock, []⟩ f g i := List.not_mem_nil
  refine ⟨?_, fun before e after hes => by simp at hes⟩
  exact {
    current := ⟨Nat.zero_lt_one, hbound _, fun _ => hopened _ _⟩
    values := fun f x v hv => by
      obtain ⟨-, rfl⟩ := Machine.of_get?_initialFrames hv
      trivial
    fields := fun id b hb => by simp [Machine.initial] at hb
    enclosed := fun f e he => by
      rw [henclosing] at he
      cases he
    opened := fun f o ho => absurd ho (hopened f o)
    once := fun f o _ ho => absurd ho (hopened f o)
    receiver := fun f d ho => absurd ho (hopened f _)
    bound := fun f g i hb => absurd hb (hbound f g i)
    call := fun f e g i _ hb => absurd hb (hbound e g i)
    this := fun f v hv => by
      obtain ⟨hx, -⟩ := Machine.of_get?_initialFrames hv
      exact absurd hx (by decide) }

/-- What a session prints by itself leaves its chronicle faithful. -/
theorem Noted.Faithful.write {m : Machine} {es : List Entry} (h : Noted.Faithful ⟨m, es⟩)
    (text : String) : Noted.Faithful ⟨m.write text, es⟩ := by
  have hsame : Noted.Same m (m.write text) := .of_eq rfl rfl rfl
  exact (h.same hsame (h.accounted.same hsame h.accounted.values h.accounted.fields)).faithful

/-! ## Sessions that are told -/

/-- **Tells a batch**: the machine behind it, and the chronicle so far with its entries. -/
def Session.tell (limits : Limits) (list : Bool) (s : Session) (source : String)
    (es : List Entry) : Noted Entry :=
  match s.prepare limits list source with
  | (none, s') => ⟨s'.machine, es⟩
  | (some p, s') => (Noted.runProgram limits ⟨s'.machine, es⟩ p).2

/-- To tell a batch is to watch it. -/
theorem Session.tell_watched (limits : Limits) (list : Bool) (s : Session) (source : String)
    (es : List Entry) : (s.tell limits list source es).watched =
      s.watch limits list source (es.filterMap Entry.event?) := by
  unfold Session.tell Session.watch
  obtain ⟨p, s'⟩ := s.prepare limits list source
  cases p with
  | none => rfl
  | some p =>
    exact (congrArg Prod.snd (Noted.runProgram_watched limits ⟨s'.machine, es⟩ p)).symm

/-- **The sessions that are reached by batches**, each with the chronicle of its runs and the
programs accepted so far. -/
inductive Session.Told : Session → List Entry → List Program → Prop where
  | new (clock : Nat → Float) (echo : Bool) : Told (Session.new clock echo) [] []
  | reset {s : Session} {es : List Entry} {ps : List Program} :
    Told s es ps → Told s.reset es ps
  | run {s : Session} {es : List Entry} {ps : List Program} (limits : Limits) (list : Bool)
    (source : String) :
    Told s es ps →
    Told (s.run limits list source).2 (s.tell limits list source es).notes
      (ps ++ (s.prepare limits list source).1.toList)

namespace Session.Told

variable {s : Session} {es : List Entry} {ps : List Program}

/-- **The chronicle tells the journal.** -/
theorem reached (h : s.Told es ps) : s.Reached (es.filterMap Entry.event?) ps := by
  induction h with
  | new clock echo => exact .new clock echo
  | reset _ ih => exact .reset ih
  | @run s es ps limits list source _ ih =>
    have hjournal := congrArg Watched.journal (s.tell_watched limits list source es)
    rw [show (s.tell limits list source es).notes.filterMap Entry.event? = _ from hjournal]
    exact .run limits list source ih

/-- **The chronicle of a session is faithful.** -/
theorem faithful (h : s.Told es ps) : Noted.Faithful ⟨s.machine, es⟩ := by
  induction h with
  | new clock echo => exact Noted.faithful_initial clock
  | reset _ ih => exact ih
  | @run s es ps limits list source _ ih =>
    have hmachine : (s.tell limits list source es).machine = _ :=
      (congrArg Watched.machine (s.tell_watched limits list source es)).trans
        (s.watch_machine limits list source _)
    rw [← hmachine]
    unfold Session.tell
    cases hprepare : s.prepare limits list source with
    | mk p s' =>
      obtain ⟨text, htext⟩ := prepare_machine limits list s source
      rw [hprepare] at htext
      have hwritten : Noted.Faithful ⟨s'.machine, es⟩ := by
        rw [show s'.machine = _ from htext]
        exact ih.write text
      cases p with
      | none => exact hwritten
      | some p => exact hwritten.runProgram limits (prepare_accepted hprepare).shaped

end Session.Told
end LoxKit
