import LoxKit.Proofs.Machine.Sound
import LoxKit.Proofs.Session.Batch

/-!
# The history of a session

A session goes through batches, one after the other, and its machine may be watched all the
while (`Session.watch`).  `Session.Reached` lists the sessions that can be reached so, each
with the journal of all its runs and the programs that were accepted on the way: batches may
be wrong, their runs may fail, and the reporter may be reset in between.

The invariant of watched runs holds in all of them (`Session.Reached.valid`).
-/
namespace LoxKit

open Scope Watching

/-! ## Watching a session -/

/-- **Runs a program under watch.** -/
def Watched.runProgram (limits : Limits) (w : Watched) (p : Program) :
    Except Failure Unit × Watched :=
  match Machine.runAll (Machine.watchExec limits.turns limits.room) p w with
  | .ok _ w => (.ok (), w)
  | .error e w => (.error e, w)

/-- To watch a program run changes nothing. -/
theorem Watched.runProgram_shows (limits : Limits) (w : Watched) (p : Program) :
    w.machine.runProgram limits p =
      ((w.runProgram limits p).1, (w.runProgram limits p).2.machine) := by
  have h := Machine.watchRunAll_shows limits.turns limits.room p w
  unfold Machine.runProgram Machine.after Watched.runProgram
  rw [← h]
  cases Machine.runAll (Machine.watchExec limits.turns limits.room) p w <;> rfl

/-- **Watches a batch**: the machine behind it, and the journal so far with its events. -/
def Session.watch (limits : Limits) (list : Bool) (s : Session) (source : String)
    (j : Journal) : Watched :=
  match s.prepare limits list source with
  | (none, s') => ⟨s'.machine, j⟩
  | (some p, s') => (Watched.runProgram limits ⟨s'.machine, j⟩ p).2

theorem Session.interpret_machine (limits : Limits) (s : Session) (p : Program) :
    (s.interpret limits p).2.machine = (s.machine.runProgram limits p).2 := by
  unfold Session.interpret
  generalize s.machine.runProgram limits p = result
  obtain ⟨outcome, m⟩ := result
  cases outcome with
  | ok _ => rfl
  | error e =>
    dsimp only
    cases Session.diagnostic? m e <;> rfl

/-- The machine that is watched is the machine of the session. -/
theorem Session.watch_machine (limits : Limits) (list : Bool) (s : Session) (source : String)
    (j : Journal) :
    (s.watch limits list source j).machine = (s.run limits list source).2.machine := by
  rw [Session.run_eq]
  unfold Session.watch
  obtain ⟨p, s'⟩ := s.prepare limits list source
  cases p with
  | none => rfl
  | some p =>
    dsimp only
    rw [Session.interpret_machine, Watched.runProgram_shows limits ⟨s'.machine, j⟩ p]

/-! ## Sessions that are reached -/

/-- **The sessions that are reached by batches**, each with the journal of its runs and the
programs accepted so far. -/
inductive Session.Reached : Session → Journal → List Program → Prop where
  | new (clock : Nat → Float) (echo : Bool) : Reached (Session.new clock echo) [] []
  | reset {s : Session} {j : Journal} {ps : List Program} :
    Reached s j ps → Reached s.reset j ps
  | run {s : Session} {j : Journal} {ps : List Program} (limits : Limits) (list : Bool)
    (source : String) :
    Reached s j ps →
    Reached (s.run limits list source).2 (s.watch limits list source j).journal
      (ps ++ (s.prepare limits list source).1.toList)

/-- The visits of some programs. -/
def Program.Visited (ps : List Program) (v : Visit) : Prop := ∃ p ∈ ps, v ∈ Stmt.visitsAll p []

section Mono

variable {V V' : Visit → Prop} {w : Watched}

theorem FunctionOk.visited (hV : ∀ v, V v → V' v) {f : Closure FrameId}
    (h : FunctionOk V w f) : FunctionOk V' w f := by
  obtain ⟨Γ, hΓ, hshaped, hvisits, hinit⟩ := h
  exact ⟨Γ, hΓ, hshaped, fun v hv => hV v (hvisits v hv), hinit⟩

theorem MethodOk.visited (hV : ∀ v, V v → V' v) {f : Closure FrameId} (h : MethodOk V w f) :
    MethodOk V' w f := by
  obtain ⟨site, Γ, hΓ, hshaped, hmem, hvisits⟩ := h
  exact ⟨site, Γ, hΓ, hshaped, hmem, fun v hv => hV v (hvisits v hv)⟩

theorem ValueOk.visited (hV : ∀ v, V v → V' v) {v : Value FrameId} (h : ValueOk V w v) :
    ValueOk V' w v := by
  cases v with
  | function f => exact FunctionOk.visited hV h
  | classValue c => exact ClassValue.All.imp (fun _ hf => MethodOk.visited hV hf) h
  | object id c => exact ClassValue.All.imp (fun _ hf => MethodOk.visited hV hf) h
  | _ => trivial

/-- The invariant still holds when more has been visited. -/
theorem Watched.Valid.visited (h : w.Valid V) (hV : ∀ v, V v → V' v) : w.Valid V' := by
  refine ⟨h.size_pos, fun f x v hv => (h.bound f x v hv).visited hV,
    fun id b hb x v hv => (h.fields id b hb x v hv).visited hV, fun before e after hj => ?_⟩
  have he := h.journal before e after hj
  cases e with
  | opened f o => trivial
  | used kind r m =>
    obtain ⟨Γ, hv, hΓ⟩ := he
    exact ⟨Γ, hV _ hv, hΓ⟩
  | stored r m =>
    obtain ⟨Γ, hv, hΓ⟩ := he
    exact ⟨Γ, hV _ hv, hΓ⟩

end Mono

/-- The invariant holds before anything has run. -/
theorem valid_initial (V : Visit → Prop) (clock : Nat → Float) :
    Watched.Valid V ⟨.initial clock, []⟩ := by
  refine ⟨Nat.zero_lt_one, fun f x v hv => ?_, fun id b hb => ?_, fun before e after hj => ?_⟩
  · obtain ⟨-, rfl⟩ := Machine.of_get?_initialFrames hv
    trivial
  · simp [Machine.initial] at hb
  · simp at hj

/-- **How a batch goes**: the invariant is kept, and how its run ends shows in its events. -/
theorem Session.watch_goes {ps : List Program} {s : Session} {j : Journal}
    (hps : ∀ p ∈ ps, p.Accepted) (hvalid : Watched.Valid (Program.Visited ps) ⟨s.machine, j⟩)
    (hcurrent : s.machine.current = globalFrame) {limits : Limits} {list : Bool}
    {source : String} {p : Program} {s' : Session}
    (hp : s.prepare limits list source = (some p, s')) :
    Keeps (Program.Visited (ps ++ [p])) (· = globalFrame) ⟨s'.machine, j⟩
      (Machine.runAll (Machine.watchExec limits.turns limits.room) p) (fun _ _ => True) ∧
    Watched.Valid (Program.Visited (ps ++ [p])) ⟨s'.machine, j⟩ ∧
    s'.machine.current = globalFrame := by
  have haccepted := prepare_accepted hp
  obtain ⟨text, hmachine⟩ := prepare_machine limits list s source
  rw [hp] at hmachine
  have hsettled : ∀ v, Program.Visited (ps ++ [p]) v → v.Settled := by
    rintro v ⟨q, hq, hv⟩
    rcases List.mem_append.mp hq with hq | hq
    · exact (hps q hq).settled v hv
    · rw [List.mem_singleton.mp hq] at hv
      exact haccepted.settled v hv
  have hcurrent' : s'.machine.current = globalFrame := by
    rw [show s'.machine = _ from hmachine]
    exact hcurrent
  refine ⟨?_, ?_, hcurrent'⟩
  · exact Machine.keeps_watchRunAll hsettled limits.turns limits.room p _ haccepted.shaped
      (fun v hv => ⟨p, by simp, hv⟩) hcurrent'
  · have hmono : ∀ v, Program.Visited ps v → Program.Visited (ps ++ [p]) v := by
      rintro v ⟨q, hq, hv⟩
      exact ⟨q, List.mem_append_left _ hq, hv⟩
    rw [show s'.machine = _ from hmachine]
    exact (hvalid.visited hmono).of_eq (m := s.machine.write text) rfl rfl

namespace Session.Reached

variable {s : Session} {j : Journal} {ps : List Program}

/-- **The invariant of sessions**: between batches the global frame is current. -/
theorem invariant (h : s.Reached j ps) :
    (∀ p ∈ ps, p.Accepted) ∧ Watched.Valid (Program.Visited ps) ⟨s.machine, j⟩ ∧
      s.machine.current = globalFrame := by
  induction h with
  | new clock echo => exact ⟨nofun, valid_initial _ clock, rfl⟩
  | reset _ ih => exact ih
  | @run s j ps limits list source _ ih =>
    obtain ⟨hps, hvalid, hcurrent⟩ := ih
    rw [← Session.watch_machine limits list s source j]
    unfold Session.watch
    cases hprepare : s.prepare limits list source with
    | mk p s' =>
      cases p with
      | none =>
        obtain ⟨text, hmachine⟩ := prepare_machine limits list s source
        rw [hprepare] at hmachine
        refine ⟨by simpa using hps, ?_, ?_⟩
        · show Watched.Valid (Program.Visited (ps ++ [])) ⟨s'.machine, j⟩
          rw [List.append_nil, show s'.machine = _ from hmachine]
          exact hvalid.of_eq (m := s.machine.write text) rfl rfl
        · show s'.machine.current = globalFrame
          rw [show s'.machine = _ from hmachine]
          exact hcurrent
      | some p =>
        obtain ⟨hkeeps, hvalid', hcurrent'⟩ := watch_goes hps hvalid hcurrent hprepare
        have hrun := hkeeps hvalid'
        refine ⟨fun q hq => ?_, ?_⟩
        · rcases List.mem_append.mp hq with hq | hq
          · exact hps q hq
          · rw [List.mem_singleton.mp hq]
            exact prepare_accepted hprepare
        · show Watched.Valid (Program.Visited (ps ++ [p]))
              (Watched.runProgram limits ⟨s'.machine, j⟩ p).2 ∧
            (Watched.runProgram limits ⟨s'.machine, j⟩ p).2.machine.current = globalFrame
          unfold Watched.runProgram
          cases hr : Machine.runAll (Machine.watchExec limits.turns limits.room) p
              ⟨s'.machine, j⟩ with
          | ok u w =>
            rw [hr] at hrun
            exact ⟨hrun.1.valid, hrun.1.current.trans hcurrent'⟩
          | error e w =>
            rw [hr] at hrun
            exact ⟨hrun.1.valid, hrun.1.current.trans hcurrent'⟩

end Session.Reached
end LoxKit
