import LoxKit.Proofs.Lexical.Simulation
import LoxKit.Proofs.Session.Outcome

/-!
# Sessions are lexically scoped

A session is followed by a world: each program that the session runs, as it was read and before
any distance was filled in, is run in the world as well (`Session.imagine`).  If neither side was
cut short, the two have printed the same and ended alike, batch after batch
(`Session.Beside.run_lexical`).

A run is cut short by a breach, or by want of room.  The room of the world is free to choose:
with as much as the session has, the world never runs out first, and the session never does
with `Spare.most` more than the world.
-/
namespace LoxKit

open Scope

namespace Session

/-- **How the run of a batch ends.**  A batch with nothing to run ends well. -/
def outcome (limits : Limits) (s : Session) (source : String) : Except Failure Unit :=
  match s.prepare limits false source with
  | (none, _) => .ok ()
  | (some p, s') => (s'.machine.runProgram limits p).1

/-- **What a batch comes to in a world**, where it has a room of its own. -/
def imagine (limits : Limits) (room : Nat) (s : Session) (source : String)
    (W : Lexical.World) : Except Failure Unit × Lexical.World :=
  match s.prepare limits false source with
  | (none, _) => (.ok (), W)
  | (some _, _) => Lexical.runProgram { limits with room } W (s.read limits source).2.1

/-- **Neither run of a batch is cut short.**  The session does not end by a breach, and the side
with less room does not run out of it. -/
structure Whole (limits : Limits) (room : Nat) (s : Session) (source : String)
    (W : Lexical.World) : Prop where
  breach : ∀ b, s.outcome limits source ≠ .error (.breach b)
  session : limits.room < room + Spare.most → s.outcome limits source ≠ .error .stackOverflow
  world : room < limits.room → (s.imagine limits room source W).1 ≠ .error .stackOverflow

/-- **A session and the world that follows it**, through batches that were not cut short. -/
inductive Beside : Session → Lexical.World → Prop where
  | new (clock : Nat → Float) (echo : Bool) : Beside (Session.new clock echo) (.initial clock)
  | reset {s : Session} {W : Lexical.World} : Beside s W → Beside s.reset W
  | run {s : Session} {W : Lexical.World} (limits : Limits) (room : Nat) (source : String) :
    Beside s W → s.Whole limits room source W →
    Beside (s.run limits false source).2 (s.imagine limits room source W).2

/-- What is reported of how a run ends. -/
def reports : Except Failure Unit → List Diagnostic
  | .error (.error place cause) => [.ofRun place.line cause.message]
  | _ => []

end Session

/-! ## One program -/

/-- A machine and a world that have run nothing agree. -/
theorem Twin.agrees_initial (clock : Nat → Float) :
    Twin.Agrees ⟨fun _ _ => none, .initial clock, .initial clock⟩ where
  outermost := rfl
  size_pos := Nat.zero_lt_one
  untied _ := rfl
  tied f x hf hx := by
    have hlt : f < 1 := Store.lt_size_of_contains hx
    exact absurd (Nat.lt_one_iff.mp hlt) hf
  held _ _ _ h := nomatch h
  injective _ _ _ _ _ h := nomatch h
  globals x := by
    show Option.Rel _
      ((Bindings.ofList [(Native.clock.name, (Value.native .clock : Value FrameId))]).get? x)
      ((Bindings.ofList [(Native.clock.name, (Value.native .clock : Value Lexical.Env))]).get? x)
    rw [Bindings.get?_singleton, Bindings.get?_singleton]
    by_cases hx : x = Native.clock.name
    · rw [if_pos hx, if_pos hx]
      exact .some (.native .clock)
    · rw [if_neg hx, if_neg hx]
      exact .none
  fields_size := rfl
  fields _ _ := .none
  classCount := rfl
  line := rfl
  output := rfl
  clock := rfl
  readings := rfl

/-- **A program runs alike on both sides**, unless one is cut short. -/
theorem Twin.Agrees.runProgram {t : Twin} (ht : t.Agrees)
    (hcurrent : t.machine.current = globalFrame) {p : Program} (hp : p.Accepted)
    (limits : Limits) (room : Nat)
    (hbreach : ∀ b, (t.machine.runProgram limits p).1 ≠ .error (.breach b))
    (hmachine : limits.room < room + Spare.most →
      (t.machine.runProgram limits p).1 ≠ .error .stackOverflow)
    (hworld : room < limits.room →
      (Lexical.runProgram { limits with room } t.world (Stmt.bareAll p)).1 ≠
        .error .stackOverflow) :
    (t.machine.runProgram limits p).1 =
        (Lexical.runProgram { limits with room } t.world (Stmt.bareAll p)).1 ∧
      ∃ t' : Twin, t'.Agrees ∧ t'.machine = (t.machine.runProgram limits p).2 ∧
        t'.world = (Lexical.runProgram { limits with room } t.world (Stmt.bareAll p)).2 ∧
        t'.machine.current = globalFrame := by
  let L : Leeway := ⟨limits.room < room + Spare.most, room < limits.room⟩
  have hmirrors := mirrors_runAll (mirrorsAt L limits.turns limits.room room id id) p t
    hp.shaped hp.settled hcurrent ht
  unfold Machine.runProgram Machine.after at *
  unfold Lexical.runProgram at *
  dsimp only at *
  generalize Machine.runAll (Machine.exec limits.turns limits.room) p t.machine = r at *
  generalize Machine.runAll (fun s => do
    return (← Lexical.exec limits.turns room .global s).1) (Stmt.bareAll p) t.world = r' at *
  cases hmirrors with
  | @ok _ _ t' hgoes _ => exact ⟨rfl, t', hgoes.agrees, rfl, rfl, hgoes.current.trans hcurrent⟩
  | @error e t' hgoes => exact ⟨rfl, t', hgoes.agrees, rfl, rfl, hgoes.current.trans hcurrent⟩
  | breach => exact absurd rfl (hbreach _)
  | machineOverflow hL => exact absurd rfl (hmachine hL)
  | worldOverflow hL => exact absurd rfl (hworld hL)

/-! ## Sessions -/

namespace Session

variable {s : Session} {W : Lexical.World}

/-- **One batch of a session and its world.** -/
theorem outcome_eq {bond : Bond} (hagrees : Twin.Agrees ⟨bond, s.machine, W⟩)
    (hcurrent : s.machine.current = globalFrame) {limits : Limits} {room : Nat}
    {source : String} (hw : s.Whole limits room source W) :
    s.outcome limits source = (s.imagine limits room source W).1 ∧
      (∃ bond' : Bond, Twin.Agrees ⟨bond', (s.run limits false source).2.machine,
        (s.imagine limits room source W).2⟩) ∧
      (s.run limits false source).2.machine.current = globalFrame := by
  obtain ⟨hbreach, hsession, hworld⟩ := hw
  rw [run_eq]
  unfold outcome at hbreach hsession ⊢
  unfold imagine at hworld ⊢
  have hmachine := prepare_unlisted limits s source
  cases hprepare : s.prepare limits false source with
  | mk p s' =>
    rw [hprepare] at hbreach hsession hworld hmachine
    change s'.machine = s.machine at hmachine
    cases p with
    | none =>
      dsimp only
      rw [hmachine]
      exact ⟨rfl, ⟨bond, hagrees⟩, hcurrent⟩
    | some p =>
      dsimp only at hbreach hsession hworld ⊢
      rw [← prepare_bare hprepare] at hworld ⊢
      rw [interpret_machine]
      rw [← hmachine] at hagrees hcurrent
      obtain ⟨hout, t', ht', hm, hW, hcurrent'⟩ := hagrees.runProgram hcurrent
        (prepare_accepted hprepare) limits room hbreach hsession hworld
      rw [← hm, ← hW]
      exact ⟨hout, ⟨t'.bond, ht'⟩, hcurrent'⟩

namespace Beside

/-- **A session agrees with its world**, and the global frame is current between batches. -/
theorem agrees (h : s.Beside W) :
    (∃ bond : Bond, Twin.Agrees ⟨bond, s.machine, W⟩) ∧ s.machine.current = globalFrame := by
  induction h with
  | new clock echo => exact ⟨⟨_, Twin.agrees_initial clock⟩, rfl⟩
  | reset _ ih => exact ih
  | run limits room source _ hw ih =>
    obtain ⟨⟨bond, hagrees⟩, hcurrent⟩ := ih
    exact (outcome_eq hagrees hcurrent hw).2

end Beside

/-- What a run adds to the reporter, unless it is cut short. -/
theorem interpret_reports (limits : Limits) (s : Session) (p : Program)
    (h : (s.machine.runProgram limits p).1 ≠ .error .stackOverflow) :
    (s.interpret limits p).2.reporter.diagnostics =
      s.reporter.diagnostics ++ reports (s.machine.runProgram limits p).1 := by
  cases hr : s.machine.runProgram limits p with
  | mk outcome m =>
    rw [hr] at h
    cases outcome with
    | ok u =>
      rw [interpret_of_ok hr]
      exact (List.append_nil _).symm
    | error e =>
      cases e with
      | error place cause =>
        rw [interpret_of_reported hr rfl]
        exact reporter_report { s with machine := m } _
      | stackOverflow => exact absurd rfl h
      | breach b =>
        rw [interpret_of_unreported hr rfl]
        exact (List.append_nil _).symm
      | outOfTurns =>
        rw [interpret_of_unreported hr rfl]
        exact (List.append_nil _).symm

/-- What a batch adds to the reporter: what preparing it does, and the error of its run. -/
theorem run_reports {limits : Limits} {source : String}
    (h : s.outcome limits source ≠ .error .stackOverflow) :
    (s.run limits false source).2.reporter.diagnostics =
      (s.prepare limits false source).2.reporter.diagnostics ++
        reports (s.outcome limits source) := by
  rw [run_eq]
  unfold outcome at h ⊢
  generalize s.prepare limits false source = prepared at h ⊢
  obtain ⟨p, s'⟩ := prepared
  cases p with
  | none => exact (List.append_nil _).symm
  | some p => exact interpret_reports limits s' p h

/-- **Sessions are lexically scoped.**  A session through any batches and the world that
follows it have printed the same after the next batch, and the batch ends alike in both: well,
or with the same error in the same place, which the session reports. -/
theorem Beside.run_lexical (h : s.Beside W) (limits : Limits) (room : Nat) (source : String)
    (hw : s.Whole limits room source W) :
    s.outcome limits source = (s.imagine limits room source W).1 ∧
    (s.run limits false source).2.machine.output = (s.imagine limits room source W).2.output ∧
    (s.run limits false source).2.reporter.diagnostics =
      (s.prepare limits false source).2.reporter.diagnostics ++
        reports (s.imagine limits room source W).1 := by
  obtain ⟨⟨bond, hagrees⟩, hcurrent⟩ := h.agrees
  obtain ⟨hout, ⟨bond', hagrees'⟩, -⟩ := outcome_eq hagrees hcurrent hw
  have hroom : s.outcome limits source ≠ .error .stackOverflow := by
    by_cases hlt : limits.room < room + Spare.most
    · exact hw.session hlt
    · rw [hout]
      have : 0 < Spare.most := by decide
      exact hw.world (by omega)
  refine ⟨hout, hagrees'.output.symm, ?_⟩
  rw [run_reports hroom, hout]

/-- A closure is called on both sides of a declaration that would shadow its variable. -/
def shadowedLater : String :=
  "var a = \"global\"; \x7b fun show() \x7b print a; \x7d show(); var a = \"block\"; show(); \x7d"

/-- What the closure prints is what its variable was when the closure was declared. -/
theorem Beside.run_lexical_of_shadowedLater :
    let s := Session.new fun _ => 0
    let W := Lexical.World.initial fun _ => 0
    s.Whole ⟨60, 10⟩ 60 shadowedLater W ∧
    (s.run ⟨60, 10⟩ false shadowedLater).2.machine.output =
      (s.imagine ⟨60, 10⟩ 60 shadowedLater W).2.output ∧
    (s.imagine ⟨60, 10⟩ 60 shadowedLater W).2.output = "global\nglobal\n" := by
  intro s W
  have hok : (s.outcome ⟨60, 10⟩ shadowedLater).isOk = true := by
    decide +kernel
  have hne : ∀ e, s.outcome ⟨60, 10⟩ shadowedLater ≠ .error e := by
    intro e he
    rw [he] at hok
    cases hok
  have hwhole : s.Whole ⟨60, 10⟩ 60 shadowedLater W :=
    ⟨fun b => hne _, fun _ => hne _, fun h => absurd h (by decide)⟩
  refine ⟨hwhole, ?_, by decide +kernel⟩
  exact (run_lexical (.new (fun _ => 0) true) ⟨60, 10⟩ 60 shadowedLater hwhole).2.1

end Session
end LoxKit
