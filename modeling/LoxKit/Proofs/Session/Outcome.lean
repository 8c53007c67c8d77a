import LoxKit.Proofs.Session.History

/-!
# How batches end

Whatever is run in whatever session, a batch ends by one of three: with what it has reported,
out of the turns granted to a loop, or by a breach of one kind.  The breach is the store of an
assignment into a local variable that is not bound yet: the assignment stands inside the
variable's own initializer, where the scope declares the name already, so resolution sends the
assignment to its frame, but the frame binds the name only behind the initializer.  A read in
the same place is refused.

Each run that comes to such a store ends by the breach, and no other does
(`Session.Reached.run_ends`).  So a batch whose program has no such assignment, in a session of
such batches, never ends by a breach.
-/
namespace LoxKit

open Scope

namespace Session

/-- The program of a batch, if there is one to run. -/
def program? (limits : Limits) (list : Bool) (s : Session) (source : String) :
    Option Program := (s.prepare limits list source).1

/-- **A batch is through**, and nothing has escaped from it. -/
inductive Through (limits : Limits) (list : Bool) (s : Session) (source : String) : Prop where
  /-- There is nothing to run, and it is reported why. -/
  | refused {s' : Session} : s.prepare limits list source = (none, s') →
    s'.reporter.hadError → s.run limits list source = (.ok (), s') →
    Through limits list s source
  /-- The program runs to its end, and nothing is reported. -/
  | completed {p : Program} {s' : Session} {m : Machine} :
    s.prepare limits list source = (some p, s') → s'.machine.runProgram limits p = (.ok (), m) →
    s.run limits list source = (.ok (), { s' with machine := m }) →
    Through limits list s source
  /-- The program fails, and just this is reported. -/
  | failed {p : Program} {s' : Session} {m : Machine} {e : Failure} {d : Diagnostic} :
    s.prepare limits list source = (some p, s') →
    s'.machine.runProgram limits p = (.error e, m) → diagnostic? m e = some d →
    s.run limits list source = (.ok (), { s' with machine := m }.report [d]) →
    Through limits list s source

/-- A program that runs to its end. -/
theorem interpret_of_ok {limits : Limits} {s : Session} {p : Program} {m : Machine}
    (h : s.machine.runProgram limits p = (.ok (), m)) :
    s.interpret limits p = (.ok (), { s with machine := m }) := by
  unfold interpret
  rw [h]

/-- A program whose run fails in a way that is reported. -/
theorem interpret_of_reported {limits : Limits} {s : Session} {p : Program} {m : Machine}
    {e : Failure} {d : Diagnostic} (h : s.machine.runProgram limits p = (.error e, m))
    (hd : diagnostic? m e = some d) :
    s.interpret limits p = (.ok (), { s with machine := m }.report [d]) := by
  unfold interpret
  rw [h]
  simp only [hd]

/-- A program whose run fails in a way that is not reported. -/
theorem interpret_of_unreported {limits : Limits} {s : Session} {p : Program} {m : Machine}
    {e : Failure} (h : s.machine.runProgram limits p = (.error e, m))
    (hd : diagnostic? m e = none) :
    s.interpret limits p = (.error e, { s with machine := m }) := by
  unfold interpret
  rw [h]
  simp only [hd]

theorem diagnostic?_runtime {m : Machine} {e : Failure} {d : Diagnostic}
    (h : diagnostic? m e = some d) : d.runtime = true := by
  cases e <;> cases h <;> rfl

end Session

/-- **How a watched run fails** shows in its last event. -/
theorem Watched.Fails.breach_iff {w w' : Watched} {e : Failure} (h : w.Fails w' e) :
    ∃ events, w'.journal = w.journal ++ events ∧
      ((∃ b, e = .breach b) ↔ ∃ ev ∈ events, ¬ev.Lands) ∧
      ∀ b, e = .breach b → ∃ x, b = .access (.missing x 0) := by
  have hlanded : (∀ b, e ≠ .breach b) → w.Landed w' → ∃ events,
      w'.journal = w.journal ++ events ∧
      ((∃ b, e = .breach b) ↔ ∃ ev ∈ events, ¬ev.Lands) ∧
      ∀ b, e = .breach b → ∃ x, b = .access (.missing x 0) := by
    rintro hne ⟨new, hj, hnew⟩
    refine ⟨new, hj, ⟨?_, ?_⟩, fun b hb => absurd hb (hne b)⟩
    · rintro ⟨b, hb⟩
      exact absurd hb (hne b)
    · rintro ⟨ev, hev, hnot⟩
      exact absurd (hnew ev hev) hnot
  cases e with
  | breach b =>
    obtain ⟨new, r, m, hj, -, hmisses, rfl⟩ := h
    refine ⟨_, hj, ⟨fun _ => ⟨_, by simp, hmisses⟩, fun _ => ⟨_, rfl⟩⟩, ?_⟩
    rintro b hb
    cases hb
    exact ⟨_, rfl⟩
  | error place cause => exact hlanded (Failure.error_ne_breach place cause) h
  | stackOverflow => exact hlanded Failure.stackOverflow_ne_breach h
  | outOfTurns => exact hlanded Failure.outOfTurns_ne_breach h

/-- **The store of an assignment inside the initializer of the variable that it assigns**: the
run stands in the scopes in which resolution visited such an assignment. -/
def Event.InOwnInitializer (ps : List Program) (before : Journal) : Event → Prop
  | .stored r m => ∃ p ∈ ps, ∃ Γ, .use .assign r Γ ∈ Stmt.visitsAll p [] ∧
    (Visit.use .assign r Γ).InOwnInitializer ∧ Watched.Stands ⟨m, before⟩ Γ
  | _ => False

namespace Session.Reached

variable {s : Session} {j : Journal} {ps : List Program}

/-- **The stores that do not find their names** are those inside the initializer of the
variable that they assign. -/
theorem misses_iff (h : s.Reached j ps) (before after : Journal) (e : Event)
    (hj : j = before ++ e :: after) : ¬e.Lands ↔ e.InOwnInitializer ps before := by
  obtain ⟨hps, hvalid, -⟩ := h.invariant
  have hmatched := hvalid.journal before e after hj
  cases e with
  | opened f o => exact iff_of_false (fun h => h trivial) fun h => h
  | used kind r m => exact iff_of_false (fun h => h trivial) fun h => h
  | stored r m =>
    constructor
    · intro hmisses
      obtain ⟨Γ, ⟨p, hp, hv⟩, hs⟩ := hmatched
      have hlands := hs.lands_iff ((hps p hp).settled _ hv)
      exact ⟨p, hp, Γ, hv, not_not.mp fun hown => hmisses (hlands.mpr hown), hs⟩
    · rintro ⟨p, hp, Γ, hv, hown, hs⟩ hlands
      exact (hs.lands_iff ((hps p hp).settled _ hv)).mp hlands hown

/-- A batch ends by a breach exactly if some store of its run does not find its name. -/
theorem run_lands (h : s.Reached j ps) (limits : Limits) (list : Bool) (source : String) :
    ∃ events, (s.watch limits list source j).journal = j ++ events ∧
      (s.Through limits list source ∨ (s.run limits list source).1 = .error .outOfTurns ∨
        ∃ x, (s.run limits list source).1 = .error (.breach (.access (.missing x 0)))) ∧
      ((∃ b, (s.run limits list source).1 = .error (.breach b)) ↔ ∃ e ∈ events, ¬e.Lands) := by
  obtain ⟨hps, hvalid, hcurrent⟩ := h.invariant
  have hrun := run_eq limits list s source
  unfold watch
  cases hprepare : s.prepare limits list source with
  | mk p s' =>
    rw [hprepare] at hrun
    cases p with
    | none =>
      have hthrough : s.Through limits list source :=
        .refused hprepare (hadError_of_prepare hprepare) hrun
      refine ⟨[], (List.append_nil j).symm, .inl hthrough, ?_⟩
      rw [hrun]
      simp
    | some p =>
      obtain ⟨hkeeps, hvalid', -⟩ := watch_goes hps hvalid hcurrent hprepare
      have hshows := Watched.runProgram_shows limits ⟨s'.machine, j⟩ p
      have hgoes := hkeeps hvalid'
      dsimp only at hrun ⊢
      unfold Watched.runProgram at hshows ⊢
      cases hr : Machine.runAll (Machine.watchExec limits.turns limits.room) p
          ⟨s'.machine, j⟩ with
      | ok u w =>
        rw [hr] at hgoes hshows
        obtain ⟨-, ⟨new, hj, hnew⟩, -⟩ := hgoes
        rw [interpret_of_ok hshows] at hrun
        refine ⟨new, hj, .inl (.completed hprepare hshows hrun), ?_⟩
        rw [hrun]
        constructor
        · rintro ⟨b, hb⟩
          cases hb
        · rintro ⟨e, he, hnot⟩
          exact absurd (hnew e he) hnot
      | error e w =>
        rw [hr] at hgoes hshows
        obtain ⟨events, hj, hiff, hbreach⟩ := Watched.Fails.breach_iff hgoes.2
        cases hd : diagnostic? w.machine e with
        | some d =>
          -- the failure is reported, so it is no breach
          rw [interpret_of_reported hshows hd] at hrun
          refine ⟨events, hj, .inl (.failed hprepare hshows hd hrun), ?_⟩
          rw [hrun]
          constructor
          · rintro ⟨b, hb⟩
            cases hb
          · intro hev
            obtain ⟨b, rfl⟩ := hiff.mpr hev
            cases hd
        | none =>
          rw [interpret_of_unreported hshows hd] at hrun
          rw [hrun]
          refine ⟨events, hj, .inr ?_, ?_⟩
          · cases e with
            | breach b =>
              obtain ⟨x, rfl⟩ := hbreach b rfl
              exact .inr ⟨x, rfl⟩
            | outOfTurns => exact .inl rfl
            | error place cause => cases hd
            | stackOverflow => cases hd
          · rw [← hiff]
            simp

/-- **How a batch ends**, in every session, with the events of its run.

It is through, out of turns, or has ended by a breach, which is that of a name missing in the
current frame.  It ends by a breach exactly if its run comes to the store of an assignment
inside the initializer of the variable that it assigns. -/
theorem run_ends (h : s.Reached j ps) (limits : Limits) (list : Bool) (source : String) :
    ∃ events, (s.watch limits list source j).journal = j ++ events ∧
      (s.Through limits list source ∨ (s.run limits list source).1 = .error .outOfTurns ∨
        ∃ x, (s.run limits list source).1 = .error (.breach (.access (.missing x 0)))) ∧
      ((∃ b, (s.run limits list source).1 = .error (.breach b)) ↔
        ∃ before e after, events = before ++ e :: after ∧
          e.InOwnInitializer (ps ++ (s.program? limits list source).toList) (j ++ before)) := by
  obtain ⟨events, hj, hends, hbreach⟩ := h.run_lands limits list source
  have hmisses := (h.run limits list source).misses_iff
  refine ⟨events, hj, hends, hbreach.trans ⟨?_, ?_⟩⟩
  · rintro ⟨e, he, hnot⟩
    obtain ⟨before, after, rfl⟩ := List.append_of_mem he
    rw [← List.append_assoc] at hj
    exact ⟨before, e, after, rfl, (hmisses _ _ _ hj).mp hnot⟩
  · rintro ⟨before, e, after, rfl, hown⟩
    rw [← List.append_assoc] at hj
    exact ⟨e, by simp, (hmisses _ _ _ hj).mpr hown⟩

end Session.Reached

/-- An assignment inside the initializer of the variable that it assigns. -/
def ownAssignment : String := "{ var a = a = 1; }"

/-- Such an assignment ends its batch by a breach, at its store. -/
theorem Session.Reached.run_ends_of_ownAssignment :
    (Session.run ⟨100, 10⟩ false (.new fun _ => 0) ownAssignment).1 =
      .error (.breach (.access (.missing "a" 0))) ∧
    ∃ before e after,
      (Session.watch ⟨100, 10⟩ false (.new fun _ => 0) ownAssignment []).journal =
        before ++ e :: after ∧
      e.InOwnInitializer
        (Session.program? ⟨100, 10⟩ false (.new fun _ => 0) ownAssignment).toList before := by
  have hrun : (Session.run ⟨100, 10⟩ false (.new fun _ => 0) ownAssignment).1 =
      .error (.breach (.access (.missing "a" 0))) := by
    let isMissing : Except Failure Unit → Bool
      | .error e => e = .breach (.access (.missing "a" 0))
      | .ok _ => false
    have h : isMissing (Session.run ⟨100, 10⟩ false (.new fun _ => 0) ownAssignment).1 = true := by
      decide +kernel
    cases hr : (Session.run ⟨100, 10⟩ false (.new fun _ => 0) ownAssignment).1 with
    | ok u => rw [hr] at h; cases h
    | error e =>
      rw [hr] at h
      rw [show e = _ by simpa [isMissing] using h]
  obtain ⟨events, hj, -, hiff⟩ :=
    run_ends (.new (fun _ => 0) true) ⟨100, 10⟩ false ownAssignment
  obtain ⟨before, e, after, rfl, hown⟩ := hiff.mp ⟨_, hrun⟩
  exact ⟨hrun, before, e, after, hj, hown⟩

end LoxKit
