import LoxKit.Proofs.Machine.Course
import LoxKit.Session

/-!
# The current frame is always restored

Blocks and calls make other frames current, and a run may leave them in many ways: at their end,
by a `break` or a `return`, by an error of the program, by a broken promise of a tree that was
never resolved, or because there is no room left.  Behind each of them the frame that was current
before is current again (`Session.current_restored`), since every run is a course
(`Machine.coursesAt`).  So whatever has become of the batches of a session, the next one begins in
the global frame; nothing has to set it back.
-/
namespace LoxKit
namespace Session

/-- A batch takes the machine along a course, also if it fails. -/
theorem interpret_course (limits : Limits) (s : Session) (p : Program) :
    s.machine.Course (s.interpret limits p).2.machine := by
  have h : s.machine.Course (s.machine.runProgram limits p).2 :=
    Machine.courses_runAll limits.turns limits.room p s.machine
  have hmachine : (s.interpret limits p).2.machine = (s.machine.runProgram limits p).2 := by
    unfold interpret
    cases s.machine.runProgram limits p with
    | mk outcome m =>
      cases outcome with
      | ok _ => rfl
      | error e =>
        dsimp only
        cases diagnostic? m e <;> rfl
  rwa [hmachine]

/-- **The session behind several batches**, each with limits of its own.  A failure that is
handed to the caller ends its batch, and the next one is run all the same. -/
def interpretAll (s : Session) (batches : List (Limits × Program)) : Session :=
  batches.foldl (fun s b => (s.interpret b.1 b.2).2) s

/-- Several batches take it along a course as well. -/
theorem interpretAll_course (s : Session) (batches : List (Limits × Program)) :
    s.machine.Course (s.interpretAll batches).machine := by
  induction batches generalizing s with
  | nil => exact .done s.machine
  | cons b batches ih => exact (s.interpret_course b.1 b.2).trans (ih _)

/-- **The current frame is always restored.**  However a statement or an expression ends, in any
machine and whether or not it was resolved, the frame that was current before is current again;
and behind any batches, however each of them ended, the global frame is. -/
theorem current_restored :
    (∀ limits m s, (Machine.execute limits m s).2.current = m.current) ∧
      (∀ limits m e, (Machine.evaluate limits m e).2.current = m.current) ∧
      ∀ clock echo batches,
        ((Session.new clock echo).interpretAll batches).machine.current = globalFrame := by
  refine ⟨fun limits m s => ?_, fun limits m e => ?_, fun clock echo batches => ?_⟩
  · exact ((Machine.coursesAt limits.turns limits.room).exec s m).current
  · exact ((Machine.coursesAt limits.turns limits.room).eval e m).current
  · exact ((Session.new clock echo).interpretAll_course batches).current

end Session
end LoxKit
