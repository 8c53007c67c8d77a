import LoxKit.Machine.Eval
import LoxKit.Proofs.Tree.Exits

/-!
# Statements are left as their texts say

A statement is left before its end only by a way out that its text has (`Machine.exec_exits`).
So a program without a way out runs from its first statement to its last, and a program with
more behind it runs the rest where the first part ends (`Machine.runAll_append`).
-/
namespace LoxKit

/-- The way out that a completion takes, if it takes one. -/
def Completion.exit? {σ : Type} : Completion σ → Option Exit
  | .normal => none
  | .leave => some .leave
  | .giveBack _ => some .giveBack

/-- **A step completes by certain ways out**, or none. -/
def ExitsBy {ς σ : Type} (P : Exit → Prop) (step : EStateM Failure ς (Completion σ)) : Prop :=
  ∀ m c m', step m = .ok c m' → ∀ x, c.exit? = some x → P x

namespace ExitsBy

variable {ς σ α : Type} {P Q : Exit → Prop}

theorem mono {step : EStateM Failure ς (Completion σ)} (h : ExitsBy P step)
    (hPQ : ∀ x, P x → Q x) : ExitsBy Q step :=
  fun m c m' hrun x hx => hPQ x (h m c m' hrun x hx)

theorem pure (c : Completion σ) :
    ExitsBy (c.exit? = some ·) (Pure.pure c : EStateM Failure ς (Completion σ)) := by
  rintro m _ _ ⟨⟩ x hx
  exact hx

/-- A step that goes on to the end. -/
theorem normal : ExitsBy P (Pure.pure .normal : EStateM Failure ς (Completion σ)) :=
  (pure .normal).mono nofun

theorem throw (e : Failure) :
    ExitsBy P (MonadExcept.throw e : EStateM Failure ς (Completion σ)) := by
  rintro m _ _ ⟨⟩

/-- What is done before has no part in the completion. -/
theorem bind {x : EStateM Failure ς α} {f : α → EStateM Failure ς (Completion σ)}
    (h : ∀ a, ExitsBy P (f a)) : ExitsBy P (x >>= f) := by
  intro m c m' hrun
  simp only [Bind.bind, EStateM.bind] at hrun
  cases hx : x m with
  | ok a m₁ =>
    rw [hx] at hrun
    exact h a m₁ c m' hrun
  | error e m₁ =>
    rw [hx] at hrun
    cases hrun

/-- A step that goes on according to the completion of another. -/
theorem next {x : EStateM Failure ς (Completion σ)}
    {f : Completion σ → EStateM Failure ς (Completion σ)} (hx : ExitsBy P x)
    (hf : ∀ c, (∀ x, c.exit? = some x → P x) → ExitsBy Q (f c)) : ExitsBy Q (x >>= f) := by
  intro m c m' hrun
  simp only [Bind.bind, EStateM.bind] at hrun
  cases hxm : x m with
  | ok a m₁ =>
    rw [hxm] at hrun
    exact hf a (hx m a m₁ hxm) m₁ c m' hrun
  | error e m₁ =>
    rw [hxm] at hrun
    cases hrun

/-- Statements one after the other are left by a way out of one of them. -/
theorem untilLeft {exec : Stmt → EStateM Failure ς (Completion σ)} {ss : List Stmt}
    (h : ∀ s ∈ ss, ExitsBy P (exec s)) : ExitsBy P (Run.untilLeft exec ss) := by
  induction ss with
  | nil => exact .normal
  | cons s ss ih =>
    refine (h s List.mem_cons_self).next fun c hc => ?_
    cases c with
    | normal => exact ih fun s hs => h s (List.mem_cons_of_mem _ hs)
    | leave | giveBack v => exact (pure _).mono hc

/-- A loop is left by a way out of its body, but not by a `break`. -/
theorem repeatWhile {test : EStateM Failure ς (Value σ)}
    {body : EStateM Failure ς (Completion σ)} (h : ExitsBy P body) (turns : Nat) :
    ExitsBy (fun x => x ≠ .leave ∧ P x) (Run.repeatWhile test body turns) := by
  induction turns with
  | zero => exact .throw _
  | succ turns ih =>
    refine .bind fun v => ?_
    split
    · refine h.next fun c hc => ?_
      cases c with
      | normal => exact ih
      | leave => exact .normal
      | giveBack v =>
        refine (pure _).mono fun x hx => ⟨?_, hc x hx⟩
        rintro rfl
        cases hx
    · exact .normal

/-- The frame that is current has no part in the completion. -/
theorem inFrame {step : Run (Completion FrameId)} (f : FrameId) (h : ExitsBy P step) :
    ExitsBy P (Run.inFrame f step) := by
  intro m c m' hrun
  unfold Run.inFrame at hrun
  dsimp only at hrun
  cases hstep : step { m with current := f } with
  | ok a m₁ =>
    rw [hstep] at hrun
    cases hrun
    exact h _ _ _ hstep
  | error e m₁ =>
    rw [hstep] at hrun
    cases hrun

end ExitsBy

namespace Machine

/-- **Statements are left as their texts say**, in the given room. -/
structure ExitsAt (turns room : Nat) : Prop where
  exec : ∀ s, ExitsBy s.Exits (exec turns room s)
  execAll : ∀ body, ExitsBy (Stmt.AnyExits · body) (execAll turns room body)

namespace ExitsAt

variable {turns room : Nat}

theorem exec_succ (ih : ExitsAt turns room) (s : Stmt) :
    ExitsBy s.Exits (Machine.exec turns (room + 1) s) := by
  cases s with
  | expression e => exact .bind fun _ => .normal
  | print e => exact .bind fun _ => .bind fun _ => .bind fun _ => .normal
  | var n e =>
    cases e with
    | none => exact .bind fun _ => .bind fun _ => .normal
    | some e => exact .bind fun _ => .bind fun _ => .bind fun _ => .normal
  | block body =>
    exact .bind fun _ => .bind fun _ => .bind fun frame => .inFrame frame (ih.execAll body)
  | branch t y n =>
    refine .bind fun v => .bind fun _ => ?_
    cases n with
    | none =>
      split
      · exact ih.exec y
      · exact .normal
    | some n =>
      split
      · exact (ih.exec y).mono fun _ => .inl
      · exact (ih.exec n).mono fun _ => .inr
  | loop t body => exact .repeatWhile (ih.exec body) turns
  | leave k => exact (ExitsBy.pure .leave).mono fun x hx => (Option.some.inj hx).symm
  | giveBack k e =>
    have hpure (v : Value FrameId) : ExitsBy (Stmt.giveBack k e).Exits
        (pure (.giveBack v) : Run (Completion FrameId)) :=
      (ExitsBy.pure (.giveBack v)).mono fun x hx => (Option.some.inj hx).symm
    cases e with
    | none => exact .bind fun _ => hpure .nil
    | some e => exact .bind fun v => .bind fun _ => hpure v
  | function d => exact .bind fun _ => .bind fun _ => .bind fun _ => .normal
  | classDecl n s ms => exact .bind fun _ => .bind fun _ => .normal

end ExitsAt

theorem exitsAt (turns room : Nat) : ExitsAt turns room := by
  induction room with
  | zero => exact ⟨fun _ => .throw _, fun _ => .throw _⟩
  | succ room ih =>
    exact ⟨ih.exec_succ, fun body => .untilLeft fun s hs =>
      (ih.exec s).mono fun x hx => Stmt.anyExits_iff.mpr ⟨s, hs, hx⟩⟩

/-- **A statement is left as its text says.** -/
theorem exec_exits {turns room : Nat} {s : Stmt} {m m' : Machine} {c : Completion FrameId}
    {x : Exit} (h : exec turns room s m = .ok c m') (hx : c.exit? = some x) : s.Exits x :=
  (exitsAt turns room).exec s m c m' h x hx

/-- **A program in two parts**, the first of which has no `return` outside functions, runs one
part after the other. -/
theorem runAll_append {turns room : Nat} {p : List Stmt} (hp : ¬Stmt.AnyExits .giveBack p)
    (q : List Stmt) :
    runAll (exec turns room) (p ++ q) =
      runAll (exec turns room) p >>= fun _ => runAll (exec turns room) q := by
  induction p with
  | nil => rfl
  | cons s p ih =>
    funext m
    rw [Stmt.AnyExits, not_or] at hp
    rw [List.cons_append, runAll, runAll, ih hp.2]
    simp only [Bind.bind, EStateM.bind]
    cases hs : exec turns room s m with
    | error e m' => rfl
    | ok c m' =>
      cases c with
      | normal | leave => rfl
      | giveBack v => exact absurd (exec_exits hs rfl) hp.1

end Machine
end LoxKit
