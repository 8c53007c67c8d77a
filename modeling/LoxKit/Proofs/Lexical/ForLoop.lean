import LoxKit.Proofs.Grammar.ForClauses
import LoxKit.Proofs.Lexical.Simulation
import LoxKit.Proofs.Scope.Settled
import LoxKit.Proofs.Session.Scoping

/-!
# `for` loops

A `for` statement is executed as the tree that stands for it, in which a block around the loop
holds the initializer, and a block in the loop the body and the increment.  What the statement
means can be said without these blocks, clause by clause (`Lexical.execFor`).  The tree, with the
distances that resolution finds for it, does just that (`ForClauses.exec_resolved`).

Two things are behind it.  The frame of a turn lies between the body and the frame of the
initializer.  Nothing is ever bound in it, because a body declares nothing
(`Lexical.exec_inside`), so all it does is to lengthen the distances.  And what a body leaves to
its surroundings passes through the block of its turn to the loop, and past the increment
(`Run.repeatFor_eq`).
-/
namespace LoxKit

open Scope Twin

/-! ## The loop that the clauses describe -/

namespace Run

variable {σ ς : Type}

/-- **The turns of a `for` loop.**  While the test holds, the body is executed, and then the
increment.  A body that is left leaves the loop at once, without the increment, and so does one
that gives a value back, or fails. -/
def repeatFor (test : EStateM Failure ς (Value σ)) (body : EStateM Failure ς (Completion σ))
    (increment : EStateM Failure ς Unit) : Nat → EStateM Failure ς (Completion σ)
  | 0 => throw .outOfTurns
  | turns + 1 => do
    let v ← test
    if v.truthy then
      match ← body with
      | .normal => do
        increment
        repeatFor test body increment turns
      | .leave => return .normal
      | .giveBack v => return .giveBack v
    else return .normal

/-- What is left of a turn when its body is through: the increment, unless the body was left. -/
def behindBody (increment : EStateM Failure ς Unit) :
    Completion σ → EStateM Failure ς (Completion σ)
  | .normal => do
    increment
    return .normal
  | other => return other

/-- A body with the increment behind it. -/
def turn (body : EStateM Failure ς (Completion σ)) (increment : EStateM Failure ς Unit) :
    EStateM Failure ς (Completion σ) := body >>= behindBody increment

/-- **The turns of a `for` loop are those of a loop** with the increment in its body. -/
theorem repeatFor_eq (test : EStateM Failure ς (Value σ))
    (body : EStateM Failure ς (Completion σ)) (increment : EStateM Failure ς Unit)
    (turns : Nat) :
    repeatFor test body increment turns = repeatWhile test (turn body increment) turns := by
  induction turns with
  | zero => rfl
  | succ turns ih =>
    unfold repeatFor repeatWhile turn
    refine congrArg (test >>= ·) (funext fun v => ?_)
    split
    · rw [bind_assoc]
      refine congrArg (body >>= ·) (funext fun c => ?_)
      cases c with
      | normal =>
        rw [behindBody, bind_assoc, ih]
        rfl
      | leave => rfl
      | giveBack v => rfl
    · rfl

/-- Without an increment, a turn is the body. -/
theorem turn_pure (body : EStateM Failure ς (Completion σ)) : turn body (pure ()) = body := by
  have hbehind : behindBody (pure () : EStateM Failure ς Unit) = (pure : Completion σ → _) := by
    funext c
    cases c <;> rfl
  rw [turn, hbehind, bind_pure]

/-- Two statements, one after the other. -/
theorem untilLeft_pair (exec : Stmt → EStateM Failure ς (Completion σ)) (a b : Stmt) :
    untilLeft exec [a, b] = do
      match ← exec a with
      | .normal => exec b
      | other => return other := by
  have hlast : untilLeft exec [b] = exec b := turn_pure (exec b)
  exact congrArg (fun last => do
    match ← exec a with
    | .normal => last
    | other => return other) hlast

end Run

namespace Lexical

/-- What names mean behind an initializer, which runs inside. -/
def begun (turns room : Nat) (ρ : Env) : Option Stmt → Step Env
  | none => return ρ
  | some s => return (← exec turns room ρ.inside s).2

/-- Evaluates an increment. -/
def incremented (turns room : Nat) (ρ : Env) : Option Expr → Step Unit
  | none => return
  | some e => do let _ ← eval turns room ρ e

/-- **What a `for` statement does**, by its clauses alone.  The initializer runs once; what names
mean behind it holds in every turn, and no longer than the loop. -/
def execFor (turns room : Nat) (ρ : Env) (f : ForClauses) : Step (Completion Env) := do
  let ρ ← begun turns room ρ f.initial
  Run.repeatFor (eval turns room ρ f.condition) (do return (← exec turns room ρ f.body).1)
    (incremented turns room ρ f.increment) turns

/-- Expressions mean the same inside a block. -/
theorem eval_inside (turns room : Nat) (ρ : Env) :
    eval turns room ρ.inside = eval turns room ρ ∧
      evalAll turns room ρ.inside = evalAll turns room ρ := by
  induction room with
  | zero => exact ⟨rfl, rfl⟩
  | succ room ih =>
    obtain ⟨heval, hevalAll⟩ := ih
    refine ⟨funext fun e => ?_, funext fun es => ?_⟩
    · unfold eval
      rw [heval, hevalAll]
      rfl
    · unfold evalAll
      rw [heval]

/-- **A statement that declares nothing does the same inside a block.** -/
theorem exec_inside (turns : Nat) (ρ : Env) : ∀ (room : Nat) (s : Stmt),
    s.isDeclaration = false ∧ s.Shaped →
    (do return (← exec turns room ρ.inside s).1) = do return (← exec turns room ρ s).1 := by
  intro room
  induction room with
  | zero => exact fun _ _ => rfl
  | succ room ih =>
    intro s hs
    have heval := (eval_inside turns room ρ).1
    cases s with
    | expression e | print e =>
      unfold exec
      rw [heval]
      simp only [bind_assoc, pure_bind]
    | block body =>
      unfold exec
      simp only [bind_assoc, pure_bind]
      rfl
    | branch t y n =>
      unfold exec
      simp only [bind_assoc, heval]
      refine congrArg (eval turns room ρ t >>= ·) (funext fun v => ?_)
      have hy : y.isDeclaration = false ∧ y.Shaped := by
        cases n with
        | none => exact hs.2.2
        | some n => exact hs.2.2.1
      by_cases hv : v.truthy
      · simp only [if_pos hv, bind_assoc, pure_bind]
        exact ih y hy
      · simp only [if_neg hv]
        cases n with
        | none => rfl
        | some n =>
          simp only [bind_assoc, pure_bind]
          exact ih n hs.2.2.2
    | loop t b =>
      unfold exec
      simp only [bind_assoc, pure_bind, heval]
      rw [ih b hs.2.2]
    | leave k => rfl
    | giveBack k e =>
      unfold exec
      cases e with
      | none => rfl
      | some e =>
        simp only [bind_assoc, pure_bind, heval]
    | _ => exact absurd hs.1 nofun

end Lexical

namespace Machine

variable {turns room : Nat}

/-- Executing a clause goes on with what stands behind it, whatever it does. -/
theorem exec_isClause {α : Type} {s : Stmt} (hs : s.isClause)
    (k : Completion FrameId → Run α) :
    exec turns room s >>= k = exec turns room s >>= fun _ => k .normal := by
  cases room with
  | zero => rfl
  | succ room =>
    unfold exec
    cases s with
    | expression e => simp only [bind_assoc, pure_bind]
    | var n e => cases e <;> simp only [bind_assoc, pure_bind]
    | _ => cases hs

/-- Runs a step in a new frame on the current one. -/
def inBlock (room : Nat) (step : Run α) : Run α := do
  Run.need Spare.make room
  let frame ← Run.newFrame (← get).current .empty
  Run.inFrame frame step

/-- One turn of a `for` statement.  If there is an increment, it shares a frame with the body. -/
def execTurn (turns room : Nat) (f : ForClauses) : Run (Completion FrameId) :=
  match f.increment with
  | none => exec turns (room + 3) f.body
  | some e => inBlock (room + 2) <|
    Run.turn (exec turns (room + 1) f.body) (do let _ ← eval turns room e)

/-- The turns of a `for` statement, in the frame of its initializer. -/
def execTurns (turns room : Nat) (f : ForClauses) : Run (Completion FrameId) :=
  let test := do
    let v ← eval turns (room + 3) f.condition
    Run.need Spare.truth (room + 3)
    return v
  Run.repeatWhile test (execTurn turns room f) turns

/-- **What the machine does at a `for` statement**, clause by clause, each with the room that is
left to it.  The initializer runs once, in a frame that is the current one in all turns. -/
def execFor (turns room : Nat) (f : ForClauses) : Run (Completion FrameId) :=
  match f.initial with
  | none => execTurns turns (room + 2) f
  | some s => inBlock (room + 5) do
    let _ ← exec turns (room + 4) s
    execTurns turns room f

/-- A body and an increment behind it, as two statements. -/
theorem untilLeft_increment (body : Stmt) (e : Expr) :
    Run.untilLeft (exec turns (room + 1)) [body, .expression e] =
      Run.turn (exec turns (room + 1) body) (do let _ ← eval turns room e) := by
  rw [Run.untilLeft_pair]
  unfold Run.turn
  refine congrArg (exec turns (room + 1) body >>= ·) (funext fun c => ?_)
  cases c with
  | normal =>
    simp only [Run.behindBody, bind_assoc, pure_bind]
    rfl
  | leave => rfl
  | giveBack v => rfl

theorem exec_turn (f : ForClauses) : exec turns (room + 3) f.turn = execTurn turns room f := by
  obtain ⟨initial, test, increment, body⟩ := f
  cases increment with
  | none => rfl
  | some e =>
    show inBlock (room + 2) (Run.untilLeft (exec turns (room + 1)) [body, .expression e]) = _
    rw [untilLeft_increment]
    rfl

theorem exec_loop (f : ForClauses) : exec turns (room + 4) f.loop = execTurns turns room f := by
  unfold execTurns
  rw [← exec_turn]
  rfl

/-- **The machine executes the tree of some clauses** clause by clause. -/
theorem exec_tree {f : ForClauses} (hf : ∀ s ∈ f.initial, s.isClause) :
    exec turns (room + 6) f.tree = execFor turns room f := by
  unfold execFor
  rw [ForClauses.tree_eq]
  cases hi : f.initial with
  | none => exact exec_loop f
  | some s =>
    show inBlock (room + 5) (Run.untilLeft (exec turns (room + 4)) [s, f.loop]) = _
    rw [Run.untilLeft_pair, exec_isClause (hf s hi), exec_loop]

end Machine

/-! ## Both loops -/

/-- The leeway of a `for` statement, in whose tree the machine goes up to six nodes deeper. -/
def Leeway.ofFor (room fuel : Nat) : Leeway := ⟨room < fuel + Spare.most + 6, fuel < room⟩

section

variable {turns room fuel r : Nat} {t : Twin} {Γ : Stack} {ρ : Lexical.Env} {f : ForClauses}

theorem mirrorsAt_ofFor (hle : r ≤ room) (hge : room ≤ r + 6) :
    MirrorsAt (.ofFor room fuel) turns r fuel :=
  mirrorsAt _ turns r fuel (fun h => show room < fuel + Spare.most + 6 by omega)
    fun h => show fuel < room by omega

/-- Where there is little room, the machine may run out of it. -/
theorem Leeway.ofFor_machine (h : room < 14) : (Leeway.ofFor room fuel).machine := by
  unfold Leeway.ofFor Spare.most
  dsimp only
  omega

/-- A block whose statements do what the world does inside. -/
theorem mirrors_block {L : Leeway} {β : Type} {body : List Stmt} {y : Lexical.Step β}
    {Q : Completion FrameId → β → Twin → Prop} (hL : r < 4 → L.machine) (hs : t.Stands Γ ρ)
    (hx : ∀ q, r = q + 2 → ∀ t₁ : Twin, t₁.Stands (.block body {} :: Γ) ρ.inside →
      Mirrors L (· = t₁.machine.current) t₁ (Run.untilLeft (Machine.exec turns q) body) y Q)
    (hQ : ∀ a b t' g, Q a b t' →
      Q a b { t' with machine := { t'.machine with current := g } }) :
    Mirrors L nowhere t (Machine.exec turns r (.block body)) y
      fun a b t' => Q a b t' ∧ t'.Stands Γ ρ := by
  rcases r with - | r
  · exact fun _ => .machineOverflow (hL (by omega))
  · have hmake : r < Spare.make → L.machine := fun hlt => hL (by unfold Spare.make at hlt; omega)
    refine Mirrors.needing hmake (.looking (Mirrors.inBlock body hs (fun t₁ hs₁ => ?_) hQ))
    rcases r with - | q
    · exact fun _ => .machineOverflow (hL (by omega))
    · exact hx q rfl t₁ hs₁

/-- **One turn** is alike on both sides if the body and the increment are. -/
theorem Mirrors.turn {L : Leeway} {body : Run (Completion FrameId)}
    {body' : Lexical.Step (Completion Lexical.Env)} {increment : Run Unit}
    {increment' : Lexical.Step Unit}
    (hbody : Mirrors L nowhere t body body' fun c c' t' =>
      CompletionLike t'.ties c c' ∧ t'.Stands Γ ρ)
    (hincrement : ∀ t' : Twin, t'.Stands Γ ρ →
      Mirrors L nowhere t' increment increment' fun _ _ _ => True) :
    Mirrors L nowhere t (Run.turn body increment) (Run.turn body' increment')
      fun c c' t' => CompletionLike t'.ties c c' := by
  refine hbody.bind ?_
  rintro c c' t' - ⟨hc, hs⟩
  cases hc with
  | normal =>
    refine (hincrement t' hs).bind fun _ _ _ _ _ => ?_
    exact .pure (Q := fun c c' t' => CompletionLike t'.ties c c') .normal
  | leave => exact .pure (Q := fun c c' t' => CompletionLike t'.ties c c') .leave
  | giveBack hv =>
    exact .pure (Q := fun c c' t' => CompletionLike t'.ties c c') (.giveBack hv)

/-- **A turn of the machine and one of the world.**  The frame between binds nothing. -/
theorem ForClauses.Shaped.mirrors_turn (hf : f.Shaped) (hle : r ≤ room) (hge : room ≤ r + 3)
    (hvisits : ∀ v ∈ f.turn.visits Γ, v.Settled) (hs : t.Stands Γ ρ) :
    Mirrors (.ofFor room fuel) nowhere t (Machine.exec turns r f.turn)
      (Run.turn (do return (← Lexical.exec turns fuel ρ f.bare.body).1)
        (Lexical.incremented turns fuel ρ f.bare.increment))
      fun c c' t' => CompletionLike t'.ties c c' := by
  obtain ⟨initial, test, increment, body⟩ := f
  have hbody := hf.body
  cases increment with
  | none =>
    have h : MirrorsAt (.ofFor room fuel) turns r fuel := mirrorsAt_ofFor hle (by omega)
    show Mirrors _ _ _ _ (Run.turn _ (pure ())) _
    rw [Run.turn_pure]
    exact ((h.execBody hbody hvisits hs).imp fun _ _ _ _ hc => hc.1).yielding
  | some e =>
    have he : e.Shaped := hf.increment e rfl
    refine (mirrors_block (Q := fun c c' t' => CompletionLike t'.ties c c')
      (fun hlt => Leeway.ofFor_machine (by omega)) hs ?_
      fun _ _ _ _ hc => hc).imp fun _ _ _ _ hc => hc.1
    rintro q rfl t₁ hs₁
    rcases q with - | q
    · exact fun _ => .machineOverflow (Leeway.ofFor_machine (by omega))
    · have h : MirrorsAt (.ofFor room fuel) turns (q + 1) fuel :=
        mirrorsAt_ofFor (by omega) (by omega)
      have h₀ : MirrorsAt (.ofFor room fuel) turns q fuel :=
        mirrorsAt_ofFor (by omega) (by omega)
      -- the machine is one frame further in than the world, where everything means the same
      have hinside := Lexical.exec_inside turns ρ fuel body.bare
        ⟨body.isDeclaration_bare.trans hbody.1, body.shaped_bare.mpr hbody.2⟩
      have heval := (Lexical.eval_inside turns fuel ρ).1
      rw [Machine.untilLeft_increment]
      show Mirrors _ _ _ _ (Run.turn (do return (← Lexical.exec turns fuel ρ body.bare).1)
        (do let _ ← Lexical.eval turns fuel ρ e.bare)) _
      rw [← hinside, ← heval]
      refine (Mirrors.turn (h.execBody hbody (fun v hv => hvisits v ?_) hs₁).yielding
        fun t₂ hs₂ => ?_).widen fun _ _ h => h.elim
      · exact List.mem_append_left _ hv
      · refine (h₀.eval e _ _ t₂ he (fun v hv => hvisits v ?_) hs₂).bind
          fun _ _ _ _ _ => .pure trivial
        refine List.mem_append_right _ (List.mem_append_left _ ?_)
        rwa [Stmt.declare_of_isDeclaration_eq_false hbody.1]

/-- **The turns of the machine and those of the world.** -/
theorem ForClauses.Shaped.mirrors_loop (hf : f.Shaped) (hle : r ≤ room) (hge : room ≤ r + 2)
    (hvisits : ∀ v ∈ f.loop.visits Γ, v.Settled) (hs : t.Stands Γ ρ) :
    Mirrors (.ofFor room fuel) nowhere t (Machine.exec turns r f.loop)
      (Run.repeatFor (Lexical.eval turns fuel ρ f.bare.condition)
        (do return (← Lexical.exec turns fuel ρ f.bare.body).1)
        (Lexical.incremented turns fuel ρ f.bare.increment) turns)
      fun c c' t' => CompletionLike t'.ties c c' := by
  rcases r with - | q
  · exact fun _ => .machineOverflow (Leeway.ofFor_machine (by omega))
  · have h : MirrorsAt (.ofFor room fuel) turns q fuel :=
      mirrorsAt_ofFor (by omega) (by omega)
    have hL : q < Spare.most → (Leeway.ofFor room fuel).machine :=
      fun hlt => Leeway.ofFor_machine (by unfold Spare.most at hlt; omega)
    rw [Run.repeatFor_eq, f.bare_condition]
    refine mirrors_repeatWhile (fun t₁ hs₁ => ?_) (fun t₁ hs₁ => ?_) turns t hs
    · exact h.test hL hf.condition (fun v hv => hvisits v (List.mem_append_left _ hv)) hs₁
    · exact hf.mirrors_turn (by omega) (by omega)
        (fun v hv => hvisits v (List.mem_append_right _ hv)) hs₁

/-- **The machine executes the tree of some clauses as the world the clauses.** -/
theorem ForClauses.Shaped.mirrors_tree (hf : f.Shaped)
    (hvisits : ∀ v ∈ f.tree.visits Γ, v.Settled) (hs : t.Stands Γ ρ) :
    Mirrors (.ofFor room fuel) nowhere t (Machine.exec turns room f.tree)
      (Lexical.execFor turns fuel ρ f.bare)
      fun c c' t' => CompletionLike t'.ties c c' ∧ t'.Stands Γ ρ := by
  unfold Lexical.execFor
  rw [ForClauses.tree_eq] at hvisits ⊢
  obtain ⟨initial, test, increment, body⟩ := f
  cases initial with
  | none =>
    intro ht
    exact (hf.mirrors_loop (Nat.le_refl _) (by omega) hvisits hs).imp
      (fun _ _ _ hgoes hc => ⟨hc, hs.goes ht hgoes⟩) ht
  | some s =>
    obtain ⟨hshaped, hclause⟩ := hf.initial s rfl
    refine mirrors_block (Q := fun c c' t' => CompletionLike t'.ties c c')
      (fun hlt => Leeway.ofFor_machine (by omega)) hs ?_ fun _ _ _ _ hc => hc
    rintro q rfl t₁ hs₁
    have h : MirrorsAt (.ofFor (q + 2) fuel) turns q fuel :=
      mirrorsAt_ofFor (by omega) (by omega)
    -- an initializer is never left, so the loop comes behind it in any case
    rw [Run.untilLeft_pair, Machine.exec_isClause hclause]
    have hexec := h.exec s _ ρ.inside t₁ hshaped
      (fun v hv => hvisits v (List.mem_append_left _ hv)) hs₁
    have hbegun : Mirrors (.ofFor (q + 2) fuel) (· = t₁.machine.current) t₁
        (Machine.exec turns q s) (Lexical.begun turns fuel ρ (some s.bare))
        fun _ ρ' t' => t'.Stands (s.declare (.block [s, _] {} :: Γ)) ρ' :=
      ((hexec.widen fun _ _ hmay => hmay.2).imp fun _ _ _ _ hc => hc.2).yielding
    refine hbegun.bind ?_
    intro _ ρ' t₂ _ hs₂
    refine (hf.mirrors_loop (by omega) (by omega) (fun v hv => hvisits v ?_) hs₂).widen
      fun _ _ h => h.elim
    exact List.mem_append_right _ (List.mem_append_left _ hv)

end

/-! ## `for` statements that are read and resolved -/

namespace ForClauses

/-- **A `for` statement is executed by its clauses.**  It is read as the tree of its clauses, and
resolved, on any stack, as the tree of the same clauses with their distances.  Whatever state a
machine is in, it executes that tree clause by clause.  Where a machine stands in the scopes of
the stack beside a world, the tree does to the machine what the clauses do to the world: both
print the same, change the same and end alike, and stand where they stood before. -/
theorem exec_resolved {width readRoom resolveRoom : Nat} {c d : Grammar.Cursor} {s s' : Stmt}
    {w w' : Walk} {Γ : Stack} (hc : c.Genuine) (hword : c.current.kind = .forWord)
    (hread : Grammar.statement width readRoom c = .ok s d)
    (hresolved : Scope.stmt resolveRoom s w = .ok s' w')
    (hclean : w'.diagnostics = w.diagnostics) (hfollows : Follows Γ w) (hΓ : Γ.WellFormed)
    (hready : Γ.Ready) :
    ∃ f f' : ForClauses, Grammar.forClauses width (readRoom - 4) c.advance = .ok f d ∧
      s = f.tree ∧ s' = f'.tree ∧ f'.bare = f ∧
      (∀ turns room, Machine.exec turns (room + 6) s' = Machine.execFor turns room f') ∧
      ∀ (t : Twin) (ρ : Lexical.Env), t.Agrees → t.Stands Γ ρ → ∀ turns room fuel,
        Mirrored (.ofFor room fuel) nowhere t
          (fun c c' t' => CompletionLike t'.ties c c' ∧ t'.Stands Γ ρ)
          (Machine.exec turns room s' t.machine) (Lexical.execFor turns fuel ρ f t.world) := by
  obtain ⟨f, hf, rfl⟩ := Grammar.statement_forWord hword hread
  have hfresh : f.Fresh := by
    have hyields := Grammar.yields_forClauses width (readRoom - 4) c.advance hc.advance
    rw [hf] at hyields
    exact hyields.2
  have hsettles := (settlesAt resolveRoom).stmt f.tree w
  unfold Clean at hsettles
  rw [hresolved] at hsettles
  obtain ⟨hbare, hnoted⟩ := hsettles.2 hclean
  have hvisits := (hnoted Γ hfollows hΓ hready hfresh.tree.1).settled
  obtain ⟨f', rfl, rfl⟩ := of_bare_tree (hbare.trans hfresh.tree.2)
  have hshaped := hfresh.shaped
  refine ⟨f'.bare, f', hf, rfl, rfl, rfl, fun turns room => ?_, fun t ρ ht hs turns room fuel => ?_⟩
  · exact Machine.exec_tree fun s hs => (hshaped.initial s hs).2
  · exact hshaped.mirrors_tree hvisits hs ht

/-- A closure of one turn is called in the next, where the variable has been incremented; the last
turn is left before its increment. -/
def sharedVariable : String :=
  "for (var a = \"x\"; ; a = a + \"x\") \x7b fun show() \x7b print a; \x7d " ++
    "if (a != \"x\") clock(); clock = show; if (a == \"xxx\") break; \x7d"

/-- What the closures print is what the variable is when they are called. -/
theorem exec_resolved_of_sharedVariable :
    let c : Grammar.Cursor := { rest := (scan sharedVariable).tokens }
    let t : Twin := ⟨fun _ _ => none, .initial fun _ => 0, .initial fun _ => 0⟩
    ∃ s s' d w' f v m v' W, Grammar.statement 60 60 c = .ok s d ∧
      Scope.stmt 60 s {} = .ok s' w' ∧ Grammar.forClauses 60 56 c.advance = .ok f d ∧
      Machine.exec 10 60 s' t.machine = .ok v m ∧
      Lexical.execFor 10 60 .global f t.world = .ok v' W ∧
      m.output = "xx\nxxx\n" ∧ W.output = m.output := by
  intro c t
  -- the tree is known only as what is read, so all that is computed from it is computed at once
  have hran : ((Grammar.statement 60 60).run' c).bind (fun s =>
      (do return (← Scope.stmt 60 s, (← get).diagnostics.length) : Resolving _).run' {} |>.bind
        fun r => (do let _ ← Machine.exec 10 60 r.1; return (r.2, (← get).output) : Run _).run'
          t.machine) = some (0, "xx\nxxx\n") := by
    decide +kernel
  obtain ⟨s, hs, hrest⟩ := Option.bind_eq_some_iff.mp hran
  obtain ⟨r, hr, hout⟩ := Option.bind_eq_some_iff.mp hrest
  obtain ⟨d, hread⟩ := of_run_eq_some hs
  obtain ⟨w', hr⟩ := of_run_eq_some hr
  obtain ⟨s', _, hresolved, hr⟩ := of_bind_ok hr
  cases hr
  obtain ⟨m', hout⟩ := of_run_eq_some hout
  obtain ⟨v, m, hexec, hout⟩ := of_bind_ok hout
  obtain ⟨hpair, -⟩ := EStateM.Result.ok.inj
    (show EStateM.Result.ok (w'.diagnostics.length, m.output) m = .ok _ m' from hout)
  obtain ⟨hclean, hprinted⟩ := Prod.mk.inj hpair
  have hc : c.Genuine := ⟨fun _ ht => genuine_of_mem_scan ht, List.forall_mem_nil _⟩
  have hword : c.current.kind = .forWord := by decide +kernel
  obtain ⟨f, -, hf, -, -, -, -, hmirrored⟩ := exec_resolved hc hword hread hresolved
    (List.eq_nil_of_length_eq_zero hclean) ⟨rfl, rfl⟩ .global (List.forall_mem_nil _)
  have h := hmirrored t .global (agrees_initial _) (stands_global rfl) 10 60 60
  rw [hexec] at h
  generalize hworld : Lexical.execFor 10 60 .global f t.world = r at h
  cases h with
  | ok hgoes hlike =>
    exact ⟨s, s', d, w', f, _, _, _, _, hread, hresolved, hf, hexec, hworld, hprinted,
      hgoes.agrees.output⟩
  | worldOverflow hW => exact absurd hW (Nat.lt_irrefl _)

end ForClauses
end LoxKit
