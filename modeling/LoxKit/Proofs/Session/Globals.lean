import LoxKit.Proofs.Machine.Names
import LoxKit.Proofs.Session.Contained
import LoxKit.Proofs.Session.Restored

/-!
# Only top-level declarations make globals

The frame that is current while a top-level statement is executed is the global one, and the body
of a block or of a function, wherever it is and whoever calls it, defines its names in a frame of
its own.  So behind a batch the global names are those from before and those of the top-level
declarations that completed, and nothing else ever adds a global name or takes one away
(`Session.Underway.globals_interpret`).  A batch that ends by an error has completed the statements
in front of the one that failed (`Machine.completed`).
-/
namespace LoxKit

/-- The names that statements declare in the scope around them. -/
def Stmt.declaredNames (ss : List Stmt) : List String :=
  ss.filterMap fun s => s.declared?.map (·.lexeme)

namespace Machine

/-- **The statements of a program that complete**: all those in front of the one that fails, if
one does.  A value given back ends the program. -/
def completed (limits : Limits) (m : Machine) : Program → Program
  | [] => []
  | s :: rest =>
    match m.execute limits s with
    | (.ok (.giveBack _), _) => [s]
    | (.ok _, m) => s :: m.completed limits rest
    | (.error _, _) => []

theorem completed_prefix (limits : Limits) (m : Machine) (p : Program) :
    m.completed limits p <+: p := by
  induction p generalizing m with
  | nil => exact List.prefix_rfl
  | cons s rest ih =>
    unfold completed
    split
    · exact ⟨rest, rfl⟩
    · exact List.cons_prefix_cons.mpr ⟨rfl, ih _⟩
    · exact List.nil_prefix

/-- A program is executed statement by statement. -/
theorem runProgram_cons (limits : Limits) (m : Machine) (s : Stmt) (rest : Program) :
    m.runProgram limits (s :: rest) =
      match m.execute limits s with
      | (.ok (.giveBack _), m) => (.ok (), m)
      | (.ok _, m) => m.runProgram limits rest
      | (.error e, m) => (.error e, m) := by
  simp only [runProgram, execute, after, runAll, Bind.bind, EStateM.bind]
  cases hexec : exec limits.turns limits.room s m with
  | error e m' => rfl
  | ok c m' => cases c <;> rfl

theorem gains_execute {limits : Limits} (hroom : 5 ≤ limits.room) {s : Stmt} (hs : s.Shaped)
    {m : Machine} (hm : m.current < m.frames.frames.size) :
    match m.execute limits s with
    | (.ok _, m') => m.Gains (Stmt.declaredNames [s]) m'
    | (.error _, m') => m.Gains [] m' := by
  unfold execute after
  cases hn : s.declared? with
  | some n =>
    have hdefines : Defines n.lexeme (exec limits.turns limits.room s) :=
      exec_declaration hroom hn
    have h := hdefines m hm
    have hnames : Stmt.declaredNames [s] = [n.lexeme] := by simp [Stmt.declaredNames, hn]
    rw [hnames]
    cases hexec : exec limits.turns limits.room s m with
    | ok c m' =>
      rw [hexec] at h
      exact h
    | error e m' =>
      rw [hexec] at h
      exact h
  | none =>
    have hd : s.isDeclaration = false := by
      cases s with
      | var | function | classDecl => cases hn
      | _ => rfl
    have h := (quietAt limits.turns limits.room).exec s hs hd m
    have hnames : Stmt.declaredNames [s] = [] := by simp [Stmt.declaredNames, hn]
    rw [hnames]
    unfold after at h
    cases hexec : exec limits.turns limits.room s m with
    | ok c m' =>
      rw [hexec] at h
      exact h
    | error e m' =>
      rw [hexec] at h
      exact h

/-- **A program defines the names of the declarations that it completes**, in the frame in which
it is run. -/
theorem gains_runProgram {limits : Limits} (hroom : 5 ≤ limits.room) {p : Program}
    (hp : Stmt.AllShaped p) : ∀ {m : Machine}, m.current < m.frames.frames.size →
      m.Gains (Stmt.declaredNames (m.completed limits p)) (m.runProgram limits p).2 := by
  induction p with
  | nil => exact fun {m} _ => .refl m
  | cons s rest ih =>
    intro m hm
    have hstmt := gains_execute hroom hp.1 hm
    rw [runProgram_cons]
    unfold completed
    generalize m.execute limits s = step at hstmt ⊢
    have hrest : ∀ m', m.Gains (Stmt.declaredNames [s]) m' →
        m.Gains (Stmt.declaredNames (s :: m'.completed limits rest))
          (m'.runProgram limits rest).2 := by
      intro m' h
      have hm' : m'.current < m'.frames.frames.size := by
        rw [h.current]
        exact Nat.lt_of_lt_of_le hm h.size_le
      have hnames : Stmt.declaredNames (s :: m'.completed limits rest) =
          Stmt.declaredNames [s] ++ Stmt.declaredNames (m'.completed limits rest) :=
        List.filterMap_append (l := [s])
      rw [hnames]
      exact h.trans (ih hp.2 hm')
    match step with
    | (.ok (.giveBack v), m') => exact hstmt
    | (.ok .normal, m') => exact hrest m' hstmt
    | (.ok .leave, m') => exact hrest m' hstmt
    | (.error e, m') => exact hstmt

/-- **The global names are the same.** -/
def SameGlobals (m m' : Machine) : Prop := ∀ x, m'.globals.contains x ↔ m.globals.contains x

/-- A frame that gains nothing keeps its names; that of the globals gains nothing while it is not
the current one. -/
theorem Gains.sameGlobals {m m' : Machine} (h : m.Gains [] m') (hm : 0 < m.frames.frames.size) :
    m.SameGlobals m' := by
  intro x
  have hx := h.contains globalFrame hm x
  rwa [or_iff_left (fun hnil => nomatch hnil.2)] at hx

/-- A program none of whose statements gives back a value has completed if it ends normally. -/
theorem completed_eq_iff (limits : Limits) {p : Program}
    (hnormal : ∀ s ∈ p, ∀ (m m' : Machine) c, m.execute limits s = (.ok c, m') → c = .normal)
    (m : Machine) :
    m.completed limits p = p ↔ (m.runProgram limits p).1 = .ok () := by
  induction p generalizing m with
  | nil => exact iff_of_true rfl rfl
  | cons s rest ih =>
    have ih := ih fun s' hs' => hnormal s' (List.mem_cons_of_mem _ hs')
    have hs := hnormal s List.mem_cons_self m
    rw [runProgram_cons]
    unfold completed
    match hstep : m.execute limits s with
    | (.ok (.giveBack v), m') => cases hs _ _ hstep
    | (.ok .leave, m') => cases hs _ _ hstep
    | (.ok .normal, m') => simpa using ih m'
    | (.error e, m') => simp

end Machine

namespace Session

/-- **A session, whatever has been run in it**: since its beginning its machine has taken a
course. -/
def Underway (s : Session) : Prop := ∃ clock, (Machine.initial clock).Course s.machine

variable {s : Session}

/-- Every session that comes about by batches and lines is one. -/
theorem Arises.underway (h : s.Arises) : s.Underway := by
  refine h.invariant (P := fun m => ∃ clock, (Machine.initial clock).Course m)
    (fun clock => ⟨clock, .done _⟩) ?_ ?_
  · rintro m text ⟨clock, hm⟩
    exact ⟨clock, hm.trans (.single (.print m text))⟩
  · rintro m limits p _ ⟨clock, hm⟩
    exact ⟨clock, hm.trans (Machine.courses_runAll limits.turns limits.room p m)⟩

/-- Between batches, the global frame is the current one. -/
theorem Underway.current (h : s.Underway) : s.machine.current = globalFrame := by
  obtain ⟨clock, h⟩ := h
  exact h.current

theorem Underway.globals_exist (h : s.Underway) : 0 < s.machine.frames.frames.size := by
  obtain ⟨clock, h⟩ := h
  exact Nat.lt_of_lt_of_le Nat.zero_lt_one h.contains.1

/-- **Only top-level declarations make globals.**  Behind a batch that compiles, however it ended,
the global names are those from before and those of the top-level declarations that completed;
and all statements completed exactly if the batch ended normally.  Expressions, calls, statements
that declare nothing and whatever is executed in another frame than the global one leave the
global names as they were, in any machine and however they end. -/
theorem Underway.globals_interpret (hs : s.Underway) {limits : Limits} (hroom : 5 ≤ limits.room)
    {source : String} {p : Program} (hp : CompilesTo limits source p) :
    (let q := (p.resolve limits.room).result
      let s' := (s.interpret limits q).2
      (∀ x, s'.machine.globals.contains x ↔
        s.machine.globals.contains x ∨ x ∈ Stmt.declaredNames (s.machine.completed limits q)) ∧
      s.machine.completed limits q <+: q ∧
      (s.machine.completed limits q = q ↔ (s.machine.runProgram limits q).1 = .ok ())) ∧
    ∀ (m : Machine) (turns room : Nat), 0 < m.frames.frames.size →
      (∀ e, m.SameGlobals (m.after (Machine.eval turns room e)).2) ∧
      (∀ v vs, m.SameGlobals (m.after (Machine.call turns room v vs)).2) ∧
      ∀ stmt : Stmt, stmt.Shaped → stmt.isDeclaration = false ∨ m.current ≠ globalFrame →
        m.SameGlobals (m.after (Machine.exec turns room stmt)).2 := by
  have hbare := (Program.resolve_settled hp.shaped hp.scopes).1
  refine ⟨⟨fun x => ?_, Machine.completed_prefix .., Machine.completed_eq_iff _ ?_ _⟩, ?_⟩
  · have hshaped : Stmt.AllShaped (p.resolve limits.room).result := by
      rw [← Stmt.allShaped_bareAll, hbare, Stmt.allShaped_bareAll]
      exact hp.shaped
    have hgains := Machine.gains_runProgram hroom hshaped (m := s.machine) (by
      rw [hs.current]
      exact hs.globals_exist)
    rw [interpret_machine]
    have hx := hgains.contains globalFrame hs.globals_exist x
    rwa [and_iff_right hs.current.symm] at hx
  · intro stmt hstmt m m' c hstep
    unfold Machine.execute Machine.after at hstep
    cases hexec : Machine.exec limits.turns limits.room stmt m with
    | ok c' m₁ =>
      rw [hexec] at hstep
      cases hstep
      exact (hp.fitsIn stmt hstmt).normal hexec
    | error e m₁ =>
      rw [hexec] at hstep
      cases hstep
  · intro m turns room hm
    have hquiet := Machine.quietAt turns room
    refine ⟨fun e => (hquiet.eval e m).sameGlobals hm,
      fun v vs => (hquiet.call v vs m).sameGlobals hm, fun stmt hshaped hstmt => ?_⟩
    rcases hstmt with hstmt | hstmt
    · exact (hquiet.exec stmt hshaped hstmt m).sameGlobals hm
    · have hcourse := (Machine.coursesAt turns room).exec stmt m
      exact fun x => hcourse.contains.2 globalFrame hm (Ne.symm hstmt) x

/-- Declarations at the top level, in a function that is called and in a block, and a failure. -/
def halfway : String :=
  "var a; fun f() \x7b var b; a = 1; \x7d f(); class C \x7b \x7d \x7b var d; \x7d var e = -nil; var g;"

/-- Of the declarations, those at the top level in front of the failure make globals. -/
theorem Underway.globals_interpret_halfway :
    let s := Session.new fun _ => 0
    s.Underway ∧ ∃ p, CompilesTo ⟨100, 10⟩ halfway p ∧
      (∀ x, (s.interpret ⟨100, 10⟩ (p.resolve 100).result).2.machine.globals.contains x ↔
        s.machine.globals.contains x ∨
          x ∈ Stmt.declaredNames (s.machine.completed ⟨100, 10⟩ (p.resolve 100).result)) ∧
      Stmt.declaredNames (s.machine.completed ⟨100, 10⟩ (p.resolve 100).result) =
        ["a", "f", "C"] := by
  intro s
  have hs : s.Underway := ⟨fun _ => 0, .done _⟩
  obtain ⟨p, hp⟩ : Compiles ⟨100, 10⟩ halfway :=
    compiles_of_diagnostics (by decide +kernel) (by decide +kernel) (by decide +kernel)
  refine ⟨hs, p, hp, (hs.globals_interpret (by decide) hp).1.1, ?_⟩
  rw [show p = (Program.ofTokens 100 (scan halfway).tokens).result by rw [hp.program]]
  decide +kernel

end Session
end LoxKit
