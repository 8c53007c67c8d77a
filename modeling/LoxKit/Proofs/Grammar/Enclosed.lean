import LoxKit.Proofs.Grammar.Joined
import LoxKit.Proofs.Tree.Exits

/-!
# Reading accepts a break only inside a loop

Reading counts the loops around a place, and begins anew in the body of a function.  So where a
passage is written, a `break` leaves it only if there is a loop around it, and its functions are
enclosed (`Passage.Written.contained`).
-/
namespace LoxKit
namespace Grammar

/-- **What a passage lets out**, inside so many loops. -/
def Passage.Contained (l : Nat) : Passage → Prop
  | .statement s _ | .declaration s _ => s.Enclosed ∧ (s.Exits .leave → 0 < l)
  | .declarations ss | .body ss => Stmt.AllEnclosed ss ∧ (Stmt.AnyExits .leave ss → 0 < l)
  | .function d => d.Enclosed
  | .methods ds => FunDecl.AllEnclosed ds

/-- The first clause of a `for` statement lets nothing out. -/
theorem FirstWritten.contained {room : Nat} {s : Stmt} {ts : List Token}
    (h : FirstWritten room (some s) ts) : s.Enclosed ∧ ¬s.Exits .leave := by
  cases h with
  | var _ hs =>
    cases hs
    exact ⟨trivial, id⟩
  | expression => exact ⟨trivial, id⟩

/-- A loop with its clauses lets no `break` out. -/
theorem forLoop_contained {initial : Option Stmt} {body : Stmt} (test increment : Option Expr)
    (hinitial : ∀ s ∈ initial, s.Enclosed ∧ ¬s.Exits .leave) (hbody : body.Enclosed) :
    (Stmt.forLoop initial test increment body).Enclosed ∧
      ¬(Stmt.forLoop initial test increment body).Exits .leave := by
  cases initial with
  | none =>
    cases increment <;> simp_all [Stmt.forLoop, Stmt.Enclosed, Stmt.AllEnclosed, Stmt.Exits]
  | some s =>
    obtain ⟨henclosed, hexits⟩ := hinitial s rfl
    cases increment <;>
      simp_all [Stmt.forLoop, Stmt.Enclosed, Stmt.AllEnclosed, Stmt.Exits, Stmt.AnyExits]

/-- **A `break` that is read stands inside a loop** of the function around it. -/
theorem Passage.Written.contained {φ : Passage} {l room : Nat} {ts : List Token}
    (h : φ.Written l room ts) : φ.Contained l := by
  induction h with
  | expression | print | giveBack => exact ⟨trivial, nofun⟩
  | leave _ hl => exact ⟨trivial, fun _ => hl⟩
  | loop _ _ _ _ _ ih => exact ⟨ih.1, fun h => absurd rfl h.1⟩
  | branch _ _ _ _ _ ih => exact ih
  | branchElse _ _ _ _ _ _ _ ihy ihn => exact ⟨⟨ihy.1, ihn.1⟩, Or.rec ihy.2 ihn.2⟩
  | @forLoop initial test increment _ _ _ _ _ _ _ _ _ _ _ _ _ _ hfirst _ _ _ _ _ ih =>
    have hinitial : ∀ s ∈ initial, s.Enclosed ∧ ¬s.Exits .leave := by
      rintro s rfl
      exact hfirst.contained
    obtain ⟨henclosed, hexits⟩ := forLoop_contained test increment hinitial ih.1
    exact ⟨henclosed, fun h => absurd h hexits⟩
  | block _ _ ih | ofStatement _ ih | body _ _ _ ih => exact ih
  | var _ hs =>
    cases hs
    exact ⟨trivial, nofun⟩
  | function _ _ ih | classDecl _ _ _ _ _ _ _ ih => exact ⟨ih, nofun⟩
  | noDeclarations => exact ⟨trivial, nofun⟩
  | moreDeclarations _ _ ihs ihss => exact ⟨⟨ihs.1, ihss.1⟩, Or.rec ihs.2 ihss.2⟩
  | functionDecl _ _ _ _ _ _ ih => exact ⟨fun h => absurd (ih.2 h) (Nat.lt_irrefl 0), ih.1⟩
  | noMethods => trivial
  | moreMethods _ _ ihd ihds => exact ⟨ihd, ihds⟩

end Grammar

/-- **What is read without a fault is enclosed**, and no `break` leaves it. -/
theorem Program.enclosed_of_ofTokens {room : Nat} {p : Program} {source : String}
    (h : Program.ofTokens room (scan source).tokens = ⟨p, []⟩) :
    Stmt.AllEnclosed p ∧ ¬Stmt.AnyExits .leave p := by
  obtain ⟨henclosed, hexits⟩ := ((Program.ofTokens_scan_iff source).mp h).contained
  exact ⟨henclosed, fun h => absurd (hexits h) (Nat.lt_irrefl 0)⟩

end LoxKit
