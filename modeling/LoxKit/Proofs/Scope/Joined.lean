import LoxKit.Proofs.Scope.Returns
import LoxKit.Proofs.Scope.Unlined

/-!
# Resolving two programs one behind the other

When resolution is through with a program in which it finds nothing wrong, it stands where it
began: outside of all scopes, functions and classes.  So statements behind the program are
resolved as they are by themselves (`Program.resolve_append`).
-/
namespace LoxKit

open Scope

/-- Declarations in global code enter no scope. -/
theorem Stmt.declareAll_global (ss : List Stmt) : Stmt.declareAll ss [] = [] := by
  induction ss with
  | nil => rfl
  | cons s ss ih =>
    have hs : s.declare [] = [] := by cases s <;> rfl
    rw [Stmt.declareAll_cons, hs, ih]

namespace Scope

/-- **Resolution is outside** of everything, and has nothing to report. -/
structure Walk.Outside (w : Walk) : Prop where
  scopes : w.scopes = []
  function : w.function = .none
  classContext : w.classContext = .none
  diagnostics : w.diagnostics = []

/-- Behind a program that resolution accepts, it is outside of everything. -/
theorem Walk.Outside.behind {p p' : Program} {room : Nat} {w w' : Walk} (h : w.Outside)
    (hp : Stmt.AllShaped p) (hrun : p.mapM (topLevel room) w = .ok p' w')
    (hclean : w'.diagnostics = []) : w'.Outside := by
  have hsettled := clean_mapM_stmt (clean_topLevel room) p w
  have hstays := stays_topLevel room p w
  unfold Clean at hsettled hstays
  rw [hrun] at hsettled hstays
  have hquiet : w'.diagnostics = w.diagnostics := hclean.trans h.diagnostics.symm
  have hnoted := (hsettled.2 hquiet).2 [] ⟨h.scopes, h.classContext⟩ .global
    (fun _ hl => nomatch hl) hp
  refine ⟨?_, (hstays.2 hquiet).1.trans h.function,
    hnoted.classContext.trans h.classContext, hclean⟩
  rw [hnoted.scopes, Stmt.declareAll_global]
  rfl

/-- Where resolution is outside, only what it has noted tells it from the beginning. -/
theorem Walk.Outside.unlinedBehind {w : Walk} (h : w.Outside) :
    Walk.unlinedBehind (Walk.unlinedBehind {} w) {} = Walk.unlinedBehind {} w := by
  obtain ⟨hscopes, hfunction, hclass, hdiagnostics⟩ := h
  simp [Walk.unlinedBehind, hscopes, hfunction, hclass, hdiagnostics]

end Scope

/-- **A program behind another one** that resolution accepts is resolved as it is by itself, on
whatever lines it stands. -/
theorem Program.resolve_append {p q q' : Program} {room : Nat} (hp : Stmt.AllShaped p)
    (hclean : (p.resolve room).diagnostics = [])
    (hq : Stmt.unlinedAll q' = Stmt.unlinedAll q) :
    (((p ++ q').resolve room).diagnostics.map Diagnostic.unlined =
      (q.resolve room).diagnostics.map Diagnostic.unlined) ∧
    ∃ r, ((p ++ q').resolve room).result = (p.resolve room).result ++ r ∧
      Stmt.unlinedAll r = Stmt.unlinedAll (q.resolve room).result := by
  obtain ⟨p₁, w₁, hp₁⟩ := mapM_topLevel_ok room p {}
  obtain ⟨q₁, w₂, hq₁⟩ := mapM_topLevel_ok room q {}
  obtain ⟨r, w₃, hr⟩ := mapM_topLevel_ok room q' w₁
  have happend : (p ++ q').mapM (topLevel room) {} = .ok (p₁ ++ r) w₃ := by
    rw [List.mapM_append]
    simp only [Bind.bind, EStateM.bind, hp₁, hr]
    rfl
  unfold Program.resolve Resolution.of at hclean ⊢
  rw [hp₁] at hclean ⊢
  rw [hq₁, happend]
  have houtside : w₁.Outside := Walk.Outside.behind ⟨rfl, rfl, rfl, rfl⟩ hp hp₁ hclean
  -- without lines, both runs begin in the same state, but for what was noted before
  have hbehind := unlines_topLevel {} room q' w₁
  have hitself := unlines_topLevel (Walk.unlinedBehind {} w₁) room q {}
  rw [hr] at hbehind
  rw [hq₁] at hitself
  rw [hq] at hbehind
  have hstart : (unliningBehind (Walk.unlinedBehind {} w₁)).state {} =
      (unliningBehind {}).state w₁ := houtside.unlinedBehind
  rw [hstart] at hitself
  obtain ⟨hr', hw⟩ := EStateM.Result.ok.inj (hbehind.symm.trans hitself)
  have hdiagnostics := congrArg Walk.diagnostics hw
  refine ⟨?_, r, rfl, hr'⟩
  simpa [unliningBehind, Walk.unlinedBehind, houtside.diagnostics] using hdiagnostics

end LoxKit
