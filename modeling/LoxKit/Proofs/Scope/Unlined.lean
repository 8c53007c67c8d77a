import LoxKit.Proofs.Scope.Moved

/-!
# Resolution does not look at line numbers

A program on other lines is resolved as it is by itself, on other lines.  Where all lines are told
as one, this says that resolution is the same up to the lines, also behind another program
(`Scope.unlines_topLevel`).
-/
namespace LoxKit

/-- A diagnostic without its line. -/
def Diagnostic.unlined (d : Diagnostic) : Diagnostic := { d with line := 0 }

namespace Scope

/-- An annotation without the line of its name. -/
def Annotation.unlined (a : Annotation) : Annotation := { a with name := a.name.unlined }

/-- **The state of resolution without lines**, behind what was noted before. -/
def Walk.unlinedBehind (before w : Walk) : Walk :=
  { w with
    line := 0
    annotations := before.annotations ++ w.annotations.map Annotation.unlined
    diagnostics := before.diagnostics ++ w.diagnostics.map Diagnostic.unlined }

/-- Lines are erased from resolution, and something was noted before. -/
def unliningBehind (before : Walk) : Erasure Halt Walk := ⟨id, before.unlinedBehind⟩

/-- **A step of resolution without its lines.** -/
abbrev Unlines {α β : Type} (before : Walk) (f : α → β) (x : Resolving α) (y : Resolving β) :
    Prop := Erases (unliningBehind before) f x y

/-- **A program is resolved without a look at lines**, or at what was noted before it. -/
theorem unlines_topLevel (before : Walk) (room : Nat) (p : Program) :
    Unlines before Stmt.unlinedAll (p.mapM (topLevel room))
      ((Stmt.unlinedAll p).mapM (topLevel room)) := by
  have h := moves_topLevel (fun _ => 0) before room p
  rwa [funext Stmt.movedAll_zero] at h

end Scope
end LoxKit
