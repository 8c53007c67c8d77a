import LoxKit.Token

/-!
# Diagnostics

A diagnostic is one reported problem: found before the program runs, with a hint at
the place, or while it runs, with a line alone.  A `Reporter` keeps the diagnostics of
the current batch in order, and the text it has shown of them; whether a problem of
either sort has been seen is read off the diagnostics themselves.
-/
namespace LoxKit

/-- **One reported problem.** -/
structure Diagnostic where
  /-- The line reported. -/
  line : Int
  /-- A hint at the place within the line, empty or beginning with a blank. -/
  site : String
  /-- What is wrong. -/
  message : String
  /-- Whether the problem arose while the program ran. -/
  runtime : Bool
  deriving DecidableEq, Inhabited

namespace Diagnostic

/-- A problem of a line, found before the program runs. -/
def atLine (line : Int) (message : String) : Diagnostic := ⟨line, "", message, false⟩

/-- The hint that names a token. -/
def siteOf (t : Token) : String :=
  if t.isEnd then " at end" else s!" at '{t.lexeme}'"

/-- A problem of a token, found before the program runs. -/
def atToken (t : Token) (message : String) : Diagnostic :=
  ⟨t.line, siteOf t, message, false⟩

/-- A problem that ended a run. -/
def ofRun (line : Int) (message : String) : Diagnostic := ⟨line, "", message, true⟩

/-- What is wrong and where within its line, without the line itself. -/
def headline (d : Diagnostic) : String := s!"Error{d.site}: {d.message}"

/-- The form in which a diagnostic is shown. -/
def render (d : Diagnostic) : String :=
  if d.runtime then s!"{d.message}\n[line {d.line}]" else s!"[line {d.line}] {d.headline}"

end Diagnostic

/-- **The sink of diagnostics.** -/
structure Reporter where
  /-- Whether diagnostics are shown as they arrive. -/
  echo : Bool := true
  /-- The diagnostics since the last `reset`, in the order of their reports. -/
  diagnostics : List Diagnostic := []
  /-- All text shown so far; a `reset` does not unsay it. -/
  transcript : String := ""
  deriving Inhabited

namespace Reporter

/-- Keeps a diagnostic, and shows it on a line of its own if the reporter echoes. -/
def report (r : Reporter) (d : Diagnostic) : Reporter :=
  { r with
    diagnostics := r.diagnostics ++ [d]
    transcript := if r.echo then r.transcript ++ d.render ++ "\n" else r.transcript }

/-- Keeps several diagnostics in their order. -/
def reportAll (r : Reporter) (ds : List Diagnostic) : Reporter := ds.foldl report r

/-- Forgets the diagnostics of the batch that is over. -/
def reset (r : Reporter) : Reporter := { r with diagnostics := [] }

/-- Some problem was found before the program ran. -/
def hadError (r : Reporter) : Bool := r.diagnostics.any (!·.runtime)

/-- Some problem arose while the program ran. -/
def hadRuntimeError (r : Reporter) : Bool := r.diagnostics.any (·.runtime)

/-- The stored diagnostics as they are shown. -/
def messages (r : Reporter) : List String := r.diagnostics.map (·.render)

@[simp] theorem diagnostics_report (r : Reporter) (d : Diagnostic) :
    (r.report d).diagnostics = r.diagnostics ++ [d] := rfl

@[simp] theorem diagnostics_reset (r : Reporter) : r.reset.diagnostics = [] := rfl

@[simp] theorem diagnostics_reportAll (r : Reporter) (ds : List Diagnostic) :
    (r.reportAll ds).diagnostics = r.diagnostics ++ ds := by
  induction ds generalizing r with
  | nil => simp [reportAll]
  | cons d ds ih =>
    have h : r.reportAll (d :: ds) = (r.report d).reportAll ds := rfl
    rw [h, ih]
    simp

end Reporter
end LoxKit
