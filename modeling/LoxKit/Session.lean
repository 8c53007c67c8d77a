import LoxKit.Machine.Eval
import LoxKit.Scan
import LoxKit.Scope.Resolution
import LoxKit.Tree.Display

/-!
# Sessions

A session is a machine with the reporter its problems go to.  Batches of source text are
given to it one after the other: a batch is scanned, read, resolved and run, and nothing of
it is resolved or run once a problem has been reported.  A run that fails by an error of the
program is reported too; any other failure is handed to the caller.

At a prompt a line may also be a bare expression, whose value is then printed.
-/
namespace LoxKit

/-- **A machine and the reporter of its problems.** -/
structure Session where
  machine : Machine
  reporter : Reporter := {}

/-- What a stage of a session leads to, with the session after it. -/
abbrev Session.Step (α : Type) := Except Failure α × Session

namespace Session

/-- A session that has seen nothing. -/
def new (clock : Nat → Float) (echo : Bool := true) : Session :=
  { machine := .initial clock, reporter := { echo } }

/-- Reports problems. -/
def report (s : Session) (ds : List Diagnostic) : Session :=
  { s with reporter := s.reporter.reportAll ds }

/-- Adds to the output. -/
def write (s : Session) (text : String) : Session := { s with machine := s.machine.write text }

/-- The diagnostic of a failure, for the failures that are reported. -/
def diagnostic? (m : Machine) : Failure → Option Diagnostic
  | .error place cause => some (.ofRun place.line cause.message)
  | .stackOverflow => some (.ofRun m.line "Stack overflow.")
  | .breach _ => none
  | .outOfTurns => none

/-- Runs a resolved program and reports the error that ends it, if one does. -/
def interpret (limits : Limits) (s : Session) (p : Program) : Step Unit :=
  let (outcome, m) := s.machine.runProgram limits p
  let s := { s with machine := m }
  match outcome with
  | .ok _ => (.ok (), s)
  | .error e =>
    match diagnostic? m e with
    | some d => (.ok (), s.report [d])
    | none => (.error e, s)

/-- Resolves a program and reports its static faults. -/
def resolve (limits : Limits) (s : Session) (p : Program) : Program × Session :=
  let r := p.resolve limits.room
  (r.result, s.report r.diagnostics)

/-- A token in listings. -/
def inspectToken (t : Token) : String :=
  let inspect (v : Literal) := (Value.ofLiteral v : Value FrameId).inspect
  let value := ((Literal.ofToken? t).map inspect).getD "None"
  s!"Token({t.kind.name}, {Text.quoted t.lexeme}, {value}, line={t.line})"

/-- The listing of a batch: its tokens, and its program as it was read. -/
def listing (tokens : List Token) (p : Program) : String :=
  "\nTokens:\n\n[" ++ ", ".intercalate (tokens.map inspectToken) ++ "]\n\nAST:\n\n" ++
    String.join (p.map (·.display ++ "\n")) ++ " \n"

/-- Scans and reads a source text, and reports what is wrong with it. -/
def read (limits : Limits) (s : Session) (source : String) : List Token × Program × Session :=
  let scanned := scan source
  let parsed := Program.ofTokens limits.room scanned.tokens
  (scanned.tokens, parsed.result, (s.report scanned.diagnostics).report parsed.diagnostics)

/-- **Runs a batch.**  Problems already in the reporter count like those of the batch
itself.  If asked to, it lists the batch first, whether or not anything is wrong. -/
def run (limits : Limits) (list : Bool) (s : Session) (source : String) : Step Unit :=
  let (tokens, p, s) := s.read limits source
  let s := if list then s.write (listing tokens p) else s
  if s.reporter.hadError then (.ok (), s)
  else
    let (p, s) := s.resolve limits p
    if s.reporter.hadError then (.ok (), s) else s.interpret limits p

/-- The single expression a source text is, if nothing is wrong with its tokens and it reads
as one. -/
def soleExpression? (limits : Limits) (source : String) : Option Expr :=
  let scanned := scan source
  if scanned.diagnostics.isEmpty then
    (Expr.ofTokens? limits.room scanned.tokens).result
  else none

/-- **Tries a source text as an expression** to be printed, and says whether it was one.  If
it was not, nothing has happened. -/
def runExpression (limits : Limits) (s : Session) (source : String) : Step Bool :=
  match soleExpression? limits source with
  | none => (.ok false, s)
  | some e =>
    let (p, s) := s.resolve limits [.print e]
    if s.reporter.hadError then (.ok true, s)
    else
      match s.interpret limits p with
      | (.ok _, s) => (.ok true, s)
      | (.error e, s) => (.error e, s)

/-- **Runs a line of a prompt**: as an expression if it is one, as a batch otherwise.  Says
which of the two it was. -/
def runLine (limits : Limits) (list : Bool) (s : Session) (source : String) : Step Bool :=
  match s.runExpression limits source with
  | (.ok false, s) =>
    match s.run limits list source with
    | (.ok _, s) => (.ok false, s)
    | (.error e, s) => (.error e, s)
  | other => other

/-- Forgets the reported problems. -/
def reset (s : Session) : Session := { s with reporter := s.reporter.reset }

/-- Runs a batch in spite of what is wrong with it. -/
def force (limits : Limits) (s : Session) (source : String) : Step Unit :=
  let (_, p, s) := s.read limits source
  let (p, s) := s.resolve limits p
  s.interpret limits p

/-- Executes statements one by one up to the first that fails, behind the completions of
those before (the latest first). -/
def executeEach (limits : Limits) (done : List (Completion FrameId)) (m : Machine) :
    Program → List (Completion FrameId) × Option Failure × Machine
  | [] => (done.reverse, none, m)
  | stmt :: rest =>
    match m.execute limits stmt with
    | (.ok c, m) => executeEach limits (c :: done) m rest
    | (.error e, m) => (done.reverse, some e, m)

/-- Executes the statements of a batch one by one, in spite of what is wrong with it, and
gives their completions.  A failure of any sort is handed to the caller. -/
def execute (limits : Limits) (s : Session) (source : String) :
    List (Completion FrameId) × Option Failure × Session :=
  let (_, p, s) := s.read limits source
  let (p, s) := s.resolve limits p
  let (done, failure, m) := executeEach limits [] s.machine p
  (done, failure, { s with machine := m })

/-- Evaluates a source text as an expression; no value if it does not read as one.  A failure
of any sort is handed to the caller. -/
def evaluate (limits : Limits) (s : Session) (source : String) : Step (Option (Value FrameId)) :=
  let scanned := scan source
  let parsed := Expr.ofTokens? limits.room scanned.tokens
  let s := (s.report scanned.diagnostics).report parsed.diagnostics
  match parsed.result with
  | none => (.ok none, s)
  | some e =>
    let r := e.resolve limits.room
    let s := s.report r.diagnostics
    match s.machine.evaluate limits r.result with
    | (.ok v, m) => (.ok (some v), { s with machine := m })
    | (.error e, m) => (.error e, { s with machine := m })

/-- The global names in alphabetical order, with their values as they print. -/
def globals (s : Session) : List (String × String) :=
  let entries := s.machine.globals.entries.map fun e => (e.1, e.2.render)
  entries.mergeSort fun a b => a.1 ≤ b.1

end Session
end LoxKit
