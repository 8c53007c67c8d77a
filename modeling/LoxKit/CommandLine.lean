import LoxKit.Files
import LoxKit.Prompt

/-!
# The command line

Without arguments the program converses at a prompt; with one it runs the script of that
name, or explains itself; with more it explains itself and fails.  The exit code tells
whether the script was rejected, failed, or ran to its end.
-/
namespace LoxKit
namespace CommandLine

/-- The exit code after arguments that make no sense. -/
def usageCode : Nat := 64

/-- The exit code after a script that was rejected before it ran. -/
def rejectedCode : Nat := 65

/-- The exit code after a script that failed while it ran. -/
def failedCode : Nat := 70

/-- What the arguments ask for. -/
inductive Request where
  | converse
  | runScript (path : String)
  | explain
  | misuse
  deriving DecidableEq

/-- Reads the arguments. -/
def Request.ofArguments : List String → Request
  | [] => converse
  | [arg] => if arg = "-h" ∨ arg = "--help" then explain else runScript arg
  | _ => misuse

/-- How the program explains itself. -/
def usage : String :=
  "\nLox Language Interpreter\n\nUsage:\n    lox [script.lox]\n\nArguments:\n" ++
  "    <script.lox>\n        Path to a Lox source file to execute.\n\nExample:\n" ++
  "    lox hello.lox\n\nOr run with no arguments to enter interactive mode (REPL).\n\n" ++
  "Environment:\n    LOXDEBUG\n        When set, print the tokens and AST before running.\n"

/-- The exit code that tells what was reported. -/
def exitCode (r : Reporter) : Nat :=
  if r.hadError then rejectedCode else if r.hadRuntimeError then failedCode else 0

/-- **Runs a script.** -/
def runScript (limits : Limits) (list : Bool) (s : Session) (source : String) :
    Session.Step Nat :=
  match s.run limits list source with
  | (.ok _, s) => (.ok (exitCode s.reporter), s)
  | (.error e, s) => (.error e, s)

/-- Why the program ends without an exit code of its own. -/
inductive Escape where
  | file (fault : FileFault)
  | failure (cause : Failure)

/-- **What the program leaves behind.** -/
structure Result where
  exit : Except Escape Nat
  stdout : String
  stderr : String

/-- What a session leaves behind. -/
def Result.of : Session.Step Nat → Result
  | (.ok code, s) => ⟨.ok code, s.machine.output, s.reporter.transcript⟩
  | (.error e, s) => ⟨.error (.failure e), s.machine.output, s.reporter.transcript⟩

/-- **The whole program**, given its arguments, the files it can find, the lines that will be
typed and how they end. -/
def run (limits : Limits) (list : Bool) (clock : Nat → Float) (args : List String)
    (read : String → Except FileFault String) (lines : List String)
    (ending : Prompt.Ending) : Result :=
  let s := Session.new clock
  match Request.ofArguments args with
  | .explain => ⟨.ok 0, usage, ""⟩
  | .misuse => ⟨.ok usageCode, usage, ""⟩
  | .runScript path =>
    match read path with
    | .ok source => .of (runScript limits list s source)
    | .error fault => ⟨.error (.file fault), "", ""⟩
  | .converse =>
    match Prompt.converse limits list s lines ending with
    | (.ok _, s) => .of (.ok 0, s)
    | (.error e, s) => .of (.error e, s)

end CommandLine
end LoxKit
