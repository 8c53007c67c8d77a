import LoxKit.CommandLine

/-!
# The executable

Reads what the command line asks for, and prints what the library answers.  Nothing is
decided here.
-/
namespace LoxKit
namespace Main

/-- Shows what a session has printed and reported since it was shown last. -/
def flush (s : Session) : IO Session := do
  IO.print s.machine.output
  (← IO.getStdout).flush
  IO.eprint s.reporter.transcript
  return { s with
    machine := { s.machine with output := "" }
    reporter := { s.reporter with transcript := "" } }

/-- Shows why the program ends without an exit code of its own. -/
def complain (script : String) : CommandLine.Escape → IO UInt32
  | .file fault => do
    IO.eprintln ((fault.systemMessage? script).getD "The script cannot be read as text.")
    return 1
  | .failure cause => do
    match cause with
    | .breach b => IO.eprintln (b.message?.getD "A name was not resolved.")
    | _ => IO.eprintln "The run was given up."
    return 1

/-- Converses at the prompt until the end of the input. -/
partial def converse (limits : Limits) (list : Bool) (s : Session) : IO UInt32 := do
  let s ← flush (s.write Prompt.mark)
  let line ← (← IO.getStdin).getLine
  if line.isEmpty then
    let _ ← flush (s.write Prompt.Ending.endOfInput.farewell)
    return 0
  else
    let (outcome, s) := Prompt.take limits list s (line.dropEndWhile (· == '\n')).toString
    let s ← flush s
    match outcome with
    | .ok true => converse limits list s
    | .ok false => return 0
    | .error e => complain "" (.failure e)

/-- Reads a script. -/
def readScript (path : String) : IO (Except FileFault String) := do
  try
    return decodeFile (← IO.FS.readBinFile path)
  catch
    | .noFileOrDirectory .. => return .error .missing
    | .permissionDenied .. => return .error .locked
    | _ => return .error .directory

end Main
end LoxKit

open LoxKit in
/-- Runs the command line. -/
def main (args : List String) : IO UInt32 := do
  let list := !((← IO.getEnv "LOXDEBUG").getD "").isEmpty
  let start := (← IO.monoNanosNow).toFloat / 1000000000.0
  let clock (reading : Nat) : Float := start + reading.toFloat / 1000000.0
  match CommandLine.Request.ofArguments args with
  | .converse =>
    Main.converse .standard list ((Session.new clock).write Prompt.greeting)
  | request =>
    let script ←
      match request with
      | .runScript path => Main.readScript path
      | _ => pure (.error .missing)
    let r := CommandLine.run .standard list clock args (fun _ => script) [] .endOfInput
    IO.print r.stdout
    IO.eprint r.stderr
    match r.exit with
    | .ok code => return code.toUInt32
    | .error e => Main.complain (args.headD "") e
