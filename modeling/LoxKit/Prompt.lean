import LoxKit.Session
import LoxKit.Text.Blank

/-!
# The prompt

A conversation line by line.  Each line is run as soon as it is given, and what was wrong
with it is forgotten before the next.  A line that is blank is passed over, and one that says
to leave ends the conversation, as does the end of the input.
-/
namespace LoxKit
namespace Prompt

/-- What the conversation opens with. -/
def greeting : String :=
  "Lox Language Interpreter - REPL\nType `exit` or `quit` to leave.\n"

/-- What asks for a line. -/
def mark : String := "> "

/-- The words that end the conversation. -/
def leaveWords : List String := ["exit", "quit"]

/-- How the input ends when no line asks to leave. -/
inductive Ending where
  | endOfInput
  | interrupt
  deriving DecidableEq

/-- What is said at the end of the input. -/
def Ending.farewell : Ending → String
  | endOfInput => "\n"
  | interrupt => "\nInterrupted.\n"

/-- **Takes a line**, and says whether the conversation goes on. -/
def take (limits : Limits) (list : Bool) (s : Session) (line : String) : Session.Step Bool :=
  let word := Text.trim line
  if leaveWords.contains word then (.ok false, s)
  else if word.isEmpty then (.ok true, s)
  else
    match s.runLine limits list line with
    | (.ok _, s) => (.ok true, s.reset)
    | (.error e, s) => (.error e, s)

/-- Takes lines, asking for each, up to one that asks to leave or to the end of the input. -/
def takeAll (limits : Limits) (list : Bool) (ending : Ending) (s : Session) :
    List String → Session.Step Unit
  | [] => (.ok (), s.write (mark ++ ending.farewell))
  | line :: rest =>
    match take limits list (s.write mark) line with
    | (.ok true, s) => takeAll limits list ending s rest
    | (.ok false, s) => (.ok (), s)
    | (.error e, s) => (.error e, s)

/-- **A whole conversation.** -/
def converse (limits : Limits) (list : Bool) (s : Session) (lines : List String)
    (ending : Ending) : Session.Step Unit :=
  takeAll limits list ending (s.write greeting) lines

end Prompt
end LoxKit
