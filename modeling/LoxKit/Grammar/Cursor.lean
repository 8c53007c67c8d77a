import LoxKit.Diagnostic

/-!
# Reading a token list

The grammar is read by a cursor that moves over a token list from left to right and never
back, and never past the closing token.  Reading may be cut off for two reasons: a syntax
error, which the cursor has recorded by then and from which the enclosing declaration
recovers, or too deep a nesting, which abandons the whole top-level declaration.

`resume` says where reading goes on after a syntax error.  The token at which the error was
found is given up in any case; then reading resumes behind the first semicolon or in front
of the first keyword that starts a statement, whichever comes first.
-/
namespace LoxKit
namespace Grammar

/-- **What can be wrong** with a token list. -/
inductive Fault where
  /-- Something other than what is named stands here. -/
  | expected (what : String)
  /-- The left side of `=` cannot be assigned to. -/
  | invalidTarget
  /-- A list is longer than `listLimit`. -/
  | tooMany (what : String)
  /-- A `break` that no loop encloses. -/
  | strayBreak
  | tooDeep
  deriving DecidableEq

/-- The greatest number of parameters of a function, and of arguments of a call. -/
def listLimit : Nat := 255

/-- The wording of each fault. -/
def Fault.message : Fault → String
  | expected what => s!"Expect {what}."
  | invalidTarget => "Invalid assignment target."
  | tooMany what => s!"Can't have more than {listLimit} {what}."
  | strayBreak => "Can't use 'break' outside of a loop."
  | tooDeep => "Expression nests too deeply."

/-- Why reading was cut off. -/
inductive Halt where
  /-- By a syntax error, already recorded. -/
  | fault
  /-- Because no room for deeper nesting was left. -/
  | tooDeep
  deriving DecidableEq

/-- **The state of reading.** -/
structure Cursor where
  /-- The tokens not yet consumed, the closing one last. -/
  rest : List Token
  /-- The number of loops around the current place within its function body. -/
  loops : Nat := 0
  /-- What has been found wrong so far. -/
  diagnostics : List Diagnostic := []

/-- A step of reading: it moves the cursor, and yields a value or is cut off. -/
abbrev Reader := EStateM Halt Cursor

namespace Cursor

/-- The token about to be consumed. -/
def current (c : Cursor) : Token := c.rest.headD (.endAt 0)

/-- Whether nothing but the closing token is left. -/
def atEnd (c : Cursor) : Bool := c.current.isEnd

/-- Moves over one token, unless it is the closing one. -/
def advance (c : Cursor) : Cursor := if c.atEnd then c else { c with rest := c.rest.tail }

/-- Records a fault at a token. -/
def blame (c : Cursor) (t : Token) (f : Fault) : Cursor :=
  { c with diagnostics := c.diagnostics ++ [.atToken t f.message] }

end Cursor

/-- The spare room that looking at a token and moving over it needs. -/
def lookRoom : Nat := 4

/-- Goes on only if there is room to look at a token. -/
def need (room : Nat) : Reader Unit :=
  if room < lookRoom then throw .tooDeep else return

/-- The token about to be consumed. -/
def current : Reader Token := return (← get).current

/-- Whether nothing but the closing token is left. -/
def atEnd : Reader Bool := return (← get).atEnd

/-- Whether the token about to be consumed is of the given kind. -/
def check (kind : TokenKind) : Reader Bool := do
  let c ← get
  return !c.atEnd && c.current.kind == kind

/-- Consumes the current token if its kind is as wanted. -/
def accept? (wanted : TokenKind → Bool) : Reader (Option Token) := do
  let c ← get
  if !c.atEnd && wanted c.current.kind then
    set c.advance
    return some c.current
  else return none

/-- Consumes the current token if it is of the given kind, and says whether it was. -/
def accept (kind : TokenKind) : Reader Bool := return (← accept? (· == kind)).isSome

/-- Records a fault at a token and goes on. -/
def blame (t : Token) (f : Fault) : Reader Unit := modify (·.blame t f)

/-- Records a fault at the current token and gives up. -/
def fail (f : Fault) : Reader α := do
  blame (← current) f
  throw .fault

/-- Consumes a token of the given kind; any other is a fault. -/
def expect (kind : TokenKind) (what : String) : Reader Token := do
  match ← accept? (· == kind) with
  | some t => return t
  | none => fail (.expected what)

/-- Reads on behind a token of the given kind, if one follows. -/
def behind? (kind : TokenKind) (p : Reader α) : Reader (Option α) := do
  if ← accept kind then return some (← p) else return none

/-- Reads on unless the current token is of the given kind. -/
def unless? (kind : TokenKind) (p : Reader α) : Reader (Option α) := do
  if ← check kind then return none else return some (← p)

/-- Reads with another count of enclosing loops.  The count before is back afterwards,
also when reading is cut off. -/
def withLoops (count : Nat → Nat) (p : Reader α) : Reader α := fun c =>
  match p { c with loops := count c.loops } with
  | .ok a d => .ok a { d with loops := c.loops }
  | .error e d => .error e { d with loops := c.loops }

/-- Where to resume, behind a given token. -/
def resumeBehind (previous : Token) : List Token → List Token
  | [] => []
  | t :: rest =>
    if t.isEnd || previous.kind == .semicolon || t.kind.startsStatement then t :: rest
    else resumeBehind t rest

/-- **Where to resume after a fault** at the first of these tokens. -/
def resume : List Token → List Token
  | [] => []
  | t :: rest => if t.isEnd then t :: rest else resumeBehind t rest

/-- Moves on to where reading resumes. -/
def Cursor.recover (c : Cursor) : Cursor := { c with rest := resume c.rest }

/-- Reads something that comes to nothing if a fault cuts it off, and then resumes. -/
def orResume (p : Reader α) : Reader (Option α) := fun c =>
  match p c with
  | .ok a d => .ok (some a) d
  | .error .fault d => .ok none d.recover
  | .error .tooDeep d => .error .tooDeep d

/-- Reads something that comes to nothing if it nests too deeply.  That is reported at the
token where reading gave up, behind which reading resumes. -/
def orGiveUp (p : Reader (Option α)) : Reader (Option α) := fun c =>
  match p c with
  | .error .tooDeep d => .ok none (d.blame d.current .tooDeep).recover
  | result => result

/-- Items separated by commas, at least one, behind those already read (the latest
first).  Every item above the limit is a fault, but is read all the same. -/
def commaList (what : String) (item : Reader α) : Nat → List α → Reader (List α)
  | 0, done => return done.reverse
  | n + 1, done => do
    if listLimit ≤ done.length then blame (← current) (.tooMany what)
    let x ← item
    if ← accept .comma then commaList what item n (x :: done)
    else return (x :: done).reverse

/-- Items up to a closing brace or the end of the input, which is left for the caller.
Items that came to nothing are left out. -/
def untilBrace (item : Reader (Option α)) : Nat → List α → Reader (List α)
  | 0, done => return done.reverse
  | n + 1, done => do
    if (← check .rightBrace) || (← atEnd) then return done.reverse
    else
      match ← item with
      | some x => untilBrace item n (x :: done)
      | none => untilBrace item n done

/-- **What reading a token list gives.** -/
structure Outcome (α : Type) where
  result : α
  diagnostics : List Diagnostic

end Grammar
end LoxKit
