import LoxKit.Grammar.Expression

/-!
# The grammar of statements

    program     = { declaration }
    declaration = "class" class | "fun" function | "var" variable | statement
    class       = IDENTIFIER [ "<" IDENTIFIER ] "{" { function } "}"
    function    = IDENTIFIER "(" [ IDENTIFIER { "," IDENTIFIER } ] ")" "{" block
    variable    = IDENTIFIER [ "=" conditional ] ";"
    statement   = "break" ";" | "for" for | "if" if | "print" expression ";"
                | "return" [ expression ] ";" | "while" while | "{" block
                | expression ";"
    block       = { declaration } "}"
    for         = "(" ( ";" | "var" variable | expression ";" ) [ expression ] ";"
                  [ expression ] ")" statement
    if          = "(" expression ")" statement [ "else" statement ]
    while       = "(" expression ")" statement

A declaration that is cut off by a fault comes to nothing, and reading resumes behind it.
A `for` statement is read as the `while` loop and the blocks it stands for
(`Stmt.forLoop`).

The rules `declaration`, `function`, `statement` and `block` take two units of room each.
The rules `class` and `variable`, each form of a statement that is no block, and the body of
a loop take one.  What is left is given on to the rules inside.
-/
namespace LoxKit

/-- **The loop a `for` statement stands for.**  The increment runs after the body, in a
block with it; the initializer runs once, in a block around the loop; without a condition
the loop runs on. -/
def Stmt.forLoop (initial : Option Stmt) (test increment : Option Expr) (body : Stmt) : Stmt :=
  let turn :=
    match increment with
    | some e => .block [body, .expression e]
    | none => body
  let loop := .loop (test.getD (.literal (.bool true))) turn
  match initial with
  | some s => .block [s, loop]
  | none => loop

namespace Grammar

/-- The two uses of the function rule, as its faults name them. -/
inductive FunctionKind where
  | function | method

/-- How faults name a use of the function rule. -/
def FunctionKind.name : FunctionKind → String
  | function => "function"
  | method => "method"

/-- A variable declaration, behind `var`. -/
def variableDecl (width room : Nat) : Reader Stmt := do
  need room
  let name ← expect .identifier "variable name"
  let initial ← behind? .equal (conditional width room)
  let _ ← expect .semicolon "';' after variable declaration"
  return .var name initial

/-- An expression evaluated for its effects. -/
def expressionStatement (width room : Nat) : Reader Stmt := do
  let e ← expression width room
  let _ ← expect .semicolon "';' after expression"
  return .expression e

/-- The first clause of a `for` statement, with its semicolon. -/
def forInitial (width room : Nat) : Reader (Option Stmt) := do
  if ← accept .semicolon then return none
  else if ← accept .varWord then return some (← variableDecl width room)
  else return some (← expressionStatement width room)

/-- A function from its name on, with a given reader for the statements of its body, which
no loop around the function encloses. -/
def functionDecl (width room : Nat) (kind : FunctionKind) (body : Reader (List Stmt)) :
    Reader FunDecl := do
  need room
  let name ← expect .identifier s!"{kind.name} name"
  let _ ← expect .leftParen s!"'(' after {kind.name} name"
  let params ← unless? .rightParen
    (commaList "parameters" (expect .identifier "parameter name") width [])
  let _ ← expect .rightParen "')' after parameters"
  let _ ← expect .leftBrace ("'\x7b' before " ++ kind.name ++ " body")
  return .mk name (params.getD []) (← withLoops (fun _ => 0) body)

/-- A class, behind `class`, with a given reader for its methods. -/
def classDecl (width room : Nat) (method : Reader FunDecl) : Reader Stmt := do
  need room
  let name ← expect .identifier "class name"
  let superclass ← behind? .less (expect .identifier "superclass name")
  let _ ← expect .leftBrace "'\x7b' before class body"
  let methods ← untilBrace (return some (← method)) width []
  let _ ← expect .rightBrace "'\x7d' after class body"
  return .classDecl name (superclass.map (⟨·, none⟩)) methods

/-- The kinds of token that decide which statement follows. -/
def isStatementWord : TokenKind → Bool
  | .breakWord | .forWord | .ifWord | .printWord | .returnWord | .whileWord | .leftBrace => true
  | _ => false

mutual

/-- A declaration or statement; none if it is cut off by a fault. -/
def declaration (width : Nat) : Nat → Reader (Option Stmt)
  | room + 5 => orResume do
    need (room + 3)
    if ← accept .classWord then
      let method := functionDecl width room .method (block width room)
      classDecl width (room + 2) method
    else if ← accept .funWord then
      let body := block width (room + 1)
      return .function (← functionDecl width (room + 1) .function body)
    else if ← accept .varWord then
      variableDecl width (room + 2)
    else statement width (room + 3)
  | _ => throw .tooDeep

/-- A statement. -/
def statement (width : Nat) : Nat → Reader Stmt
  | room + 4 => do
    need (room + 2)
    match ← accept? isStatementWord with
    | none => expressionStatement width (room + 1)
    | some keyword =>
      match keyword.kind with
      | .breakWord => do
        need (room + 1)
        if (← get).loops = 0 then blame keyword .strayBreak
        let _ ← expect .semicolon "';' after 'break'"
        return .leave keyword
      | .forWord => do
        need (room + 1)
        let _ ← expect .leftParen "'(' after 'for'"
        let initial ← forInitial width room
        let test ← unless? .semicolon (expression width (room + 1))
        let _ ← expect .semicolon "';' after loop condition"
        let increment ← unless? .rightParen (expression width (room + 1))
        let _ ← expect .rightParen "')' after for clauses"
        let body ← withLoops (· + 1) (statement width room)
        return .forLoop initial test increment body
      | .ifWord => do
        need (room + 1)
        let _ ← expect .leftParen "'(' after 'if'"
        let test ← expression width (room + 1)
        let _ ← expect .rightParen "')' after if condition"
        let yes ← statement width (room + 1)
        return .branch test yes (← behind? .elseWord (statement width (room + 1)))
      | .printWord => do
        let e ← expression width (room + 1)
        let _ ← expect .semicolon "';' after value"
        return .print e
      | .returnWord => do
        let e ← unless? .semicolon (expression width (room + 1))
        need (room + 1)
        let _ ← expect .semicolon "';' after return value"
        return .giveBack keyword e
      | .whileWord => do
        need (room + 1)
        let _ ← expect .leftParen "'(' after 'while'"
        let test ← expression width (room + 1)
        let _ ← expect .rightParen "')' after condition"
        return .loop test (← withLoops (· + 1) (statement width room))
      | _ => return .block (← block width (room + 2))
  | _ => throw .tooDeep

/-- The statements of a block, behind its opening brace. -/
def block (width : Nat) : Nat → Reader (List Stmt)
  | room + 2 => do
    need room
    let body ← untilBrace (declaration width room) width []
    let _ ← expect .rightBrace "'\x7d' after block"
    return body
  | _ => throw .tooDeep

end

/-- One top-level declaration; none if it is cut off by a fault or nests too deeply. -/
def topLevel (width room : Nat) : Reader (Option Stmt) := orGiveUp (declaration width room)

/-- Top-level declarations up to the end, behind those already read (the latest first). -/
def topLevels (width room : Nat) : Nat → List Stmt → Reader (List Stmt)
  | 0, done => return done.reverse
  | n + 1, done => do
    if ← atEnd then return done.reverse
    else
      match ← topLevel width room with
      | some s => topLevels width room n (s :: done)
      | none => topLevels width room n done

end Grammar

/-- **Reads a token list as a program** in the given room.  Statements with a fault that
reading cannot pass over are left out. -/
def Program.ofTokens (room : Nat) (tokens : List Token) : Grammar.Outcome Program :=
  let width := tokens.length
  match Grammar.topLevels width room width [] { rest := tokens } with
  | .ok p c => ⟨p, c.diagnostics⟩
  | .error _ c => ⟨[], c.diagnostics⟩

end LoxKit
