import LoxKit.Grammar.Cursor
import LoxKit.Tree.Basic

/-!
# The grammar of expressions

From the loosest to the tightest:

    expression  = conditional { "," conditional }
    conditional = assignment [ "?" conditional ":" conditional ]
    assignment  = binary [ "=" conditional ]
    binary      = six levels of left-associative operators: or, and, equality,
                  comparison, sum, product
    unary       = ( "!" | "-" ) unary | call
    call        = primary { "(" [ conditional { "," conditional } ] ")" | "." IDENTIFIER }
    primary     = literal | IDENTIFIER | "this" | "super" "." IDENTIFIER
                | "(" expression ")"

The left side of `=` is read like any operand and judged afterwards: only a variable or a
property can be assigned to.

Each rule is given the `room` that is left for it and for the rules inside it, and `width`,
the number of tokens in the whole list, which no repetition can exceed.  A rule takes two
units of room, and a list of arguments one.  No rule looks at a token before it has read an
operand, other than `unary` and `primary`, so it is there that spare room may be missing.
-/
namespace LoxKit
namespace Grammar

/-- The levels of left-associative operators. -/
inductive Level where
  | either | both | equality | comparison | sum | product
  deriving DecidableEq

namespace Level

/-- The level of the operands; those of a product are unary expressions. -/
def tighter? : Level → Option Level
  | either => some both
  | both => some equality
  | equality => some comparison
  | comparison => some sum
  | sum => some product
  | product => none

/-- The operators of a level. -/
def operators : Level → TokenKind → Bool
  | either, .orWord => true
  | both, .andWord => true
  | equality, .bangEqual | equality, .equalEqual => true
  | comparison, .greater | comparison, .greaterEqual
  | comparison, .less | comparison, .lessEqual => true
  | sum, .minus | sum, .plus => true
  | product, .slash | product, .star => true
  | _, _ => false

/-- The expression an operator of a level forms. -/
def node : Level → Expr → Token → Expr → Expr
  | either | both => .logical
  | _ => .binary

end Level

/-- The prefix operators. -/
def isUnaryOperator : TokenKind → Bool
  | .bang | .minus => true
  | _ => false

/-- Operators and right operands as long as they follow, gathered to the left. -/
def chain (operators : TokenKind → Bool) (operand : Reader Expr)
    (node : Expr → Token → Expr → Expr) : Nat → Expr → Reader Expr
  | 0, left => return left
  | n + 1, left => do
    match ← accept? operators with
    | none => return left
    | some op => do
      let right ← operand
      chain operators operand node n (node left op right)

/-- The arguments of a call, behind its opening parenthesis. -/
def arguments (width : Nat) (argument : Reader Expr) : Reader (List Expr) :=
  return (← unless? .rightParen (commaList "arguments" argument width [])).getD []

/-- Calls and property accesses as long as they follow. -/
def suffixes (width : Nat) (argument : Reader Expr) : Nat → Expr → Reader Expr
  | 0, target => return target
  | n + 1, target => do
    if ← accept .leftParen then
      let args ← arguments width argument
      let paren ← expect .rightParen "')' after arguments"
      suffixes width argument n (.call target paren args)
    else if ← accept .dot then
      let property ← expect .identifier "property name after '.'"
      suffixes width argument n (.get target property)
    else return target

/-- What a target becomes when a value is assigned to it, if it can be assigned to. -/
def assigned? (value : Expr) : Expr → Option Expr
  | .name r => some (.assign r value)
  | .get object property => some (.set object property value)
  | _ => none

/-- The expression that a token is by itself, if it is one. -/
def atom? (t : Token) : Option Expr :=
  match t.kind with
  | .falseWord => some (.literal (.bool false))
  | .trueWord => some (.literal (.bool true))
  | .nilWord => some (.literal .nil)
  | .number | .string => (Literal.ofToken? t).map .literal
  | .thisWord => some (.self ⟨t, none⟩)
  | .identifier => some (.name ⟨t, none⟩)
  | _ => none

/-- Whether a token of this kind is an expression by itself. -/
def isAtom : TokenKind → Bool
  | .falseWord | .trueWord | .nilWord | .number | .string | .thisWord | .identifier => true
  | _ => false

mutual

/-- A full expression, with the comma operator. -/
def expression (width : Nat) : Nat → Reader Expr
  | room + 2 => do
    let first ← conditional width room
    chain (· == .comma) (conditional width room) .binary width first
  | _ => throw .tooDeep

/-- An expression without a bare comma. -/
def conditional (width : Nat) : Nat → Reader Expr
  | room + 2 => do
    let test ← assignment width room
    if ← accept .question then
      let yes ← conditional width room
      let _ ← expect .colon "':' in ternary operator"
      let no ← conditional width room
      return .conditional test yes no
    else return test
  | _ => throw .tooDeep

/-- An assignment, or an expression of operators. -/
def assignment (width : Nat) : Nat → Reader Expr
  | room + 2 => do
    let target ← binary width room .either
    match ← accept? (· == .equal) with
    | none => return target
    | some equals => do
      let value ← conditional width room
      match assigned? value target with
      | some e => return e
      | none => do
        blame equals .invalidTarget
        return target
  | _ => throw .tooDeep

/-- Operands joined by the left-associative operators of a level. -/
def binary (width : Nat) : Nat → Level → Reader Expr
  | room + 2, level => do
    let operand :=
      match level.tighter? with
      | some next => binary width room next
      | none => unary width room
    let first ← operand
    chain level.operators operand level.node width first
  | _, _ => throw .tooDeep

/-- An operand, perhaps behind prefix operators. -/
def unary (width : Nat) : Nat → Reader Expr
  | room + 2 => do
    need room
    match ← accept? isUnaryOperator with
    | some op => return .unary op (← unary width room)
    | none => call width room
  | _ => throw .tooDeep

/-- A primary expression with the calls and accesses that follow it. -/
def call (width : Nat) : Nat → Reader Expr
  | room + 3 => do
    let target ← primary width (room + 1)
    suffixes width (conditional width room) width target
  | _ => throw .tooDeep

/-- A literal, a name, `this`, a superclass method, or an expression in parentheses. -/
def primary (width : Nat) : Nat → Reader Expr
  | room + 2 => do
    need room
    match ← accept? isAtom with
    | some t => return (atom? t).getD default
    | none =>
      match ← accept? (· == .superWord) with
      | some keyword => do
        let _ ← expect .dot "'.' after 'super'"
        let method ← expect .identifier "superclass method name"
        return .super ⟨keyword, none⟩ method
      | none =>
        if ← accept .leftParen then
          let inner ← expression width room
          let _ ← expect .rightParen "')' after expression"
          return .group inner
        else fail (.expected "expression")
  | _ => throw .tooDeep

end

/-- A level whose operands are those of a tighter level. -/
theorem binary_of_tighter {width room : Nat} {level next : Level}
    (h : level.tighter? = some next) :
    binary width (room + 2) level = (do
      let first ← binary width room next
      chain level.operators (binary width room next) level.node width first) := by
  rw [binary, h]

/-- The level whose operands are unary expressions. -/
theorem binary_of_tightest {width room : Nat} {level : Level} (h : level.tighter? = none) :
    binary width (room + 2) level = (do
      let first ← unary width room
      chain level.operators (unary width room) level.node width first) := by
  rw [binary, h]

/-- An expression with nothing behind it. -/
def closedExpression (width room : Nat) : Reader Expr := do
  let e ← expression width room
  if ← atEnd then return e else fail (.expected "end of expression")

/-- The whole input as one expression.  Too deep a nesting is reported at the token where
reading gave up. -/
def soleExpression (width room : Nat) : Reader (Option Expr) := fun c =>
  match closedExpression width room c with
  | .ok e d => .ok (some e) d
  | .error .fault d => .ok none d
  | .error .tooDeep d => .ok none (d.blame d.current .tooDeep)

end Grammar

/-- **Reads a token list as one expression** in the given room.  There is none if anything is
wrong that reading cannot pass over. -/
def Expr.ofTokens? (room : Nat) (tokens : List Token) : Grammar.Outcome (Option Expr) :=
  match Grammar.soleExpression tokens.length room { rest := tokens } with
  | .ok e c => ⟨e, c.diagnostics⟩
  | .error _ c => ⟨none, c.diagnostics⟩

end LoxKit
