import LoxKit.Tree.Basic

/-!
# Programs as tokens

A tree keeps the tokens of its names, operators and keywords, and of the parentheses that close
its calls.  Its rendering puts back what the tree leaves out: the marks between its parts, and the
words that open its statements.  There are parentheses where the tree has a group or the form of
a statement asks for them, and nowhere else, so the rendering of a tree that no source text was
read as need not be read as that tree.

How a number is written is left to a parameter.  What is put back stands on line 0.
-/
namespace LoxKit

/-- A mark or a word that a tree leaves out. -/
def Token.mark (kind : TokenKind) (lexeme : String) : Token := ⟨kind, lexeme, 0⟩

section
variable (numeral : Float → String)

/-- The token of a literal. -/
def Literal.token : Literal → Token
  | .nil => .mark .nilWord "nil"
  | .bool true => .mark .trueWord "true"
  | .bool false => .mark .falseWord "false"
  | .number x => .mark .number (numeral x)
  | .string s => .mark .string ("\"" ++ s ++ "\"")

mutual

/-- **The tokens of an expression.** -/
def Expr.tokens : Expr → List Token
  | .literal v => [v.token numeral]
  | .name r => [r.name]
  | .assign r v => r.name :: .mark .equal "=" :: v.tokens
  | .unary op e => op :: e.tokens
  | .binary l op r => l.tokens ++ op :: r.tokens
  | .logical l op r => l.tokens ++ op :: r.tokens
  | .conditional t y n =>
    t.tokens ++ .mark .question "?" :: (y.tokens ++ .mark .colon ":" :: n.tokens)
  | .call f paren args => f.tokens ++ .mark .leftParen "(" :: (Expr.tokensOfList args ++ [paren])
  | .get o p => o.tokens ++ [.mark .dot ".", p]
  | .set o p v => o.tokens ++ .mark .dot "." :: p :: .mark .equal "=" :: v.tokens
  | .group e => .mark .leftParen "(" :: (e.tokens ++ [.mark .rightParen ")"])
  | .self r => [r.name]
  | .super r m => [r.name, .mark .dot ".", m]

/-- The tokens of expressions with commas between them. -/
def Expr.tokensOfList : List Expr → List Token
  | [] => []
  | e :: es => e.tokens ++ Expr.tokensOfMore es

/-- The tokens of expressions behind others. -/
def Expr.tokensOfMore : List Expr → List Token
  | [] => []
  | e :: es => .mark .comma "," :: (e.tokens ++ Expr.tokensOfMore es)

end

/-- The tokens of an expression that may be absent. -/
def Expr.tokensOfClause : Option Expr → List Token
  | none => []
  | some e => e.tokens numeral

/-- The tokens of the initializer of a variable, which may be absent. -/
def Expr.tokensOfInitial : Option Expr → List Token
  | none => []
  | some e => .mark .equal "=" :: e.tokens numeral

/-- The tokens of a superclass, which may be absent. -/
def Reference.tokensOfSuperclass : Option Reference → List Token
  | none => []
  | some r => [.mark .less "<", r.name]

mutual

/-- **The tokens of a statement.** -/
def Stmt.tokens : Stmt → List Token
  | .expression e => e.tokens numeral ++ [.mark .semicolon ";"]
  | .print e => .mark .printWord "print" :: (e.tokens numeral ++ [.mark .semicolon ";"])
  | .var n e =>
    .mark .varWord "var" :: n :: (Expr.tokensOfInitial numeral e ++ [.mark .semicolon ";"])
  | .block body => .mark .leftBrace "\x7b" :: (Stmt.tokensOfList body ++ [.mark .rightBrace "\x7d"])
  | .branch t y none =>
    .mark .ifWord "if" :: .mark .leftParen "(" ::
      (t.tokens numeral ++ .mark .rightParen ")" :: y.tokens)
  | .branch t y (some n) =>
    .mark .ifWord "if" :: .mark .leftParen "(" ::
      (t.tokens numeral ++ .mark .rightParen ")" ::
        (y.tokens ++ .mark .elseWord "else" :: n.tokens))
  | .loop t body =>
    .mark .whileWord "while" :: .mark .leftParen "(" ::
      (t.tokens numeral ++ .mark .rightParen ")" :: body.tokens)
  | .leave k => [k, .mark .semicolon ";"]
  | .giveBack k e => k :: (Expr.tokensOfClause numeral e ++ [.mark .semicolon ";"])
  | .function d => .mark .funWord "fun" :: d.tokens
  | .classDecl n s ms =>
    .mark .classWord "class" :: n :: (Reference.tokensOfSuperclass s ++
      .mark .leftBrace "\x7b" :: (FunDecl.tokensOfList ms ++ [.mark .rightBrace "\x7d"]))

/-- The tokens of statements. -/
def Stmt.tokensOfList : List Stmt → List Token
  | [] => []
  | s :: ss => s.tokens ++ Stmt.tokensOfList ss

/-- The tokens of a function from its name on. -/
def FunDecl.tokens : FunDecl → List Token
  | .mk n ps body =>
    n :: .mark .leftParen "(" :: (ps.intersperse (.mark .comma ",") ++
      .mark .rightParen ")" :: .mark .leftBrace "\x7b" ::
        (Stmt.tokensOfList body ++ [.mark .rightBrace "\x7d"]))

/-- The tokens of functions. -/
def FunDecl.tokensOfList : List FunDecl → List Token
  | [] => []
  | d :: ds => d.tokens ++ FunDecl.tokensOfList ds

end

/-- **The tokens of a program.** -/
def Program.tokens (p : Program) : List Token := Stmt.tokensOfList numeral p

end
end LoxKit
