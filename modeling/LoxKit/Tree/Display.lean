import LoxKit.Tree.Basic

/-!
# The display form of programs

Expressions are shown in a parenthesised form with the operator in front, statements in a
compact form close to the source.  `1 + 2 * 3` is shown as `(+ 1 (* 2 3))`.
-/
namespace LoxKit

/-- Words in parentheses. -/
def parenthesized (words : List String) : String := "(" ++ " ".intercalate words ++ ")"

mutual

/-- The display form of an expression. -/
def Expr.display : Expr → String
  | .literal v => v.render
  | .name r => r.name.lexeme
  | .assign r v => parenthesized ["=", r.name.lexeme, v.display]
  | .unary op e => parenthesized [op.lexeme, e.display]
  | .binary l op r => parenthesized [op.lexeme, l.display, r.display]
  | .logical l op r => parenthesized [op.lexeme, l.display, r.display]
  | .conditional t y n => parenthesized ["?:", t.display, y.display, n.display]
  | .call f _ args => parenthesized ("call" :: f.display :: Expr.displayAll args)
  | .get o p => parenthesized [".", o.display, p.lexeme]
  | .set o p v => parenthesized ["=", parenthesized [".", o.display, p.lexeme], v.display]
  | .group e => parenthesized ["group", e.display]
  | .self _ => "this"
  | .super _ m => parenthesized ["super", m.lexeme]

/-- The display forms of several expressions. -/
def Expr.displayAll : List Expr → List String
  | [] => []
  | e :: es => e.display :: Expr.displayAll es

end

/-- Pieces in braces; an empty list leaves two blanks between them. -/
def braced (parts : List String) : String := "\x7b " ++ " ".intercalate parts ++ " \x7d"

mutual

/-- The display form of a statement. -/
def Stmt.display : Stmt → String
  | .expression e => e.display ++ ";"
  | .print e => "print " ++ e.display ++ ";"
  | .var n none => "var " ++ n.lexeme ++ ";"
  | .var n (some e) => "var " ++ n.lexeme ++ " = " ++ e.display ++ ";"
  | .block body => braced (Stmt.displayAll body)
  | .branch t y none => "if " ++ t.display ++ " " ++ y.display
  | .branch t y (some n) => "if " ++ t.display ++ " " ++ y.display ++ " else " ++ n.display
  | .loop t body => "while " ++ t.display ++ " " ++ body.display
  | .leave _ => "break;"
  | .giveBack _ none => "return;"
  | .giveBack _ (some e) => "return " ++ e.display ++ ";"
  | .function d => "fun " ++ d.display
  | .classDecl n none ms => "class " ++ n.lexeme ++ " " ++ braced (FunDecl.displayAll ms)
  | .classDecl n (some s) ms =>
    "class " ++ n.lexeme ++ " < " ++ s.name.lexeme ++ " " ++ braced (FunDecl.displayAll ms)

/-- The display forms of several statements. -/
def Stmt.displayAll : List Stmt → List String
  | [] => []
  | s :: ss => s.display :: Stmt.displayAll ss

/-- The display form of a function from its name on. -/
def FunDecl.display : FunDecl → String
  | .mk n ps body =>
    n.lexeme ++ "(" ++ ", ".intercalate (ps.map (·.lexeme)) ++ ") " ++
      braced (Stmt.displayAll body)

/-- The display forms of several functions. -/
def FunDecl.displayAll : List FunDecl → List String
  | [] => []
  | d :: ds => d.display :: FunDecl.displayAll ds

end
end LoxKit
