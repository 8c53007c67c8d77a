import LoxKit.Literal

/-!
# Programs as trees

Expressions, statements and function declarations.  A place where a program refers to a
name by itself (to read it, to assign it, as `this`, `super` or a superclass) is a
`Reference`.  The grammar leaves a reference unresolved; resolution fills in how many
frames lie between the place and the frame that binds the name.
-/
namespace LoxKit

/-- **A use of a name.** -/
structure Reference where
  /-- The token of the name, or the keyword that plays its part. -/
  name : Token
  /-- The number of frames to leave before the one that binds the name.  A reference with
  none is looked up among the globals. -/
  hops : Option Nat := none
  deriving DecidableEq, Inhabited

/-- **An expression.** -/
inductive Expr where
  | literal (value : Literal)
  /-- The value of a variable. -/
  | name (ref : Reference)
  | assign (ref : Reference) (value : Expr)
  | unary (op : Token) (operand : Expr)
  | binary (left : Expr) (op : Token) (right : Expr)
  /-- An operator whose right operand may go unevaluated. -/
  | logical (left : Expr) (op : Token) (right : Expr)
  | conditional (test yes no : Expr)
  /-- A call; `paren` closes its arguments. -/
  | call (callee : Expr) (paren : Token) (arguments : List Expr)
  | get (object : Expr) (property : Token)
  | set (object : Expr) (property : Token) (value : Expr)
  | group (inner : Expr)
  /-- The object a method works on. -/
  | self (ref : Reference)
  /-- A method of the superclass. -/
  | super (ref : Reference) (method : Token)
  deriving Inhabited

mutual

/-- **A statement.** -/
inductive Stmt where
  | expression (value : Expr)
  | print (value : Expr)
  | var (name : Token) (initial : Option Expr)
  | block (body : List Stmt)
  | branch (test : Expr) (yes : Stmt) (no : Option Stmt)
  | loop (test : Expr) (body : Stmt)
  /-- Leaves the innermost loop. -/
  | leave (keyword : Token)
  /-- Ends the innermost function call, with a value or without. -/
  | giveBack (keyword : Token) (value : Option Expr)
  | function (decl : FunDecl)
  | classDecl (name : Token) (superclass : Option Reference) (methods : List FunDecl)

/-- **The declaration of a function or method.** -/
inductive FunDecl where
  | mk (name : Token) (params : List Token) (body : List Stmt)

end

instance : Inhabited Stmt := ⟨.block []⟩

/-- **A program**: its top-level statements in order. -/
abbrev Program := List Stmt

namespace FunDecl

instance : Inhabited FunDecl := ⟨.mk default [] []⟩

/-- The name declared. -/
def name : FunDecl → Token
  | mk n _ _ => n

/-- The parameters in order. -/
def params : FunDecl → List Token
  | mk _ ps _ => ps

/-- The statements of the body. -/
def body : FunDecl → List Stmt
  | mk _ _ b => b

/-- How many arguments a call must pass. -/
def arity (d : FunDecl) : Nat := d.params.length

/-- A method of this name sets up new objects. -/
def isInitializer (d : FunDecl) : Bool := d.name.lexeme == "init"

end FunDecl
end LoxKit
