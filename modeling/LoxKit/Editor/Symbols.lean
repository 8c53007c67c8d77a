import LoxKit.Editor.Range
import LoxKit.Grammar.Statement
import LoxKit.Limits
import LoxKit.Scan

/-!
# Symbols of a document

The names a document declares at its top level, with the methods of its classes.  Documents
with faults have the symbols of what could be read of them.
-/
namespace LoxKit.Editor

/-- What a symbol stands for. -/
inductive SymbolKind where
  | classSymbol | method | function | varSymbol
  deriving DecidableEq, Inhabited

/-- The number by which an editor knows a kind of symbol. -/
def SymbolKind.code : SymbolKind → Nat
  | classSymbol => 5
  | method => 6
  | function => 12
  | varSymbol => 13

/-- A declared name. -/
structure Declared where
  name : String
  kind : SymbolKind
  /-- The document that declares it. -/
  uri : String
  /-- The line of the name, counted from 0. -/
  line : Int
  /-- The declaration in short. -/
  detail : String
  deriving DecidableEq, Inhabited

/-- The first characters of the line of the name, as many as the name has. -/
def Declared.range (d : Declared) : Range := .ofLine d.line d.name.length

/-- **A symbol**: a declared name, and the methods of a class. -/
structure Symbol extends Declared where
  children : List Declared := []
  deriving DecidableEq, Inhabited

/-- A name with the parameters behind it. -/
def signature (d : FunDecl) : String :=
  d.name.lexeme ++ "(" ++ ", ".intercalate (d.params.map (·.lexeme)) ++ ")"

/-- A name declared in a document at its token. -/
def Declared.of (uri : String) (kind : SymbolKind) (name : Token) (detail : String) : Declared :=
  ⟨name.lexeme, kind, uri, name.line - 1, detail⟩

/-- The symbol that a top-level statement declares, if it declares one. -/
def Symbol.ofStmt? (uri : String) : Stmt → Option Symbol
  | .classDecl name superclass methods =>
    let parent := (superclass.map (" < " ++ ·.name.lexeme)).getD ""
    let method (d : FunDecl) : Declared :=
      .of uri .method d.name (name.lexeme ++ "." ++ signature d)
    some { Declared.of uri .classSymbol name ("class " ++ name.lexeme ++ parent) with
      children := methods.map method }
  | .function d => some { Declared.of uri .function d.name ("fun " ++ signature d) with }
  | .var name _ => some { Declared.of uri .varSymbol name ("var " ++ name.lexeme) with }
  | _ => none

/-- **The symbols of a document.** -/
def symbols (limits : Limits) (uri text : String) : List Symbol :=
  (Program.ofTokens limits.room (scan text).tokens).result.filterMap (Symbol.ofStmt? uri)

/-- A symbol and the methods in it, each as a symbol of its own. -/
def Symbol.flatten (s : Symbol) : List Symbol :=
  s :: s.children.map fun d => { d with }

end LoxKit.Editor
