import LoxKit.Bindings
import LoxKit.Diagnostic
import LoxKit.Tree.Basic

/-!
# Static scopes

Resolution walks over a program with a stack of scopes that matches, one for one, the
frames in which the program will run: one for each block, for each function body with its
parameters, for the `this` of a class body, and for the `super` of a class with a
superclass.  Global code has no scope on the stack.  A name is entered when its declaration
is met and becomes ready when its initializer has been passed.
-/
namespace LoxKit

/-- The names declared in a scope, and whether each is ready to be read. -/
abbrev Scope := Bindings Bool

/-- What the innermost function body around a place is. -/
inductive FunctionContext where
  | none | function | method | initializer
  deriving DecidableEq, Inhabited

/-- What the innermost class around a place is. -/
inductive ClassContext where
  | none
  | plain
  /-- A class with a superclass. -/
  | derived
  deriving DecidableEq, Inhabited

/-- The kinds of node that use a name. -/
inductive UseKind where
  | read | assign | this | super
  deriving DecidableEq, Inhabited

/-- **What resolution found out about one use of a name.** -/
structure Annotation where
  kind : UseKind
  name : Token
  /-- The number of frames between the use and the frame that binds the name. -/
  hops : Nat
  deriving DecidableEq, Inhabited

namespace Scope

/-- **A breach of a static rule.** -/
inductive Fault where
  | topLevelReturn
  | initializerReturn
  | redeclared
  | readInOwnInitializer
  | selfInheritance
  | thisOutsideClass
  | superOutsideClass
  | superWithoutSuperclass
  | tooDeep
  deriving DecidableEq

/-- The wording of each fault. -/
def Fault.message : Fault → String
  | topLevelReturn => "Can't return from top-level code."
  | initializerReturn => "Can't return a value from an initializer."
  | redeclared => "Already a variable with this name in this scope."
  | readInOwnInitializer => "Can't read local variable in its own initializer."
  | selfInheritance => "A class can't inherit from itself."
  | thisOutsideClass => "Can't use 'this' outside of a class."
  | superOutsideClass => "Can't use 'super' outside of a class."
  | superWithoutSuperclass => "Can't use 'super' in a class with no superclass."
  | tooDeep => "Program nests too deeply."

/-- Resolution of a statement is given up for one reason alone. -/
inductive Halt where
  | tooDeep
  deriving DecidableEq

/-- **The state of resolution.** -/
structure Walk where
  /-- The open scopes, the innermost first. -/
  scopes : List Scope := []
  function : FunctionContext := .none
  classContext : ClassContext := .none
  /-- The line of the name looked at last. -/
  line : Int := 1
  /-- The annotations made so far, in order. -/
  annotations : List Annotation := []
  diagnostics : List Diagnostic := []
  deriving Inhabited

/-- A step of resolution. -/
abbrev Resolving := EStateM Halt Walk

/-- The number of scopes around the innermost one that declares a name. -/
def depth? (scopes : List Scope) (name : String) : Option Nat :=
  scopes.findIdx? (·.contains name)

namespace Walk

/-- Reports a fault at a token. -/
def blame (w : Walk) (t : Token) (f : Fault) : Walk :=
  { w with diagnostics := w.diagnostics ++ [.atToken t f.message] }

/-- Opens a scope in which some names are ready from the start. -/
def push (w : Walk) (names : List String) : Walk :=
  { w with scopes := Bindings.ofList (names.map (·, true)) :: w.scopes }

/-- Closes the innermost scope. -/
def pop (w : Walk) : Walk := { w with scopes := w.scopes.tail }

/-- Looks at a name. -/
def lookAt (w : Walk) (name : Token) : Walk := { w with line := name.line }

/-- Whether a name is declared in the innermost scope already. -/
def declares (w : Walk) (name : Token) : Bool :=
  match w.scopes with
  | [] => false
  | s :: _ => s.contains name.lexeme

/-- Enters a name into the innermost scope, not ready yet.  Global names are entered
nowhere. -/
def declare (w : Walk) (name : Token) : Walk :=
  match w.scopes with
  | [] => w
  | s :: outer => { w with scopes := s.put name.lexeme false :: outer }

/-- Makes a name of the innermost scope ready. -/
def define (w : Walk) (name : Token) : Walk :=
  match w.scopes with
  | [] => w
  | s :: outer => { w with scopes := s.put name.lexeme true :: outer }

/-- Whether a name is declared in the innermost scope but not ready. -/
def pending (w : Walk) (name : Token) : Bool :=
  match w.scopes with
  | [] => false
  | s :: _ => s.get? name.lexeme == some false

/-- Notes what was found about a use of a name. -/
def use (w : Walk) (kind : UseKind) (name : Token) : Walk :=
  match depth? w.scopes name.lexeme with
  | some d => { w with annotations := w.annotations ++ [⟨kind, name, d⟩] }
  | none => w

/-- The state in which the next top-level statement is resolved after one was given up. -/
def abandon (w : Walk) : Walk :=
  { w with
    scopes := []
    function := .none
    classContext := .none
    diagnostics := w.diagnostics ++ [.atLine w.line Fault.tooDeep.message] }

end Walk
end Scope
end LoxKit
