import LoxKit.Bindings
import LoxKit.Text.Quoted
import LoxKit.Tree.Basic

/-!
# Values

What expressions evaluate to.  Functions, classes and objects have an identity; functions
equal nothing, not even themselves, and classes and objects equal themselves alone.

A class is immutable once made and carries its superclass, so looking a method up is
recursion on the class.  The fields of an object change, and live in the machine under the
number of the object.

A function knows the names around its declaration by its surroundings.  What these are is
left open here: in the machine, the number of a frame.
-/
namespace LoxKit

variable {σ : Type}

/-- **A function with the surroundings it was made in.** -/
structure Closure (σ : Type) where
  decl : FunDecl
  /-- What each call runs inside. -/
  home : σ
  /-- Whether a call yields the object it works on, whatever the body gives back. -/
  isInitializer : Bool
  deriving Inhabited

/-- What a class declares itself. -/
structure ClassHead (σ : Type) where
  /-- Distinguishes classes; later classes have greater numbers. -/
  number : Nat
  name : String
  methods : Bindings (Closure σ)
  deriving Inhabited

/-- **A class**, with the class it inherits from if there is one. -/
inductive ClassValue (σ : Type) where
  | root (head : ClassHead σ)
  | derived (head : ClassHead σ) (superclass : ClassValue σ)
  deriving Inhabited

namespace ClassValue

/-- What the class declares itself. -/
def head : ClassValue σ → ClassHead σ
  | root h => h
  | derived h _ => h

/-- The class inherited from. -/
def superclass? : ClassValue σ → Option (ClassValue σ)
  | root _ => none
  | derived _ s => some s

/-- The name of the class. -/
def name (c : ClassValue σ) : String := c.head.name

/-- A class made of its own part and perhaps a superclass. -/
def of (head : ClassHead σ) : Option (ClassValue σ) → ClassValue σ
  | none => root head
  | some s => derived head s

/-- **The method of a name**: of the class itself, or else of the nearest class it inherits
from that has one. -/
def method? (name : String) : ClassValue σ → Option (Closure σ)
  | root h => h.methods.get? name
  | derived h s => (h.methods.get? name).or (s.method? name)

/-- The method that sets up new objects. -/
def initializer? (c : ClassValue σ) : Option (Closure σ) := c.method? "init"

/-- How many arguments a call of the class must pass. -/
def arity (c : ClassValue σ) : Nat := (c.initializer?.map (·.decl.arity)).getD 0

end ClassValue

/-- The functions that are part of the language. -/
inductive Native where
  | clock
  deriving DecidableEq, Inhabited

namespace Native

/-- The global name of the function. -/
def name : Native → String
  | clock => "clock"

/-- How many arguments a call must pass. -/
def arity : Native → Nat
  | clock => 0

end Native

/-- The number of an object. -/
abbrev ObjectId := Nat

/-- **A value.** -/
inductive Value (σ : Type) where
  | nil
  | bool (b : Bool)
  | number (x : Float)
  | string (s : String)
  | function (f : Closure σ)
  | native (f : Native)
  | classValue (c : ClassValue σ)
  | object (id : ObjectId) (c : ClassValue σ)
  deriving Inhabited

namespace Value

/-- The value of a constant. -/
def ofLiteral : Literal → Value σ
  | .nil => nil
  | .bool b => bool b
  | .number x => number x
  | .string s => string s

/-- `nil` and `false` count as false, everything else as true. -/
def truthy : Value σ → Bool
  | nil => false
  | bool b => b
  | _ => true

/-- **Equality of values.**  Values of different sorts are unequal. -/
def equals : Value σ → Value σ → Bool
  | nil, nil => true
  | bool a, bool b => a == b
  | number x, number y => x == y
  | string s, string t => s == t
  | classValue c, classValue d => c.head.number == d.head.number
  | object i _, object j _ => i == j
  | _, _ => false

/-- **The text of a value** as a program prints it. -/
def render : Value σ → String
  | nil => "nil"
  | bool true => "true"
  | bool false => "false"
  | number x => NumberFormat.plain.write x
  | string s => s
  | function f => s!"<fn {f.decl.name.lexeme}>"
  | native _ => "<native fn>"
  | classValue c => s!"<{c.name}>"
  | object _ c => s!"<{c.name}> instance"

/-- The text of a value in listings, which tells its sort. -/
def inspect : Value σ → String
  | nil => "None"
  | bool true => "True"
  | bool false => "False"
  | number x => NumberFormat.listing.write x
  | string s => Text.quoted s
  | function f => s!"LoxFunction({f.decl.name.lexeme})"
  | native f => s!"NativeFunction({f.name})"
  | classValue c => s!"LoxClass({c.name})"
  | object _ c => s!"LoxInstance({c.name})"

/-- The number a value is, if it is one. -/
def number? : Value σ → Option Float
  | number x => some x
  | _ => none

/-- Whether a value is a string. -/
def isString : Value σ → Bool
  | string _ => true
  | _ => false

end Value
end LoxKit
