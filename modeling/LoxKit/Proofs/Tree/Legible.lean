import LoxKit.Proofs.Decimal.Parts
import LoxKit.Proofs.Scan.Spelling
import LoxKit.Proofs.Tree.Shape

/-!
# Programs of well-spelled tokens

What is known of the tokens of a program that was read from a source text: each stands where its
kind belongs and is spelled as its kind demands, no reference is resolved, no text of a literal
holds a quote, and no number bears a sign (`Stmt.Legible`).  The grammar gives an `else` to the
latest branch that it fits, so the first of two arms never ends with a branch of one arm
(`Stmt.isOpen`).
-/
namespace LoxKit

/-! ## Tokens -/

/-- **A token that is spelled as its kind demands**, a kind of the ones wanted. -/
structure Token.Legible (wanted : TokenKind → Prop) (t : Token) : Prop where
  spelled : t.Spelled
  kind : wanted t.kind

/-- A name. -/
abbrev Token.LegibleName : Token → Prop := Token.Legible (· = .identifier)

/-- **A reference by a token of a kind that nothing else is known of.** -/
structure Reference.Legible (kind : TokenKind) (r : Reference) : Prop where
  name : r.name.Legible (· = kind)
  hops : r.hops = none

/-- **A literal that a token can stand for.** -/
def Literal.Legible : Literal → Prop
  | .number x => Binary64.Plain x
  | .string s => '"' ∉ s.toList
  | _ => True

/-! ## Expressions -/

mutual

/-- **An expression of tokens in their places.** -/
def Expr.Legible : Expr → Prop
  | .literal v => v.Legible
  | .name r => r.Legible .identifier
  | .assign r v => r.Legible .identifier ∧ v.Legible
  | .unary op e => op.Legible (Grammar.isUnaryOperator ·) ∧ e.Legible
  | .binary l op r => op.Legible (·.isBinaryOperator) ∧ l.Legible ∧ r.Legible
  | .logical l op r => op.Legible (fun k => k = .andWord ∨ k = .orWord) ∧ l.Legible ∧ r.Legible
  | .conditional t y n => t.Legible ∧ y.Legible ∧ n.Legible
  | .call f paren args => f.Legible ∧ paren.Legible (· = .rightParen) ∧ Expr.AllLegible args
  | .get o p => o.Legible ∧ p.LegibleName
  | .set o p v => o.Legible ∧ p.LegibleName ∧ v.Legible
  | .group e => e.Legible
  | .self r => r.Legible .thisWord
  | .super r m => r.Legible .superWord ∧ m.LegibleName

/-- Expressions of tokens in their places. -/
def Expr.AllLegible : List Expr → Prop
  | [] => True
  | e :: es => e.Legible ∧ Expr.AllLegible es

end

/-! ## Statements -/

/-- **Whether a statement ends with a branch of one arm.**  An `else` behind it would be the other
one. -/
def Stmt.isOpen : Stmt → Bool
  | .branch _ _ none => true
  | .branch _ _ (some n) => n.isOpen
  | .loop _ body => body.isOpen
  | _ => false

mutual

/-- **A statement of tokens in their places.** -/
def Stmt.Legible : Stmt → Prop
  | .expression e | .print e => e.Legible
  | .var n e => n.LegibleName ∧ ∀ e' ∈ e, e'.Legible
  | .block body => Stmt.AllLegible body
  | .branch t y none => t.Legible ∧ y.Legible
  | .branch t y (some n) => t.Legible ∧ (y.isOpen = false ∧ y.Legible) ∧ n.Legible
  | .loop t body => t.Legible ∧ body.Legible
  | .leave k => k.Legible (· = .breakWord)
  | .giveBack k e => k.Legible (· = .returnWord) ∧ ∀ e' ∈ e, e'.Legible
  | .function d => d.Legible
  | .classDecl n s ms =>
    n.LegibleName ∧ (∀ r ∈ s, r.Legible .identifier) ∧ FunDecl.AllLegible ms

/-- Statements of tokens in their places. -/
def Stmt.AllLegible : List Stmt → Prop
  | [] => True
  | s :: ss => s.Legible ∧ Stmt.AllLegible ss

/-- A function of tokens in their places. -/
def FunDecl.Legible : FunDecl → Prop
  | .mk n ps body => n.LegibleName ∧ (∀ p ∈ ps, p.LegibleName) ∧ Stmt.AllLegible body

/-- Functions of tokens in their places. -/
def FunDecl.AllLegible : List FunDecl → Prop
  | [] => True
  | d :: ds => d.Legible ∧ FunDecl.AllLegible ds

end
end LoxKit
