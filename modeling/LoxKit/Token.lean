/-!
# Tokens

The vocabulary of the language: the kinds of lexical items, the words that are
reserved, and the token itself, an item of source text with the line it ends on.
A token carries no separate literal value; the value of a numeral or of a string
is a function of its text (`Literal.ofToken`).
-/
namespace LoxKit

/-- **Kind of a token.**  `endOfInput` closes every token list a scan produces and
occurs nowhere else in it. -/
inductive TokenKind where
  | leftParen | rightParen | leftBrace | rightBrace
  | comma | dot | minus | plus | semicolon | slash | star | question | colon
  | bang | bangEqual | equal | equalEqual
  | greater | greaterEqual | less | lessEqual
  | identifier | string | number
  | andWord | breakWord | classWord | elseWord | falseWord | forWord | funWord | ifWord
  | nilWord | orWord | printWord | returnWord | superWord | thisWord | trueWord
  | varWord | whileWord
  | endOfInput
  deriving DecidableEq, Inhabited

namespace TokenKind

/-- The name under which a kind appears in token listings. -/
def name : TokenKind → String
  | leftParen => "LEFT_PAREN"
  | rightParen => "RIGHT_PAREN"
  | leftBrace => "LEFT_BRACE"
  | rightBrace => "RIGHT_BRACE"
  | comma => "COMMA"
  | dot => "DOT"
  | minus => "MINUS"
  | plus => "PLUS"
  | semicolon => "SEMICOLON"
  | slash => "SLASH"
  | star => "STAR"
  | question => "QUESTION"
  | colon => "COLON"
  | bang => "BANG"
  | bangEqual => "BANG_EQUAL"
  | equal => "EQUAL"
  | equalEqual => "EQUAL_EQUAL"
  | greater => "GREATER"
  | greaterEqual => "GREATER_EQUAL"
  | less => "LESS"
  | lessEqual => "LESS_EQUAL"
  | identifier => "IDENTIFIER"
  | string => "STRING"
  | number => "NUMBER"
  | andWord => "AND"
  | breakWord => "BREAK"
  | classWord => "CLASS"
  | elseWord => "ELSE"
  | falseWord => "FALSE"
  | forWord => "FOR"
  | funWord => "FUN"
  | ifWord => "IF"
  | nilWord => "NIL"
  | orWord => "OR"
  | printWord => "PRINT"
  | returnWord => "RETURN"
  | superWord => "SUPER"
  | thisWord => "THIS"
  | trueWord => "TRUE"
  | varWord => "VAR"
  | whileWord => "WHILE"
  | endOfInput => "EOF"

/-- Every kind, in the order of the declaration. -/
def all : List TokenKind :=
  [leftParen, rightParen, leftBrace, rightBrace, comma, dot, minus, plus, semicolon,
    slash, star, question, colon, bang, bangEqual, equal, equalEqual, greater,
    greaterEqual, less, lessEqual, identifier, string, number, andWord, breakWord,
    classWord, elseWord, falseWord, forWord, funWord, ifWord, nilWord, orWord,
    printWord, returnWord, superWord, thisWord, trueWord, varWord, whileWord, endOfInput]

/-- The kind with a given listing name. -/
def ofName? (s : String) : Option TokenKind := all.find? (·.name == s)

theorem mem_all (k : TokenKind) : k ∈ all := by cases k <;> decide

/-- A reserved word and the kind that stands for it. -/
def reserved : List (String × TokenKind) :=
  [("and", andWord), ("break", breakWord), ("class", classWord), ("else", elseWord),
    ("false", falseWord), ("for", forWord), ("fun", funWord), ("if", ifWord),
    ("nil", nilWord), ("or", orWord), ("print", printWord), ("return", returnWord),
    ("super", superWord), ("this", thisWord), ("true", trueWord), ("var", varWord),
    ("while", whileWord)]

/-- The kind of a word: reserved, or else an identifier. -/
def ofWord (w : String) : TokenKind := (reserved.lookup w).getD identifier

/-- A declaration or statement begins with a keyword of this list; recovery from a
syntax error stops in front of one. -/
def startsStatement : TokenKind → Bool
  | classWord | funWord | varWord | forWord | ifWord | whileWord | printWord | returnWord => true
  | _ => false

end TokenKind

/-- **A lexical item.** -/
structure Token where
  /-- What the item is. -/
  kind : TokenKind
  /-- The source text of the item, empty for the end of the input. -/
  lexeme : String
  /-- The line on which the item ends, counted from 1 in scanned text. -/
  line : Int
  deriving DecidableEq, Inhabited

namespace Token

/-- The closing token of a token list. -/
def endAt (line : Int) : Token := ⟨.endOfInput, "", line⟩

/-- Whether the token is the closing one. -/
def isEnd (t : Token) : Bool := t.kind == .endOfInput

end Token
end LoxKit
