import TernLang.Place

-- Tokens: the words and signs that a source text is made of.

namespace TernLang

namespace Token

inductive Kind where
  | integer
  | real
  | string
  | ident
  | keyword
  | operator
  | assign
  | equal
  | notEqual
  | less
  | lessEqual
  | greater
  | greaterEqual
  | not
  | and
  | or
  | xor
  | comma
  | dot
  | colon
  | semicolon
  | leftParen
  | rightParen
  | leftBrace
  | rightBrace
  | leftBracket
  | rightBracket
  | endOfInput
  -- A kind that no source text has, but a list of tokens may have, by its name.
  | other (name : String)
deriving DecidableEq, Repr

namespace Kind

-- The name of a kind in messages and in token lists.
def name : Kind → String
  | integer => "INTEGER"
  | real => "REAL"
  | string => "STRING"
  | ident => "IDENT"
  | keyword => "KEYWORD"
  | operator => "BINARY_OP"
  | assign => "ASSIGN"
  | equal => "EQ"
  | notEqual => "NOT_EQ"
  | less => "LT"
  | lessEqual => "LT_EQ"
  | greater => "GT"
  | greaterEqual => "GT_EQ"
  | not => "NOT"
  | and => "AND"
  | or => "OR"
  | xor => "XOR"
  | comma => "COMMA"
  | dot => "DOT"
  | colon => "COLON"
  | semicolon => "SEMICOLON"
  | leftParen => "LPAREN"
  | rightParen => "RPAREN"
  | leftBrace => "LBRACE"
  | rightBrace => "RBRACE"
  | leftBracket => "LBRACKET"
  | rightBracket => "RBRACKET"
  | endOfInput => "EOF"
  | other name => name

-- The kinds that the tokens of a source text have.
def all : List Kind :=
  [integer, real, string, ident, keyword, operator, assign, equal, notEqual, less, lessEqual,
   greater, greaterEqual, not, and, or, xor, comma, dot, colon, semicolon, leftParen, rightParen,
   leftBrace, rightBrace, leftBracket, rightBracket, endOfInput]

def ofName (s : String) : Kind := (all.find? (·.name = s)).getD (other s)

-- The signs that compare two operands.
def isRelational : Kind → Bool
  | less | lessEqual | greater | greaterEqual | equal | notEqual => true
  | _ => false

end Kind

-- The words that name no variable.
def keywords : List String :=
  ["let", "if", "else", "case", "of", "default", "as", "to", "func"]

end Token

-- A token with its text, less the quotes of a string, and the place of its first character. In a
-- list of tokens that comes from elsewhere there may be any data for a text.
structure Token where
  kind : Token.Kind
  text : Tree
  place : Place
deriving DecidableEq

namespace Token

-- Whether the text of a token is one of these.
def isOneOf (t : Token) (texts : List String) : Bool := t.text.text?.any texts.contains

-- How a message names a token.
def describe (t : Token) : String :=
  if t.kind = .endOfInput then "end of input" else t.kind.name ++ " " ++ t.text.quoted

-- How a message names the next token, if there is one.
def describeNext : Option Token → String
  | some t => t.describe
  | none => "end of input"

end Token

end TernLang
