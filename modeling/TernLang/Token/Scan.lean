import TernLang.Error

-- Cutting a source text into tokens.
--
-- The text is read from front to back. Each step takes the longest piece that starts there: a
-- token, or a gap between tokens (white space or a comment).

namespace TernLang.Token

namespace Scan

-- A piece at the front of a text: the characters it takes, what they denote if they are not a gap,
-- and the text after them.
structure Piece where
  lexeme : List Char
  token : Option (Kind × List Char)
  rest : List Char
deriving DecidableEq

-- The white space between tokens.
def isGap (c : Char) : Bool := c = ' ' || c = '\t' || c = '\n' || c = '\r'

-- The characters of a word after its first letter.
def isWordChar (c : Char) : Bool := c.isAlphanum || c = '_'

-- The characters of a number after its first digit.
def isNumberChar (c : Char) : Bool := c.isDigit || c = '.'

-- The arithmetic operators.
def isOperator (c : Char) : Bool := c = '+' || c = '-' || c = '*' || c = '/' || c = '%'

-- The signs that stand for themselves.
def punctuation? : Char → Option Kind
  | ',' => some .comma
  | '.' => some .dot
  | ':' => some .colon
  | ';' => some .semicolon
  | '(' => some .leftParen
  | ')' => some .rightParen
  | '\x7b' => some .leftBrace
  | '\x7d' => some .rightBrace
  | '[' => some .leftBracket
  | ']' => some .rightBracket
  | '&' => some .and
  | '|' => some .or
  | '^' => some .xor
  | _ => none

-- The signs that an equals sign may follow: their kind without it and with it.
def comparison? : Char → Option (Kind × Kind)
  | '>' => some (.greater, .greaterEqual)
  | '<' => some (.less, .lessEqual)
  | '=' => some (.assign, .equal)
  | '!' => some (.not, .notEqual)
  | _ => none

def gap (lexeme rest : List Char) : Piece := ⟨lexeme, none, rest⟩

-- A token whose text is its lexeme.
def plain (kind : Kind) (lexeme rest : List Char) : Piece := ⟨lexeme, some (kind, lexeme), rest⟩

-- A comment runs up to the newline.
def comment (cs : List Char) : Piece := gap (cs.takeWhile (· ≠ '\n')) (cs.dropWhile (· ≠ '\n'))

-- A string runs to the next quote of its kind, or to the end of the text.
def quoted (mark : Char) (cs : List Char) : Piece :=
  let body := cs.takeWhile (· ≠ mark)
  let after := cs.dropWhile (· ≠ mark)
  ⟨mark :: body ++ after.take 1, some (.string, body), after.drop 1⟩

def word (cs : List Char) : Piece :=
  let name := cs.takeWhile isWordChar
  let kind := if keywords.contains (String.ofList name) then Kind.keyword else .ident
  plain kind name (cs.dropWhile isWordChar)

-- A number has at most one point, which makes it real.
def number (cs : List Char) : Except Error.Cause Piece :=
  let digits := cs.takeWhile isNumberChar
  let rest := cs.dropWhile isNumberChar
  match digits.count '.' with
  | 0 => .ok (plain .integer digits rest)
  | 1 => .ok (plain .real digits rest)
  | _ => .error (.malformedNumber (String.ofList digits))

def comparison (single double : Kind) (c : Char) : List Char → Piece
  | '=' :: cs => plain double [c, '='] cs
  | cs => plain single [c] cs

-- The piece at the front of `c :: cs`.
def front (c : Char) (cs : List Char) : Except Error.Cause Piece :=
  if isGap c then .ok (gap [c] cs)
  else if c = '/' ∧ cs.head? = some '/' then .ok (comment (c :: cs))
  else if isOperator c then .ok (plain .operator [c] cs)
  else
    match punctuation? c, comparison? c with
    | some kind, _ => .ok (plain kind [c] cs)
    | none, some (single, double) => .ok (comparison single double c cs)
    | none, none =>
      if c = '\x27' ∨ c = '\x22' then .ok (quoted c cs)
      else if c.isAlpha then .ok (word (c :: cs))
      else if c.isDigit then number (c :: cs)
      else .error (.unexpectedCharacter c)

-- Puts the token of a piece, if it has one, in front of the tokens after it.
def Piece.consTo (piece : Piece) (pos : Position) (tokens : List Token) : List Token :=
  match piece.token with
  | some (kind, text) => ⟨kind, .str (String.ofList text), .ofPosition pos⟩ :: tokens
  | none => tokens

-- The tokens of a text that starts at `pos`, in at most as many steps as the first argument says.
-- Every step takes a character, so the length of the text is enough.
def tokens : Nat → Position → List Char → Except Error (List Token)
  | n + 1, pos, c :: cs =>
    match front c cs with
    | .error cause => .error ⟨cause, .ofPosition pos⟩
    | .ok piece =>
      match tokens n (pos.after piece.lexeme) piece.rest with
      | .error e => .error e
      | .ok later => .ok (piece.consTo pos later)
  | _, pos, _ => .ok [⟨.endOfInput, .str "", .ofPosition pos⟩]

end Scan

-- The tokens of a source text, with one for its end.
def scan (source : String) : Except Error (List Token) :=
  let cs := source.toList
  Scan.tokens cs.length .start cs

end TernLang.Token
