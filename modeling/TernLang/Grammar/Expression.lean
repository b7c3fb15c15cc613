import TernLang.Grammar.Parse
import TernLang.Machine
import TernLang.Number.Reading
import TernLang.Number.Word

-- The grammar of expressions. From loose to tight:
--
-- * assignment, to the right
-- * comparison, all six operators alike, to the left
-- * `+` and `-`, then `*`, `/` and `%`, to the left
-- * member, index and call
-- * conversion
-- * literals, names, brackets and the signs in front of an operand
--
-- Each level is written over the level below it and over the parsers for what stands inside
-- brackets. `parsers` closes the circle: its argument bounds how deep expressions stand inside each
-- other.

namespace TernLang.Grammar

open Parse

-- How deep blocks, brackets and signs may stand inside each other.
def maxNesting : Nat := 64

-- The parsers for what stands inside an expression. Their argument is the number of levels of
-- brackets that may still be opened.
structure Parsers where
  expression : Nat → Parse Node
  primary : Nat → Parse Node

-- A token that a level of left-associative operators takes.
def isSum (t : Token) : Bool := t.kind = .operator && t.isOneOf ["+", "-"]

def isProduct (t : Token) : Bool := t.kind = .operator && t.isOneOf ["*", "/", "%"]

def isRelation (t : Token) : Bool := t.kind.isRelational

-- The operators and operands after a first operand.
def chain (isOp : Token → Bool) (make : Token → Node → Node → Node) (operand : Parse Node) :
    Nat → Node → Parse Node
  | 0, node => pure node
  | n + 1, node => do
    match ← peek with
    | some t =>
      if isOp t then
        advance
        let right ← operand
        chain isOp make operand n (make t node right)
      else pure node
    | none => pure node

-- One or more operands, joined from left to right.
def leftAssociative (isOp : Token → Bool) (make : Token → Node → Node → Node)
    (operand : Parse Node) : Parse Node := do
  let first ← operand
  loop fun n => chain isOp make operand n first

def makeBinary (t : Token) (left right : Node) : Node := .binary t.place t.text left right

def makeCompare (t : Token) (left right : Node) : Node := .compare t.place t.text left right

-- A conversion may follow its value at once.
def conversion (primary : Parse Node) : Parse Node := do
  let value ← primary
  match ← peek with
  | some t =>
    if ← nextIsWord ["as", "to"] then
      advance
      let type ← primary
      pure (.convert t.place value type)
    else pure value
  | none => pure value

-- Members, indices, calls and conversions after an operand.
def postfixes (expression primary : Parse Node) : Nat → Node → Parse Node
  | 0, node => pure node
  | n + 1, node => do
    match ← peek with
    | none => pure node
    | some t =>
      match t.kind with
      | .dot =>
        advance
        let property ← conversion primary
        postfixes expression primary n (.member t.place node property)
      | .leftBracket =>
        advance
        let index ← expression
        discard <| expect .rightBracket
        postfixes expression primary n (.index t.place node index)
      | .leftParen =>
        advance
        let args ← loop (separated .rightParen expression)
        discard <| expect .rightParen
        postfixes expression primary n (.call t.place node (.list args))
      | .keyword =>
        if t.isOneOf ["as", "to"] then
          advance
          let type ← primary
          postfixes expression primary n (.convert t.place node type)
        else pure node
      | _ => pure node

def operand (expression primary : Parse Node) : Parse Node := do
  let first ← conversion primary
  loop fun n => postfixes expression primary n first

def product (expression primary : Parse Node) : Parse Node :=
  leftAssociative isProduct makeBinary (operand expression primary)

def sum (expression primary : Parse Node) : Parse Node :=
  leftAssociative isSum makeBinary (product expression primary)

def relation (expression primary : Parse Node) : Parse Node :=
  leftAssociative isRelation makeCompare (sum expression primary)

-- Only a name or a tuple of names can be assigned to.
def assignment (expression primary : Parse Node) : Parse Node := do
  let start ← peek
  let left ← relation expression primary
  if ← nextIs .assign then
    if left.isTarget then
      advance
      let value ← expression
      pure (.assign (start.elim .unknown (·.place)) left value)
    else refuse .invalidTarget start
  else pure left

-- The elements of an array literal; the last one may have a comma after it.
def elements (expression : Parse Node) : Nat → Parse (List Node)
  | 0 => pure []
  | n + 1 => do
    if ← nextIs .rightBracket then pure []
    else
      let first ← expression
      if ← nextIs .comma then
        advance
        let rest ← elements expression n
        pure (first :: rest)
      else pure [first]

-- The elements of a tuple after the first, each with the comma before it; a comma may end them.
def moreElements (expression : Parse Node) : Nat → Parse (List Node)
  | 0 => pure []
  | n + 1 => do
    if ← nextIs .comma then
      advance
      if ← nextIs .rightParen then pure []
      else
        let first ← expression
        let rest ← moreElements expression n
        pure (first :: rest)
    else pure []

-- What stands between parentheses: nothing, which is null, an expression, or a tuple.
def parenthesized (expression : Parse Node) (place : Place) : Parse Node := do
  if ← nextIs .rightParen then
    advance
    pure (.literal place .null (.str "Null"))
  else
    let first ← expression
    let node ←
      if ← nextIs .comma then do
        let rest ← loop (moreElements expression)
        pure (Node.tuple place (.list (first :: rest)))
      else pure first
    discard <| expect .rightParen
    pure node

-- What the opening token `t`, already taken, begins: an array, parentheses or a signed operand.
def nested (sub : Parsers) (t : Token) : Nat → Parse Node
  | 0 => refuse (.tooNested maxNesting) (some t)
  | left + 1 =>
    match t.kind with
    | .leftBracket => do
      let items ← loop (elements (sub.expression left))
      discard <| expect .rightBracket
      pure (.array t.place (.list items))
    | .leftParen => parenthesized (sub.expression left) t.place
    | _ => do
      let value ← sub.primary left
      pure (.unary t.place t.text value)

-- The integer that a text says, or a number cut to one.
def integerOf : Tree → Except Fault Int
  | .str s =>
    match Reading.looseInteger s.toList with
    | .number n => .ok n
    | .tooLong | .malformed => .error .unreadableNumber
  | .int n => .ok n
  | .bool b => .ok (if b then 1 else 0)
  | .real x =>
    match Floating.shape x with
    | .finite f => .ok f.truncate
    | .infinite _ => .error .boundlessNumber
    | .nan => .error .unreadableNumber
  | .null | .list _ | .node .. => .error .wrongData

-- The floating-point number that a text says, or one for a number.
def realOf : Tree → Except Fault Float
  | .str s =>
    match Reading.looseReal? s.toList with
    | some x => .ok x
    | none => .error .unreadableNumber
  | .int n => if (Float.ofInt n).isInf then .error .boundlessNumber else .ok (Float.ofInt n)
  | .bool b => .ok (if b then 1 else 0)
  | .real x => .ok x
  | .null | .list _ | .node .. => .error .wrongData

-- The value of an integer token.
def integerLiteral (t : Token) : Except Refusal Node :=
  match integerOf t.text with
  | .ok n =>
    if n ≤ Word.greatest then .ok (.literal t.place (.int n) (.str "Integer"))
    else .error (.error (.literalOutOfRange t.text.shown) (some t))
  | .error f => .error (.fault f)

-- The value of a real token.
def realLiteral (t : Token) : Except Refusal Node :=
  match realOf t.text with
  | .ok x => .ok (.literal t.place (.real x) (.str "Real"))
  | .error f => .error (.fault f)

def primary (sub : Parsers) (left : Nat) : Parse Node := do
  match ← peek with
  | none => refuse .unexpectedEnd none
  | some t =>
    match t.kind with
    | .ident => do advance; pure (.ident t.place t.text)
    | .integer => do advance; integerLiteral t
    | .real => do advance; realLiteral t
    | .string => do advance; pure (.literal t.place t.text (.str "String"))
    | .not | .leftBracket | .leftParen => do advance; nested sub t left
    | .operator =>
      if isSum t then do advance; nested sub t left else refuse (.unexpectedToken t) (some t)
    | _ => refuse (.unexpectedToken t) (some t)

-- Parsers for which there is no room.
def noRoom : Parsers :=
  let refused : Nat → Parse Node := fun _ => do refuse .nestsTooDeeply (← peek)
  ⟨refused, refused⟩

-- The parsers one level further out than `sub`.
def outward (sub : Parsers) : Parsers where
  expression left := assignment (sub.expression left) (primary sub left)
  primary left := primary sub left

-- The parsers for expressions that stand at most so deep inside each other.
def parsers : Nat → Parsers
  | 0 => noRoom
  | n + 1 => outward (parsers n)

variable [Machine]

-- An expression, with assignment.
def expression (left : Nat) : Parse Node := (parsers Machine.room).expression left

-- An expression that is no assignment.
def comparison (left : Nat) : Parse Node :=
  relation ((parsers Machine.room).expression left) ((parsers Machine.room).primary left)

-- A tuple of names or a single one between parentheses.
def bracketed (left : Nat) : Parse Node := (parsers Machine.room).primary left

end TernLang.Grammar
