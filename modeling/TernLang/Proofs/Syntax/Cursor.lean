import TernLang.Grammar.Statement

-- The grammar once more, as rules that move a position through a list of tokens. The list stays as
-- it is, there may be anything in it and anything past the end of the input, and a counter says how
-- many blocks, brackets and signs stand open.
--
-- Nothing in the rules says that they come to an end. So those that go round, in a loop or by way
-- of each other, take the number of rounds that are left, and stop when it is spent.

namespace TernLang

-- A token as a message names it: the end of the input is none.
def Token.seen? (t : Token) : Option Token := if t.kind = .endOfInput then none else some t

structure Cursor where
  tokens : List Token
  pos : Nat := 0
  depth : Int := 0

namespace Cursor

-- Why reading stops before its end.
inductive Stop where
  | failed (f : Failure)
  | spent
deriving DecidableEq

abbrev Parse := EStateM Stop Cursor

variable {α : Type}

-- The token at the position. Past the end of the list there is one that marks the end, at the place
-- of the last token.
def next (r : Cursor) : Token :=
  r.tokens[r.pos]?.getD ⟨.endOfInput, .str "", (r.tokens.getLast?.map (·.place)).getD .unknown⟩

def spent : Parse α := throw .spent

def refuse (cause : Error.Cause) (t : Token) : Parse α :=
  throw (.failed (.error ⟨cause, t.place⟩))

def peek : Parse Token := do return (← get).next

-- Takes a token. Nothing moves at the end of the input.
def advance : Parse Token := do
  let t ← peek
  if t.kind ≠ .endOfInput then
    modify fun r => { r with pos := r.pos + 1 }
  return t

def nextIs (kind : Token.Kind) : Parse Bool := do return (← peek).kind = kind

def nextIsWord (words : List String) : Parse Bool := do
  let t ← peek
  return t.kind = .keyword && t.isOneOf words

def expect (kind : Token.Kind) : Parse Token := do
  let t ← peek
  if t.kind = kind then advance else refuse (.expectedKind kind t.seen?) t

def expectWord (word : String) : Parse Token := do
  let t ← peek
  if t.kind = .keyword ∧ t.text = .str word then advance
  else refuse (.expectedWord word t.seen?) t

-- One more level is opened at a token. The counter stays up if that is refused.
def enter (t : Token) : Parse Unit := do
  modify fun r => { r with depth := r.depth + 1 }
  if (← get).depth > Grammar.maxNesting then refuse (.tooNested Grammar.maxNesting) t

def leave : Parse Unit := modify fun r => { r with depth := r.depth - 1 }

-- What stands on a level of its own. The level is left however that ends.
def within (t : Token) (body : Parse α) : Parse α := do
  enter t
  try body finally leave

-- A literal, or why its token is none.
def literal (t : Token) : Except Grammar.Refusal Node → Parse Node
  | .ok node => pure node
  | .error refusal => throw (.failed (refusal.toFailure t.place))

-- Items up to a token of the given kind, each followed by a comma or by that token.
def separated (close : Token.Kind) (item : Parse α) : Nat → Parse (List α)
  | 0 => spent
  | n + 1 => do
    if ← nextIs close then pure []
    else
      let first ← item
      if ← nextIs .comma then
        let _ ← advance
      else if !(← nextIs close) then
        let t ← peek
        refuse (.expectedSeparator t.seen?) t
      let rest ← separated close item n
      pure (first :: rest)

-- Items up to a token of the given kind.
def upTo (close : Token.Kind) (item : Parse α) : Nat → Parse (List α)
  | 0 => spent
  | n + 1 => do
    if ← nextIs close then pure []
    else
      let first ← item
      let rest ← upTo close item n
      pure (first :: rest)

-- Expressions. What stands inside them is read by the rules for an expression and a primary that
-- are handed over.

section Expressions

variable (expression primary : Parse Node)

def chain (isOp : Token → Bool) (make : Token → Node → Node → Node) (operand : Parse Node) :
    Nat → Node → Parse Node
  | 0, _ => spent
  | n + 1, node => do
    if isOp (← peek) then
      let t ← advance
      let right ← operand
      chain isOp make operand n (make t node right)
    else pure node

def leftAssociative (isOp : Token → Bool) (make : Token → Node → Node → Node)
    (operand : Parse Node) (n : Nat) : Parse Node := do
  let first ← operand
  chain isOp make operand n first

def conversion : Parse Node := do
  let value ← primary
  if ← nextIsWord ["as", "to"] then
    let t ← advance
    let type ← primary
    pure (.convert t.place value type)
  else pure value

def arguments (n : Nat) : Parse (List Node) := do
  let _ ← expect .leftParen
  let args ← separated .rightParen expression n
  let _ ← expect .rightParen
  pure args

def postfixes : Nat → Node → Parse Node
  | 0, _ => spent
  | n + 1, node => do
    let t ← peek
    match t.kind with
    | .dot =>
      let _ ← advance
      let property ← conversion primary
      postfixes n (.member t.place node property)
    | .leftBracket =>
      let _ ← advance
      let index ← expression
      let _ ← expect .rightBracket
      postfixes n (.index t.place node index)
    | .leftParen =>
      let args ← arguments expression n
      postfixes n (.call t.place node (.list args))
    | .keyword =>
      if t.isOneOf ["as", "to"] then
        let _ ← advance
        let type ← primary
        postfixes n (.convert t.place node type)
      else pure node
    | _ => pure node

def operand (n : Nat) : Parse Node := do
  let first ← conversion primary
  postfixes expression primary n first

def product (n : Nat) : Parse Node :=
  leftAssociative Grammar.isProduct Grammar.makeBinary (operand expression primary n) n

def sum (n : Nat) : Parse Node :=
  leftAssociative Grammar.isSum Grammar.makeBinary (product expression primary n) n

def relation (n : Nat) : Parse Node :=
  leftAssociative Grammar.isRelation Grammar.makeCompare (sum expression primary n) n

def assignment (n : Nat) : Parse Node := do
  let start ← peek
  let left ← relation expression primary n
  if ← nextIs .assign then
    if left.isTarget then
      let _ ← advance
      let value ← expression
      pure (.assign start.place left value)
    else refuse .invalidTarget start
  else pure left

-- The elements of an array literal; the last one may have a comma after it.
def elements : Nat → Parse (List Node)
  | 0 => spent
  | n + 1 => do
    if ← nextIs .rightBracket then pure []
    else
      let first ← expression
      if ← nextIs .comma then
        let _ ← advance
        let rest ← elements n
        pure (first :: rest)
      else pure [first]

-- The elements of a tuple after the first.
def moreElements : Nat → Parse (List Node)
  | 0 => spent
  | n + 1 => do
    if ← nextIs .comma then
      let _ ← advance
      if ← nextIs .rightParen then pure []
      else
        let first ← expression
        let rest ← moreElements n
        pure (first :: rest)
    else pure []

def parenthesized (place : Place) (n : Nat) : Parse Node := do
  if ← nextIs .rightParen then
    let _ ← advance
    pure (.literal place .null (.str "Null"))
  else
    let first ← expression
    let node ←
      if ← nextIs .comma then do
        let rest ← moreElements expression n
        pure (Node.tuple place (.list (first :: rest)))
      else pure first
    let _ ← expect .rightParen
    pure node

-- What the token `t`, which is next, opens.
def nested (t : Token) (n : Nat) : Parse Node := do
  let _ ← advance
  match t.kind with
  | .leftBracket =>
    let items ← elements expression n
    let _ ← expect .rightBracket
    pure (.array t.place (.list items))
  | .leftParen => parenthesized expression t.place n
  | _ =>
    let value ← primary
    pure (.unary t.place t.text value)

def primaryOver (n : Nat) : Parse Node := do
  let t ← peek
  match t.kind with
  | .ident => do let _ ← advance; pure (.ident t.place t.text)
  | .integer => do let _ ← advance; literal t (Grammar.integerLiteral t)
  | .real => do let _ ← advance; literal t (Grammar.realLiteral t)
  | .string => do let _ ← advance; pure (.literal t.place t.text (.str "String"))
  | .not | .leftBracket | .leftParen => within t (nested expression primary t n)
  | .operator =>
    if Grammar.isSum t then within t (nested expression primary t n)
    else refuse (.unexpectedToken t) t
  | .endOfInput => refuse .unexpectedEnd t
  | _ => refuse (.unexpectedToken t) t

end Expressions

mutual

def expression : Nat → Parse Node
  | 0 => spent
  | n + 1 => assignment (expression n) (primaryOver (expression n) (primary n) n) n

def primary : Nat → Parse Node
  | 0 => spent
  | n + 1 => primaryOver (expression n) (primary n) n

end

-- An expression that is no assignment.
def comparison (n : Nat) : Parse Node := relation (expression n) (primary n) n

-- Statements, given the rule for the blocks in them.

section Statements

-- Statements up to the token at which `done` holds. Semicolons between them are passed over.
def sequence (done : Token → Bool) (statement : Parse Node) : Nat → Parse (List Node)
  | 0 => spent
  | n + 1 => do
    if done (← peek) then pure []
    else if ← nextIs .semicolon then
      let _ ← advance
      sequence done statement n
    else
      let first ← statement
      let rest ← sequence done statement n
      pure (first :: rest)

variable (n : Nat) (block : Parse Node)

def declared : Parse Node := do
  let t ← peek
  match t.kind with
  | .ident => do let _ ← advance; pure (.ident t.place t.text)
  | .leftParen =>
    let target ← primary n
    if target.isTarget then pure target else refuse .invalidTarget t
  | _ => refuse (.expectedIdentifier t.seen?) t

def declaration : Parse Node := do
  let start ← expectWord "let"
  let target ← declared n
  let value ←
    if ← nextIs .assign then do
      let _ ← advance
      some <$> expression n
    else pure none
  let _ ← expect .semicolon
  pure (.declare start.place target value)

def conditional : Parse Node := do
  let start ← expectWord "if"
  let condition ← comparison n
  let thenBlock ← block
  let elseBlock ←
    if ← nextIsWord ["else"] then do
      let _ ← advance
      some <$> block
    else pure none
  pure (.conditional start.place condition thenBlock elseBlock)

-- The label of a case arm, which starts at the given token.
def label (start : Token) : Parse Node := do
  if ← nextIsWord ["default"] then
    let _ ← advance
    pure (.literal start.place .null (.str "Null"))
  else expression n

def armOver : Parse Node := do
  let start ← peek
  let label ← label n start
  let _ ← expect .colon
  let body ← block
  let _ ← expect .semicolon
  pure (.arm start.place label body)

def cases : Parse Node := do
  let start ← expectWord "case"
  let scrutinee ← expression n
  let _ ← expectWord "of"
  let _ ← expect .leftBrace
  let arms ← upTo .rightBrace (armOver n block) n
  let _ ← expect .rightBrace
  let _ ← expect .semicolon
  pure (.cases start.place scrutinee (.list arms))

def annotation? : Parse (Option Node) := do
  if ← nextIs .colon then
    let _ ← advance
    some <$> comparison n
  else pure none

def parameter : Parse Node := do
  let t ← peek
  if t.kind = .ident then
    let _ ← advance
    let type ← annotation? n
    pure (.parameter t.place t.text type)
  else refuse (.expectedParameter t.seen?) t

def function : Parse Node := do
  let start ← expectWord "func"
  let name ← expect .ident
  let _ ← expect .leftParen
  let parameters ← separated .rightParen (parameter n) n
  let _ ← expect .rightParen
  let result ← annotation? n
  let body ← block
  pure (.function start.place name.text (.list parameters) result body)

def evaluation : Parse Node := do
  let node ← expression n
  if node.isAssign then
    let _ ← expect .semicolon
  else if ← nextIs .semicolon then
    let _ ← advance
  pure node

def statementOver : Parse Node := do
  let t ← peek
  match t.kind with
  | .keyword =>
    if t.text = .str "let" then declaration n
    else if t.text = .str "if" then conditional n block
    else if t.text = .str "case" then cases n block
    else if t.text = .str "func" then function n block
    else refuse (.unexpectedKeyword t.text.quoted) t
  | .leftBrace => block
  | _ => evaluation n

end Statements

def block : Nat → Parse Node
  | 0 => spent
  | n + 1 => do
    let start ← expect .leftBrace
    let body ← within start do
      let body ← sequence (·.kind = .rightBrace) (statementOver n (block n)) n
      let _ ← expect .rightBrace
      pure body
    pure (.block start.place (.list body))

def statement (n : Nat) : Parse Node := statementOver n (block n)

def arm (n : Nat) : Parse Node := armOver n (block n)

def program (n : Nat) : Parse Node := do
  let body ← sequence (·.kind = .endOfInput) (statement n) n
  pure (.program .start (.list body))

-- The rules that read one part of a program from where it begins.
inductive Rule : Type → Type where
  | statement : Rule Node
  | block : Rule Node
  | declaration : Rule Node
  | conditional : Rule Node
  | cases : Rule Node
  | arm : Rule Node
  | function : Rule Node
  | expression : Rule Node
  | comparison : Rule Node
  | sum : Rule Node
  | product : Rule Node
  | operand : Rule Node
  | arguments : Rule (List Node)
  | conversion : Rule Node
  | primary : Rule Node

def Rule.parse (n : Nat) : Rule α → Parse α
  | .statement => Cursor.statement n
  | .block => Cursor.block n
  | .declaration => Cursor.declaration n
  | .conditional => Cursor.conditional n (Cursor.block n)
  | .cases => Cursor.cases n (Cursor.block n)
  | .arm => Cursor.arm n
  | .function => Cursor.function n (Cursor.block n)
  | .expression => Cursor.expression n
  | .comparison => Cursor.comparison n
  | .sum => Cursor.sum (Cursor.expression n) (Cursor.primary n) n
  | .product => Cursor.product (Cursor.expression n) (Cursor.primary n) n
  | .operand => Cursor.operand (Cursor.expression n) (Cursor.primary n) n
  | .arguments => Cursor.arguments (Cursor.expression n) n
  | .conversion => Cursor.conversion (Cursor.primary n)
  | .primary => Cursor.primary n

end Cursor

end TernLang
