import TernLang.Grammar.Expression
import TernLang.Token.Scan

-- The grammar of statements and programs.

namespace TernLang.Grammar

open Parse

variable [Machine]

-- Statements up to the token at which `done` holds. Semicolons between them are passed over.
def sequence (done : Option Token → Bool) (statement : Parse Node) : Nat → Parse (List Node)
  | 0 => pure []
  | n + 1 => do
    if done (← peek) then pure []
    else if ← nextIs .semicolon then
      advance
      sequence done statement n
    else
      let first ← statement
      let rest ← sequence done statement n
      pure (first :: rest)

-- What a declaration binds: a name, or names between parentheses.
def declared (left : Nat) : Parse Node := do
  let next ← peek
  match next with
  | some t =>
    match t.kind with
    | .ident => do advance; pure (.ident t.place t.text)
    | .leftParen =>
      let target ← bracketed left
      if target.isTarget then pure target else refuse .invalidTarget next
    | _ => refuse (.expectedIdentifier next) next
  | none => refuse (.expectedIdentifier next) next

def declaration (left : Nat) : Parse Node := do
  let start ← expectWord "let"
  let target ← declared left
  let value ←
    if ← nextIs .assign then do
      advance
      some <$> expression left
    else pure none
  discard <| expect .semicolon
  pure (.declare start.place target value)

def conditional (left : Nat) (block : Parse Node) : Parse Node := do
  let start ← expectWord "if"
  let condition ← comparison left
  let thenBlock ← block
  let elseBlock ←
    if ← nextIsWord ["else"] then do
      advance
      some <$> block
    else pure none
  pure (.conditional start.place condition thenBlock elseBlock)

-- The label of a case arm; `default` stands for null, which matches everything.
def label (left : Nat) : Parse Node := do
  let start ← peek
  if ← nextIsWord ["default"] then
    advance
    pure (.literal (start.elim .unknown (·.place)) .null (.str "Null"))
  else expression left

def arm (left : Nat) (block : Parse Node) : Parse Node := do
  let start ← peek
  let label ← label left
  discard <| expect .colon
  let body ← block
  discard <| expect .semicolon
  pure (.arm (start.elim .unknown (·.place)) label body)

def cases (left : Nat) (block : Parse Node) : Parse Node := do
  let start ← expectWord "case"
  let scrutinee ← expression left
  discard <| expectWord "of"
  discard <| expect .leftBrace
  let arms ← loop (upTo .rightBrace (arm left block))
  discard <| expect .rightBrace
  discard <| expect .semicolon
  pure (.cases start.place scrutinee (.list arms))

-- A colon and an expression for a value of the type.
def annotation? (left : Nat) : Parse (Option Node) := do
  if ← nextIs .colon then
    advance
    some <$> comparison left
  else pure none

def parameter (left : Nat) : Parse Node := do
  let next ← peek
  match next with
  | some t =>
    if t.kind = .ident then
      advance
      let type ← annotation? left
      pure (.parameter t.place t.text type)
    else refuse (.expectedParameter next) next
  | none => refuse (.expectedParameter next) next

def function (left : Nat) (block : Parse Node) : Parse Node := do
  let start ← expectWord "func"
  let name ← expect .ident
  discard <| expect .leftParen
  let parameters ← loop (separated .rightParen (parameter left))
  discard <| expect .rightParen
  let result ← annotation? left
  let body ← block
  pure (.function start.place name.text (.list parameters) result body)

-- An expression as a statement. A semicolon has to follow an assignment, and may follow the
-- others.
def evaluation (left : Nat) : Parse Node := do
  let node ← expression left
  if node.isAssign then discard <| expect .semicolon
  else skip .semicolon
  pure node

-- A statement, given the parser for the blocks in it.
def statementOver (left : Nat) (block : Parse Node) : Parse Node := do
  match ← peek with
  | some t =>
    match t.kind with
    | .keyword =>
      if t.text = .str "let" then declaration left
      else if t.text = .str "if" then conditional left block
      else if t.text = .str "case" then cases left block
      else if t.text = .str "func" then function left block
      else refuse (.unexpectedKeyword t.text.quoted) (some t)
    | .leftBrace => block
    | _ => evaluation left
  | none => evaluation left

-- Whether the next token closes a block.
def closes (next : Option Token) : Bool := next.any (·.kind = .rightBrace)

-- A block, when the argument says how many levels may still be opened.
def block : Nat → Parse Node
  | 0 => do
    let start ← expect .leftBrace
    refuse (.tooNested maxNesting) (some start)
  | left + 1 => do
    let start ← expect .leftBrace
    let body ← loop (sequence closes (statementOver left (block left)))
    discard <| expect .rightBrace
    pure (.block start.place (.list body))

def statement (left : Nat) : Parse Node := statementOver left (block left)

-- Statements up to the end of the input.
def program : Parse Node := do
  let body ← loop (sequence Option.isNone (statement maxNesting))
  pure (.program .start (.list body))

-- The tokens before the end of the input, and the place of that end: that of the token which marks
-- it, or else of the last token.
def input (tokens : List Token) : List Token × Place :=
  let before := tokens.takeWhile (·.kind ≠ .endOfInput)
  let mark := (tokens.dropWhile (·.kind ≠ .endOfInput)).head?
  (before, ((mark <|> tokens.getLast?).map (·.place)).getD .unknown)

end TernLang.Grammar

namespace TernLang.Node

variable [Machine]

-- The program that a list of tokens denotes.
def ofTokens (tokens : List Token) : Except Failure Node :=
  let (before, final) := Grammar.input tokens
  match Grammar.program before with
  | .ok (node, _) => .ok node
  | .error refusal => .error (refusal.toFailure final)

-- The program that a source text denotes.
def parse (source : String) : Except Failure Node :=
  match Token.scan source with
  | .ok tokens => ofTokens tokens
  | .error e => .error (.error e)

end TernLang.Node
