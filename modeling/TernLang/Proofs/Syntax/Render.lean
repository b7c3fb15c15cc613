import TernLang.Proofs.Syntax.WellFormed

-- Programs written as tokens, with parentheses only where the grammar needs them.

namespace TernLang

-- The kind of the token that is written for a comparison.
def Comparison.token : Comparison → Token.Kind
  | less => .less
  | lessEqual => .lessEqual
  | greater => .greater
  | greaterEqual => .greaterEqual
  | equal => .equal
  | notEqual => .notEqual

namespace Render

-- A token whose place does not matter.
def word (kind : Token.Kind) (text : String) : Token := ⟨kind, .str text, .unknown⟩

def keyword (text : String) : Token := word .keyword text

def comma : Token := word .comma ","
def dot : Token := word .dot "."
def colon : Token := word .colon ":"
def semicolon : Token := word .semicolon ";"
def equals : Token := word .assign "="
def openParen : Token := word .leftParen "("
def closeParen : Token := word .rightParen ")"
def openBracket : Token := word .leftBracket "["
def closeBracket : Token := word .rightBracket "]"
def openBrace : Token := word .leftBrace "\x7b"
def closeBrace : Token := word .rightBrace "\x7d"

-- The token of a name or of an operator.
def named (kind : Token.Kind) (text : Tree) : Token := ⟨kind, text, .unknown⟩

def comparisonKind (op : Tree) : Token.Kind :=
  ((op.text?.bind Comparison.ofSymbol?).map Comparison.token).getD (.other "")

-- A sign in front of an operand: only two of them are operators as well.
def signKind (op : Tree) : Token.Kind := if op = .str "!" then .not else .operator

-- A natural number with a point so many digits from its end.
def pointed (n places : Nat) : List Char :=
  let digits := Nat.toDigits 10 n
  let padded := List.replicate (places + 1 - digits.length) '0' ++ digits
  padded.take (padded.length - places) ++ '.' :: padded.drop (padded.length - places)

-- Digits enough to be read as an infinity.
def endless : List Char := '1' :: List.replicate 400 '0' ++ ['.']

-- All digits of a floating-point number that is not negative.
def realText (x : Float) : List Char :=
  match Floating.shape x with
  | .finite f => pointed (Shortest.full f).digits (Shortest.full f).exponent.natAbs
  | _ => endless

def literal : Tree → List Token
  | .int n => [word .integer (String.ofList (Nat.toDigits 10 n.toNat))]
  | .real x => [word .real (String.ofList (realText x))]
  | .str s => [word .string s]
  | _ => [openParen, closeParen]

def parens (ts : List Token) : List Token := openParen :: ts ++ [closeParen]

-- Items with commas between them.
def commas : List (List Token) → List Token
  | [] => []
  | [ts] => ts
  | ts :: rest => ts ++ comma :: commas rest

-- A tuple of one has a comma at its end.
def tupleItems : List (List Token) → List Token
  | [ts] => ts ++ [comma]
  | items => commas items

end Render

namespace Node

def isSumOperator (op : Tree) : Bool := op = .str "+" || op = .str "-"

-- How tightly a node holds together: 1 for assignments, 2 for comparisons, 3 and 4 for sums and
-- products, 5 for members, indices, calls and conversions, and 6 for what is never taken apart.
def tightness : Node → Nat
  | assign .. => 1
  | compare .. => 2
  | binary _ op .. => if isSumOperator op then 3 else 4
  | member .. | index .. | call .. | convert .. => 5
  | _ => 6

def isMember : Node → Bool
  | member .. => true
  | _ => false

-- A property of which nothing has to be put in parentheses: a conversion takes one type after the
-- name that it stands at.
def isProperty : Node → Bool
  | convert _ value type => value.tightness = 6 && type.tightness = 6
  | n => n.tightness = 6

-- The places at which an expression may stand, as far as it is put in parentheses there.
inductive Slot where
  -- Where the tightness has to be this at least.
  | atLeast (tightness : Nat)
  -- The value of a conversion.
  | converted
  -- The name after a point.
  | property

-- Whether an expression is put in parentheses at a place.
def isOpen : Slot → Node → Bool
  | .atLeast tightness, n => n.tightness < tightness
  | .converted, n => n.tightness < 5 || n.isMember
  | .property, n => !n.isProperty

def enclose (here : Slot) (n : Node) (ts : List Token) : List Token :=
  if n.isOpen here then Render.parens ts else ts

open Render in
mutual

-- The tokens of an expression, without parentheses around the whole.
@[grind =]
def tokens : Node → List Token
  | literal _ value _ => Render.literal value
  | ident _ name => [named .ident name]
  | array _ (.list es) => openBracket :: commas (tokensAll es) ++ [closeBracket]
  | tuple _ (.list es) => openParen :: tupleItems (tokensAll es) ++ [closeParen]
  | compare _ op a b =>
    enclose (.atLeast 2) a a.tokens ++
      named (comparisonKind op) op :: enclose (.atLeast 3) b b.tokens
  | binary _ op a b =>
    let tightness := if isSumOperator op then 3 else 4
    enclose (.atLeast tightness) a a.tokens ++
      named .operator op :: enclose (.atLeast (tightness + 1)) b b.tokens
  | unary _ op a => named (signKind op) op :: enclose (.atLeast 6) a a.tokens
  | assign _ target value => target.tokens ++ equals :: value.tokens
  | member _ target property =>
    enclose (.atLeast 5) target target.tokens ++ dot :: enclose .property property property.tokens
  | index _ target i =>
    enclose (.atLeast 5) target target.tokens ++ openBracket :: i.tokens ++ [closeBracket]
  | convert _ value type =>
    enclose .converted value value.tokens ++
      keyword "as" :: enclose (.atLeast 6) type type.tokens
  | call _ f (.list args) =>
    enclose (.atLeast 5) f f.tokens ++ openParen :: commas (tokensAll args) ++ [closeParen]
  | _ => []

def tokensAll : List Node → List (List Token)
  | [] => []
  | n :: ns => n.tokens :: tokensAll ns

end

open Render in
-- A colon and a type, if there is one.
def typeTokens : Option Node → List Token
  | none => []
  | some n => colon :: enclose (.atLeast 2) n n.tokens

open Render in
-- An equals sign and a value, if there is one.
def initializer : Option Node → List Token
  | none => []
  | some n => equals :: n.tokens

open Render in
def parameterTokens : Node → List Token
  | parameter _ name type => named .ident name :: typeTokens type
  | _ => []

open Render in
mutual

-- The tokens of a statement.
def statementTokens : Node → List Token
  | declare _ target value => keyword "let" :: target.tokens ++ initializer value ++ [semicolon]
  | function _ name (.list ps) result body =>
    keyword "func" :: named .ident name :: openParen :: commas (ps.map parameterTokens) ++
      closeParen :: typeTokens result ++ body.statementTokens
  | conditional _ condition thenBlock elseBlock =>
    keyword "if" :: enclose (.atLeast 2) condition condition.tokens ++
      thenBlock.statementTokens ++ elseTokens elseBlock
  | cases _ scrutinee (.list arms) =>
    keyword "case" :: scrutinee.tokens ++ keyword "of" :: openBrace :: armTokens arms ++
      [closeBrace, semicolon]
  | block _ (.list ss) => openBrace :: sequenceTokens ss ++ [closeBrace]
  | n => n.tokens ++ [semicolon]

def elseTokens : Option Node → List Token
  | none => []
  | some n => keyword "else" :: n.statementTokens

def armTokens : List Node → List Token
  | [] => []
  | arm _ label body :: ns =>
    label.tokens ++ colon :: body.statementTokens ++ semicolon :: armTokens ns
  | _ :: ns => armTokens ns

def sequenceTokens : List Node → List Token
  | [] => []
  | n :: ns => n.statementTokens ++ sequenceTokens ns

end

-- The tokens of a program, with one for the end of the input.
def render : Node → List Token
  | program _ (.list ss) => sequenceTokens ss ++ [Render.word .endOfInput ""]
  | _ => []

-- What counts as a level when tokens stand inside others. Brackets and signs always do.
structure Cost where
  block : Nat
  -- Arguments, indices and assigned values.
  inner : Nat

-- The levels that the grammar limits for blocks, brackets and signs.
def Cost.nesting : Cost := ⟨1, 0⟩

-- The levels at which an expression is read inside another.
def Cost.room : Cost := ⟨0, 1⟩

@[simp]
theorem Cost.block_nesting : nesting.block = 1 := rfl

@[simp]
theorem Cost.inner_nesting : nesting.inner = 0 := rfl

@[simp]
theorem Cost.block_room : room.block = 0 := rfl

@[simp]
theorem Cost.inner_room : room.inner = 1 := rfl

def encloseLevels (here : Slot) (n : Node) (levels : Nat) : Nat :=
  if n.isOpen here then levels + 1 else levels

mutual

-- How deep the tokens of an expression stand inside each other.
@[grind =]
def levels (cost : Cost) : Node → Nat
  | literal _ value _ => if value = .null then 1 else 0
  | array _ (.list es) | tuple _ (.list es) => levelsAll cost es + 1
  | compare _ _ a b =>
    max (encloseLevels (.atLeast 2) a (a.levels cost))
      (encloseLevels (.atLeast 3) b (b.levels cost))
  | binary _ op a b =>
    let tightness := if isSumOperator op then 3 else 4
    max (encloseLevels (.atLeast tightness) a (a.levels cost))
      (encloseLevels (.atLeast (tightness + 1)) b (b.levels cost))
  | unary _ _ a => encloseLevels (.atLeast 6) a (a.levels cost) + 1
  | assign _ target value => max (target.levels cost) (value.levels cost + cost.inner)
  | member _ target property =>
    max (encloseLevels (.atLeast 5) target (target.levels cost))
      (encloseLevels .property property (property.levels cost))
  | index _ target i =>
    max (encloseLevels (.atLeast 5) target (target.levels cost)) (i.levels cost + cost.inner)
  | convert _ value type =>
    max (encloseLevels .converted value (value.levels cost))
      (encloseLevels (.atLeast 6) type (type.levels cost))
  | call _ f (.list args) =>
    max (encloseLevels (.atLeast 5) f (f.levels cost)) (levelsAll cost args + cost.inner)
  | _ => 0

def levelsAll (cost : Cost) : List Node → Nat
  | [] => 0
  | n :: ns => max (n.levels cost) (levelsAll cost ns)

end

def levelsSome (here : Slot) (cost : Cost) : Option Node → Nat
  | none => 0
  | some n => encloseLevels here n (n.levels cost)

def parameterLevels (cost : Cost) : List Node → Nat
  | [] => 0
  | parameter _ _ type :: ns => max (levelsSome (.atLeast 2) cost type) (parameterLevels cost ns)
  | _ :: ns => parameterLevels cost ns

mutual

-- How deep the tokens of a statement stand inside each other.
def statementLevels (cost : Cost) : Node → Nat
  | declare _ target value => max (target.levels cost) (levelsSome (.atLeast 1) cost value)
  | function _ _ (.list ps) result body =>
    max (parameterLevels cost ps)
      (max (levelsSome (.atLeast 2) cost result) (body.statementLevels cost))
  | conditional _ condition thenBlock elseBlock =>
    max (encloseLevels (.atLeast 2) condition (condition.levels cost))
      (max (thenBlock.statementLevels cost) (elseLevels cost elseBlock))
  | cases _ scrutinee (.list arms) => max (scrutinee.levels cost) (armLevels cost arms)
  | block _ (.list ss) => sequenceLevels cost ss + cost.block
  | n => n.levels cost

def elseLevels (cost : Cost) : Option Node → Nat
  | none => 0
  | some n => n.statementLevels cost

def armLevels (cost : Cost) : List Node → Nat
  | [] => 0
  | arm _ label body :: ns =>
    max (label.levels cost) (max (body.statementLevels cost) (armLevels cost ns))
  | _ :: ns => armLevels cost ns

def sequenceLevels (cost : Cost) : List Node → Nat
  | [] => 0
  | n :: ns => max (n.statementLevels cost) (sequenceLevels cost ns)

end

-- How deep the tokens of a program stand inside each other.
def programLevels (cost : Cost) : Node → Nat
  | program _ (.list ss) => sequenceLevels cost ss
  | _ => 0

mutual

-- The tree without its places.
@[grind =]
def unplaced : Node → Node
  | program _ ns => program .unknown (unplacedItems ns)
  | block _ ns => block .unknown (unplacedItems ns)
  | literal _ value type => literal .unknown value type
  | array _ ns => array .unknown (unplacedItems ns)
  | tuple _ ns => tuple .unknown (unplacedItems ns)
  | ident _ name => ident .unknown name
  | compare _ op a b => compare .unknown op a.unplaced b.unplaced
  | binary _ op a b => binary .unknown op a.unplaced b.unplaced
  | unary _ op a => unary .unknown op a.unplaced
  | assign _ a b => assign .unknown a.unplaced b.unplaced
  | member _ a b => member .unknown a.unplaced b.unplaced
  | index _ a b => index .unknown a.unplaced b.unplaced
  | convert _ a b => convert .unknown a.unplaced b.unplaced
  | call _ f ns => call .unknown f.unplaced (unplacedItems ns)
  | declare _ a b => declare .unknown a.unplaced (unplacedSome b)
  | parameter _ name a => parameter .unknown name (unplacedSome a)
  | function _ name ns r b =>
    function .unknown name (unplacedItems ns) (unplacedSome r) b.unplaced
  | conditional _ a b c => conditional .unknown a.unplaced b.unplaced (unplacedSome c)
  | arm _ a b => arm .unknown a.unplaced b.unplaced
  | cases _ a ns => cases .unknown a.unplaced (unplacedItems ns)
  | stray t => stray t

def unplacedItems : Items Node → Items Node
  | .list ns => .list (unplacedAll ns)
  | .other t => .other t

def unplacedAll : List Node → List Node
  | [] => []
  | n :: ns => n.unplaced :: unplacedAll ns

def unplacedSome : Option Node → Option Node
  | none => none
  | some n => some n.unplaced

end

end Node

end TernLang
