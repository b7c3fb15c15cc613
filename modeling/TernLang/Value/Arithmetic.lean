import TernLang.Number.Word
import TernLang.Value.Basic

-- The operators that compute: `+`, `-`, `*`, `/` and `%` between two values, and the signs in front
-- of one.
--
-- An operator between two values of kinds that it is not defined for gives null. Between tuples it
-- works element by element, as far as the shorter one goes.
--
-- The integers that meet here are words: literals and results fit one, and so does what a host has
-- to hand over. A larger integer could be too large for a floating-point number, and for the number
-- of times that a text is repeated.

namespace TernLang

inductive Arithmetic where
  | add
  | sub
  | mul
  | div
  | rem
deriving DecidableEq, Repr

namespace Arithmetic

def symbol : Arithmetic → String
  | add => "+"
  | sub => "-"
  | mul => "*"
  | div => "/"
  | rem => "%"

def ofSymbol? : String → Option Arithmetic
  | "+" => some add
  | "-" => some sub
  | "*" => some mul
  | "/" => some div
  | "%" => some rem
  | _ => none

-- A quotient of floating-point numbers.
def quotient (x y : Float) : Value := if y == 0 then .real (x / y) else .ofFloat (x / y)

-- The results for words are words, except that a quotient is a floating-point number. Every word
-- can be made one.
def ints (op : Arithmetic) (a b : Int) : Except Failure Value :=
  match op with
  | add => .ok (.int (Word.wrap (a + b)))
  | sub => .ok (.int (Word.wrap (a - b)))
  | mul => .ok (.int (Word.wrap (a * b)))
  | div => .ok (quotient (Float.ofInt a) (Float.ofInt b))
  | rem =>
    if b = 0 then .error (.ofCause .remainderByZero)
    else .ok (.int (Word.wrap (Word.remainder a b)))

-- There is no remainder of floating-point numbers.
def reals (op : Arithmetic) (x y : Float) : Value :=
  match op with
  | add => .ofFloat (x + y)
  | sub => .ofFloat (x - y)
  | mul => .ofFloat (x * y)
  | div => quotient x y
  | rem => .null

-- A text as many times as a word says, none if it is negative. An empty text stays empty for every
-- word.
def repeated (s : String) (n : Int) : String :=
  if s.isEmpty then "" else String.ofList (List.replicate n.toNat s.toList).flatten

-- The operator between two values that are not both tuples.
def simple (op : Arithmetic) : Value → Value → Except Failure Value
  | .int a, .int b => op.ints a b
  | .int a, .real y _ => .ok (op.reals (Float.ofInt a) y)
  | .real x _, .int b => .ok (op.reals x (Float.ofInt b))
  | .real x _, .real y _ => .ok (op.reals x y)
  | .str s, .str t => .ok (if op = add then .str (s ++ t) else .null)
  | .str s, .int n => .ok (if op = mul then .str (repeated s n) else .null)
  | .array items, v => .ok (if op = add then .array (items ++ [v]) else .null)
  | _, _ => .ok .null

end Arithmetic

namespace Value

-- As `Arithmetic.simple`, between values only. An operator that is none gives null.
def binaryLeaf (op : Tree) (a b : Value) : Except Failure Value := do
  discard a.kind
  discard b.kind
  match op.text?.bind Arithmetic.ofSymbol? with
  | some arithmetic => arithmetic.simple a b
  | none => .ok .null

mutual

-- An operator between two values.
def binary (op : Tree) : Value → Value → Except Failure Value
  | tuple xs, tuple ys => do return tuple (← binaryAll op xs ys)
  | a, b => binaryLeaf op a b

-- An operator between the elements of two lists.
def binaryAll (op : Tree) : List Value → List Value → Except Failure (List Value)
  | x :: xs, y :: ys => do
    let first ← binary op x y
    let rest ← binaryAll op xs ys
    pure (first :: rest)
  | _, _ => .ok []

end

-- A sign in front of a value. A plus gives the value itself, all else its negative or its
-- opposite.
def unary (op : Tree) (v : Value) : Except Failure Value :=
  if op = .str "+" then .ok v
  else
    match v with
    | bool b => .ok (bool !b)
    | int n => .ok (int (Word.wrap (-n)))
    | real x _ => .ok (ofFloat (-x))
    | v => do
      let kind ← v.kind
      .error (.ofCause (.operandKind op.shown kind))

end Value

end TernLang
