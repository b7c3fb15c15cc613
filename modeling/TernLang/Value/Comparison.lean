import TernLang.Value.Equality

-- The operators that compare two values. Strings and arrays are compared by their lengths, with
-- each other and with an integer, except that `==` and `!=` compare two of one kind by their
-- contents. Values that cannot be compared make every comparison false.

namespace TernLang

inductive Comparison where
  | less
  | lessEqual
  | greater
  | greaterEqual
  | equal
  | notEqual
deriving DecidableEq, Repr

namespace Comparison

def symbol : Comparison → String
  | less => "<"
  | lessEqual => "<="
  | greater => ">"
  | greaterEqual => ">="
  | equal => "=="
  | notEqual => "!="

def ofSymbol? : String → Option Comparison
  | "<" => some less
  | "<=" => some lessEqual
  | ">" => some greater
  | ">=" => some greaterEqual
  | "==" => some equal
  | "!=" => some notEqual
  | _ => none

def quantities (c : Comparison) (a b : Quantity) : Bool :=
  match c with
  | less => a.lt b
  | lessEqual => a.lt b || a.eq b
  | greater => b.lt a
  | greaterEqual => b.lt a || a.eq b
  | equal => a.eq b
  | notEqual => !a.eq b

-- Two lengths, or a length and an integer.
def sizes (c : Comparison) (a : Nat) (b : Int) : Bool := c.quantities (.ofInt a) (.ofInt b)

-- Contents for `==` and `!=`, and lengths for the other operators.
def contents (c : Comparison) (same : Except Failure Bool) (a b : Nat) : Except Failure Bool :=
  match c with
  | equal => same
  | notEqual => return !(← same)
  | _ => .ok (c.sizes a b)

-- Truth values can only be equal or not.
def truths (c : Comparison) (a b : Bool) : Bool :=
  match c with
  | equal => a = b
  | notEqual => a ≠ b
  | _ => false

def holds (c : Comparison) : Value → Value → Except Failure Bool
  | .int a, .int b => .ok (c.quantities (.ofInt a) (.ofInt b))
  | .int a, .real y _ => .ok (c.quantities (.ofInt a) (.ofFloat y))
  | .real x _, .int b => .ok (c.quantities (.ofFloat x) (.ofInt b))
  | .real x _, .real y _ => .ok (c.quantities (.ofFloat x) (.ofFloat y))
  | .str s, .int n => .ok (c.sizes s.length n)
  | .array xs, .int n => .ok (c.sizes xs.length n)
  | .str s, .str t => c.contents (Value.equal (.str s) (.str t)) s.length t.length
  | .array xs, .array ys => c.contents (Value.equal (.array xs) (.array ys)) xs.length ys.length
  | .bool a, .bool b => .ok (c.truths a b)
  | _, _ => .ok false

end Comparison

namespace Value

-- Compares two values by an operator.
def compare (op : Tree) (a b : Value) : Except Failure Value :=
  match op.text?.bind Comparison.ofSymbol? with
  | some c => do
    discard a.kind
    discard b.kind
    return bool (← c.holds a b)
  | none => .error (.fault (if op.isKey then .unknownComparison op else .wrongData))

end Value

end TernLang
