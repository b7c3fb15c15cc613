import TernLang.Ast.Node
import TernLang.Failure
import TernLang.Number.Quantity

-- The values that programs compute with.

namespace TernLang

-- The functions that every program has.
inductive Builtin where
  | print
  | input
  | tup
deriving DecidableEq, Repr

def Builtin.name : Builtin → String
  | print => "print"
  | input => "input"
  | tup => "tup"

def Builtin.all : List Builtin := [print, input, tup]

-- The methods that the values of some kinds have.
inductive Method where
  | stringLength
  | stringIsEmpty
  | stringSplit
  | arrayLength
  | arrayIsEmpty
  | objectLength
  | objectIsEmpty
deriving DecidableEq, Repr

-- The kind of the values that have a method.
def Method.kind : Method → Kind
  | stringLength | stringIsEmpty | stringSplit => .string
  | arrayLength | arrayIsEmpty => .array
  | objectLength | objectIsEmpty => .object

-- A declared function. A parameter, or the result, may have a sample value: only values of its kind
-- are then let through. The body runs among the names of the caller.
structure Procedure (α : Type) where
  name : String
  parameters : List (Tree × Option α)
  result : Option α
  body : Node

-- Where a floating-point number comes from. This counts for what is not a number: two of these are
-- one and the same only if they have one origin.
inductive Origin where
  -- Written in a program, handed over by a host, or a quotient with the divisor 0.
  | shared
  -- The result of an operation, which has no number of its own yet.
  | unnumbered
  -- The result with this number.
  | result (n : Nat)
deriving DecidableEq, Repr

inductive Value where
  | null
  | bool (b : Bool)
  | int (n : Int)
  | real (x : Float) (origin : Origin := .shared)
  | str (s : String)
  | array (items : List Value)
  | tuple (items : List Value)
  -- The names are distinct.
  | object (fields : List (String × Value))
  | function (p : Procedure Value)
  | builtin (b : Builtin)
  -- A method with its receiver, and arguments that come before those of a call.
  | method (m : Method) (receiver : Value) (bound : List Value)
  -- Data of a literal in a document that no value stands for: a null, a list or a node.
  | alien (t : Tree)
deriving Inhabited

namespace Value

-- The kind of a value. Data that is none has no kind.
def kind : Value → Except Failure Kind
  | null => .ok .null
  | bool _ => .ok .boolean
  | int _ => .ok .integer
  | real .. => .ok .real
  | str _ => .ok .string
  | array _ => .ok .array
  | tuple _ => .ok .tuple
  | object _ => .ok .object
  | function _ => .ok .function
  | builtin _ => .ok .builtin
  | method .. => .ok .method
  | alien t => .error (.ofCause (.notAValue t.typeName))

-- The value of a literal.
def ofTree : Tree → Value
  | .bool b => bool b
  | .int n => int n
  | .real x => real x
  | .str s => str s
  | t => alien t

-- The result of an operation on numbers.
def ofFloat (x : Float) : Value := real x (if x.isNaN then .unnumbered else .shared)

-- The value, unless it is the null of a literal: where a value may be left out, that is the same as
-- none.
def given : Value → Option Value
  | alien .null => none
  | v => some v

section Given

variable {P : Value → Prop} {v w : Value}

theorem eq_of_mem_given (h : w ∈ v.given) : w = v := by
  unfold given at h
  split at h
  · cases h
  · exact (Option.some.inj h).symm

theorem forall_mem_given (h : P v) : ∀ w ∈ v.given, P w :=
  fun _ hw => eq_of_mem_given hw ▸ h

theorem forall_mem_bind_given {o : Option Value} (h : ∀ v ∈ o, P v) :
    ∀ w ∈ o.bind given, P w := by
  intro w hw
  obtain ⟨v, hv, hgiven⟩ := Option.bind_eq_some_iff.1 hw
  exact forall_mem_given (h v hv) w hgiven

theorem forall_mem_map_given {vs : List Value} (h : ∀ v ∈ vs, P v) :
    ∀ o ∈ vs.map given, ∀ w ∈ o, P w := by
  intro o ho
  obtain ⟨v, hv, rfl⟩ := List.mem_map.1 ho
  exact forall_mem_given (h v hv)

theorem forall_mem_replicate_none {k : Nat} :
    ∀ o ∈ List.replicate k (none : Option Value), ∀ w ∈ o, P w := by
  intro o ho
  obtain rfl : o = none := List.eq_of_mem_replicate ho
  simp

end Given

-- The quantity of a number.
def quantity? : Value → Option Quantity
  | int n => some (.ofInt n)
  | real x _ => some (.ofFloat x)
  | _ => none

mutual

-- Numbers the new results in a value from `n` on, and gives the number after the last of them.
def number (n : Nat) : Value → Value × Nat
  | real x .unnumbered => (real x (.result n), n + 1)
  | tuple items =>
    let (items, n) := numberAll n items
    (tuple items, n)
  | v => (v, n)

def numberAll (n : Nat) : List Value → List Value × Nat
  | [] => ([], n)
  | v :: vs =>
    let (first, n) := v.number n
    let (rest, n) := numberAll n vs
    (first :: rest, n)

end

end Value

end TernLang
