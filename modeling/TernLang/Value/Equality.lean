import TernLang.Ast.Alike
import TernLang.Value.Basic

-- Equality of values. `equal` is what programs see: two values are equal if they are of one kind
-- and have equal contents. `alike` is looser, and counts only for what declared functions are made
-- of: the numbers and the truth values are compared as quantities, whatever their kind.

namespace TernLang.Value

-- What counts as a number for `alike`.
def looseQuantity? : Value → Option Quantity
  | bool b => some (.ofInt (if b then 1 else 0))
  | v => v.quantity?

-- The origin of what is not a number.
def origin? : Value → Option Origin
  | real _ origin => some origin
  | _ => none

-- Sameness of numbers. What is not a number is the same as another only if both have one origin.
def sameNumber (v w : Value) : Bool :=
  match v.looseQuantity?, w.looseQuantity? with
  | some p, some q => p = q && (p ≠ .nan || v.origin? = w.origin?)
  | _, _ => false

-- The field of an object with a given name.
def field? (name : String) (fields : List (String × Value)) : Option Value :=
  (fields.find? (·.1 = name)).map (·.2)

mutual

-- Sameness of the parts of declared functions.
def alike : Value → Value → Bool
  | null, null => true
  | str s, str t => s = t
  | array xs, array ys | tuple xs, tuple ys => alikeAll xs ys
  | object fields, object others => fields.length = others.length && alikeFields fields others
  | function ⟨name, parameters, result, body⟩, function q =>
    name = q.name && alikeParameters parameters q.parameters && alikeSome result q.result &&
      body.alike q.body
  | builtin b, builtin c => b = c
  | method m receiver bound, method m' receiver' bound' =>
    m = m' && alike receiver receiver' && alikeAll bound bound'
  | alien t, alien u => t.alike u
  | v, w => sameNumber v w

def alikeAll : List Value → List Value → Bool
  | [], [] => true
  | x :: xs, y :: ys => alike x y && alikeAll xs ys
  | _, _ => false

def alikeSome : Option Value → Option Value → Bool
  | none, none => true
  | some x, some y => alike x y
  | _, _ => false

def alikeFields : List (String × Value) → List (String × Value) → Bool
  | [], _ => true
  | (name, v) :: fields, others =>
    (match field? name others with
      | some w => alike v w
      | none => false) && alikeFields fields others

def alikeParameters : List (Tree × Option Value) → List (Tree × Option Value) → Bool
  | [], [] => true
  | (name, sample) :: xs, (name', sample') :: ys =>
    name.alike name' && alikeSome sample sample' && alikeParameters xs ys
  | _, _ => false

end

-- The fields that two objects share by their names.
def haveSameNames (fields others : List (String × Value)) : Bool :=
  fields.length = others.length && fields.all fun f => (field? f.1 others).isSome

-- Equality of two values that hold no others. Data that is no value is refused.
def equalLeaf (a b : Value) : Except Failure Bool := do
  discard a.kind
  discard b.kind
  return match a, b with
    | null, null => true
    | bool b, bool c => b = c
    | int n, int m => n = m
    | real x _, real y _ => (Quantity.ofFloat x).eq (.ofFloat y)
    | str s, str t => s = t
    | builtin b, builtin c => b = c
    | _, _ => false

mutual

-- Equality as programs see it. What is no number differs from everything, methods are equal if
-- they are the same method of equal receivers, and objects if they have the same names with equal
-- values. The first pair of parts that differ decides, or the first that is no value.
def equal : Value → Value → Except Failure Bool
  | array xs, array ys | tuple xs, tuple ys =>
    if xs.length = ys.length then equalAll xs ys else .ok false
  | object fields, object others =>
    if haveSameNames fields others then equalFields fields others else .ok false
  | function p, function q => .ok ((function p).alike (function q))
  | method m receiver _, method m' receiver' _ =>
    if m = m' then equal receiver receiver' else .ok false
  | a, b => equalLeaf a b

def equalAll : List Value → List Value → Except Failure Bool
  | x :: xs, y :: ys => do
    if ← equal x y then equalAll xs ys else return false
  | _, _ => .ok true

def equalFields : List (String × Value) → List (String × Value) → Except Failure Bool
  | [], _ => .ok true
  | (name, v) :: fields, others =>
    match field? name others with
    | some w => do
      if ← equal v w then equalFields fields others else return false
    | none => .ok false

end

end TernLang.Value
