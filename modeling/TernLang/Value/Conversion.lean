import TernLang.Number.Reading
import TernLang.Value.Text

-- Conversions: `as` and `to` with the name of a type.

namespace TernLang.Value

-- The types that a value can be converted to.
inductive Target where
  | integer
  | real
  | boolean
  | string
deriving DecidableEq, Repr

def Target.ofName? : String → Option Target
  | "integer" => some integer
  | "real" => some real
  | "boolean" => some boolean
  | "string" => some string
  | _ => none

def refuseText (s target : String) : Except Failure Value :=
  .error (.ofCause (.notConvertible s target))

-- An optional sign and digits, for an integer that fits a word.
def textToInteger (s : String) : Except Failure Value :=
  match Reading.integer s.toList with
  | .number n => if Word.Fits n then .ok (int n) else refuseText s "integer"
  | .tooLong => .error (.fault .unreadableNumber)
  | .malformed => refuseText s "integer"

def toInteger : Value → Except Failure Value
  | int n => .ok (int n)
  | real x _ => .ok (int (Floating.toWord x))
  | bool b => .ok (int (if b then 1 else 0))
  | str s => textToInteger s
  | _ => .ok null

-- The text of a number, without blanks at its ends and without underscores.
def textToReal (s : String) : Except Failure Value :=
  let cs := s.toList
  if Text.trim cs = cs ∧ '_' ∉ cs then
    match Reading.real? cs with
    | some x => .ok (ofFloat x)
    | none => refuseText s "real"
  else refuseText s "real"

-- Every word can be made a floating-point number.
def toReal : Value → Except Failure Value
  | int n => .ok (real (Float.ofInt n))
  | real x origin => .ok (real x origin)
  | str s => textToReal s
  | _ => .ok null

-- True is what is not zero and what is not empty.
def toBoolean : Value → Value
  | bool b => bool b
  | int n => bool (n ≠ 0)
  | real x _ => bool !((Quantity.ofFloat x).eq (.ofInt 0))
  | str s => bool (s ≠ "")
  | array items => bool !items.isEmpty
  | tuple items => bool !items.isEmpty
  | object fields => bool !fields.isEmpty
  | _ => null

-- The digits of a word are never too many to be written.
def toText : Value → Value
  | int n => str (toString n)
  | real x _ => str (Spelling.shown words x)
  | bool b => str (truth b)
  | str s => str s
  | _ => null

-- A value as one of the type of the given name. What cannot be converted, and a name that is none,
-- give null; only a text can be refused.
def convert (v : Value) (target : Tree) : Except Failure Value := do
  discard v.kind
  match target.text?.bind Target.ofName? with
  | some .integer => v.toInteger
  | some .real => v.toReal
  | some .boolean => .ok v.toBoolean
  | some .string => .ok v.toText
  | none => .ok null

end TernLang.Value
