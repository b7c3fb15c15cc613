import TernLang.Scope.Frame
import TernLang.Value.Member

-- Data that an embedding program hands over, and the values it becomes.

namespace TernLang

inductive Host where
  | null
  | bool (b : Bool)
  | int (n : Int)
  | real (x : Float)
  | str (s : String)
  | list (items : List Host)
  | tuple (items : List Host)
  | record (fields : List (String × Host))
  | builtin (b : Builtin)
  -- A method of a receiver by its name, with arguments that come first.
  | method (name : String) (receiver : Host) (bound : List Host)
  -- A value of the language.
  | value (v : Value)
  -- Data of a type that the language does not have.
  | foreign (type : String)
deriving Inhabited

namespace Host

-- A method of a value, or null if the value has none of the name.
def methodOf (name : String) (receiver : Value) (bound : List Value) : Value :=
  let methods := (receiver.kind.toOption.bind Method.ofKind?).getD []
  match methods.find? (·.name = name) with
  | some m => .method m receiver bound
  | none => .null

mutual

-- The value that data becomes: a list becomes an array, a record an object. What already is a value
-- stays as it is.
def toValue : Host → Except Failure Value
  | null => .ok .null
  | bool b => .ok (.bool b)
  | int n => .ok (.int n)
  | real x => .ok (.real x)
  | str s => .ok (.str s)
  | list items => do return .array (← toValues items)
  | tuple items => do return .tuple (← toValues items)
  | record fields => do return .object (← toFields [] fields)
  | builtin b => .ok (.builtin b)
  | method name receiver bound => do
    let value ← receiver.toValue
    return methodOf name value (← toValues bound)
  | value v => do
    discard v.kind
    return v
  | foreign type => .error (.ofCause (.notAValue type))

def toValues : List Host → Except Failure (List Value)
  | [] => .ok []
  | h :: hs => do
    let first ← h.toValue
    let rest ← toValues hs
    pure (first :: rest)

def toFields (done : Bindings Value) : List (String × Host) → Except Failure (Bindings Value)
  | [] => .ok done
  | (name, h) :: fields => do
    let value ← h.toValue
    toFields (done.put name value) fields

end

end Host

end TernLang
