import TernLang.Text.Split
import TernLang.Value.Equality
import TernLang.Value.Text

-- Members of values: the methods of strings, arrays and objects, the fields of objects, and the
-- elements of strings and arrays.

namespace TernLang

namespace Method

-- The methods of the values of a kind; the other kinds have no members at all.
def ofKind? : Kind → Option (List Method)
  | .string => some [stringLength, stringIsEmpty, stringSplit]
  | .array => some [arrayLength, arrayIsEmpty]
  | .object => some [objectLength, objectIsEmpty]
  | _ => none

-- Cuts a string at a separator, into its words if there is none, and into its characters if it is
-- empty.
def split (s : String) : List Value → Except Failure Value
  | [] | .null :: _ => .ok (texts (Text.words s.toList))
  | .str sep :: _ =>
    if sep.isEmpty then .ok (texts (s.toList.map ([·])))
    else .ok (texts (Text.splitAt sep.toList s.toList))
  | v :: _ => do
    let kind ← v.kind
    .error (.ofCause (.separatorKind kind))
where
  texts (pieces : List (List Char)) : Value := .array (pieces.map fun p => .str (String.ofList p))

-- Calls a method. Only `split` looks at its arguments.
def call (m : Method) (receiver : Value) (args : List Value) : Except Failure Value :=
  match m, receiver with
  | stringLength, .str s => .ok (.int s.length)
  | stringIsEmpty, .str s => .ok (.bool s.isEmpty)
  | stringSplit, .str s => split s args
  | arrayLength, .array items => .ok (.int items.length)
  | arrayIsEmpty, .array items => .ok (.bool items.isEmpty)
  | objectLength, .object fields => .ok (.int fields.length)
  | objectIsEmpty, .object fields => .ok (.bool fields.isEmpty)
  | _, _ => .ok .null

end Method

namespace Value

-- A member by name: a method comes before a field. Values without members give null.
def property (v : Value) (name : Tree) : Except Failure Value := do
  let kind ← v.kind
  match Method.ofKind? kind with
  | none => .ok null
  | some methods =>
    if name.isKey then
      match name.text?.bind fun s => methods.find? (·.name = s), v with
      | some m, v => .ok (method m v [])
      | none, object fields =>
        match name.text?.bind (field? · fields) with
        | some w => .ok w
        | none => .error (.ofCause (.noProperty name.quoted))
      | none, _ => .error (.ofCause (.noMethod name.quoted kind))
    else .error (.fault .wrongData)

-- The element at an index counted from 0.
def element? {α : Type} (items : List α) (i : Int) : Option α :=
  if i < 0 then none else items[i.toNat]?

-- What stands in brackets after a value: the name of a member, or the place of an element. Past the
-- ends of a string there are spaces.
def index : Value → Value → Except Failure Value
  | v, str name => v.property (.str name)
  | str s, int i => .ok (str ((element? s.toList i).getD ' ').toString)
  | array items, int i => .ok ((element? items i).getD null)
  | _, i => do
    discard i.kind
    .ok null

end Value

end TernLang
