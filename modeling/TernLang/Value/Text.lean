import TernLang.Number.Spelling
import TernLang.Text.Quoted
import TernLang.Value.Basic

-- The texts of a value: as `print` shows it, as a trace shows it, and as a host shows it. Only data
-- that is no value has none. Integers are words, whose digits are never too many to be written.

namespace TernLang

namespace Method

def name : Method → String
  | stringLength | arrayLength | objectLength => "length"
  | stringIsEmpty | arrayIsEmpty | objectIsEmpty => "is_empty"
  | stringSplit => "split"

end Method

namespace Value

-- The numbers without digits, as programs see them.
def words : Spelling.Words := ⟨"NaN", "inf"⟩

def truth (b : Bool) : String := if b then "true" else "false"

def commas (parts : List String) : String := ", ".intercalate parts

mutual

-- Whether a value has a text: there is nothing else than values in it.
def hasText : Value → Bool
  | array items | tuple items => haveText items
  | object fields => fieldsHaveText fields
  | alien _ => false
  | _ => true

def haveText : List Value → Bool
  | [] => true
  | v :: vs => v.hasText && haveText vs

def fieldsHaveText : List (String × Value) → Bool
  | [] => true
  | (_, v) :: fields => v.hasText && fieldsHaveText fields

end

mutual

-- The text in traces: strings stand between double quotes.
def debug : Value → String
  | null => "null"
  | bool b => truth b
  | int n => toString n
  | real x _ => Spelling.shown words x
  | str s => "\"" ++ s ++ "\""
  | array items => "[" ++ commas (debugAll items) ++ "]"
  | tuple items => "(" ++ commas (debugAll items) ++ ")"
  | object fields => "\x7b" ++ commas (debugFields fields) ++ "\x7d"
  | function p => "<func " ++ p.name ++ ">"
  | builtin b => "<builtin " ++ b.name ++ ">"
  | method m .. => "<method " ++ m.name ++ ">"
  | alien _ => ""

def debugAll : List Value → List String
  | [] => []
  | v :: vs => v.debug :: debugAll vs

def debugFields : List (String × Value) → List String
  | [] => []
  | (name, v) :: fields => ("\"" ++ name ++ "\": " ++ v.debug) :: debugFields fields

end

mutual

-- The text that `print` shows: strings as they are, also inside arrays.
def display : Value → String
  | str s => s
  | array items => "[" ++ commas (displayAll items) ++ "]"
  | v => v.debug

def displayAll : List Value → List String
  | [] => []
  | v :: vs => v.display :: displayAll vs

end

mutual

-- The text that a host shows. A tuple of one has a comma after it.
def inspect : Value → String
  | null => "null"
  | bool b => if b then "True" else "False"
  | int n => toString n
  | real x _ => Spelling.real Tree.words x
  | str s => Text.quote s
  | array items => "Array([" ++ commas (inspectAll items) ++ "])"
  | tuple [v] => "Tuple((" ++ v.inspect ++ ",))"
  | tuple items => "Tuple((" ++ commas (inspectAll items) ++ "))"
  | object fields => "Object(\x7b" ++ commas (inspectFields fields) ++ "\x7d)"
  | function p => "<func " ++ p.name ++ ">"
  | builtin b => "<builtin " ++ b.name ++ ">"
  | method m .. => "<method " ++ m.name ++ ">"
  | alien t => t.quoted

def inspectAll : List Value → List String
  | [] => []
  | v :: vs => v.inspect :: inspectAll vs

def inspectFields : List (String × Value) → List String
  | [] => []
  | (name, v) :: fields => (Text.quote name ++ ": " ++ v.inspect) :: inspectFields fields

end

end Value

end TernLang
