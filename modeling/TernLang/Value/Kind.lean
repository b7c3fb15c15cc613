-- The kinds of values. A declared type restricts a value by its kind only.

namespace TernLang

inductive Kind where
  | null
  | integer
  | real
  | boolean
  | string
  | array
  | object
  | tuple
  | function
  | builtin
  | method
deriving DecidableEq, Repr

namespace Kind

def name : Kind → String
  | null => "Null"
  | integer => "Integer"
  | real => "Real"
  | boolean => "Boolean"
  | string => "String"
  | array => "Array"
  | object => "Object"
  | tuple => "Tuple"
  | function => "Function"
  | builtin => "BuiltInFunction"
  | method => "Method"

end Kind

end TernLang
