import TernLang.Ast.Tree
import TernLang.Json.Basic

-- Documents in JSON. `ofJson` reads a document and `toJson` writes it. Members that a type does not
-- have are passed over.

namespace TernLang.Tree

-- The first thing wrong with a document.
inductive Defect where
  -- A type that is none, as it is shown.
  | unknownType (shown : String)
  -- A type that is a list or an object, by the name of which.
  | structuredType (shape : String)
  | missingField (type : NodeType) (field : String)
  -- A value of a type that documents do not have.
  | notADocument
  | notANode (type : String)
deriving DecidableEq, Repr

def Defect.message : Defect → String
  | unknownType shown => s!"Unknown AST node type: {shown}"
  | structuredType shape => s!"unhashable type: {Text.quote shape}"
  | missingField type field => s!"{type.name} node is missing field {Text.quote field}"
  | notADocument => "Invalid AST object"
  | notANode type => s!"Unsupported node for serialization: {type}"

-- The type that an object gives as its own.
def typeOf : Option Json → Except Defect NodeType
  | some (.str s) =>
    match NodeType.ofName? s with
    | some type => .ok type
    | none => .error (.unknownType s)
  | some (.bool b) => .error (.unknownType (bool b).shown)
  | some (.int n) => .error (.unknownType (int n).shown)
  | some (.real x) => .error (.unknownType (real x).shown)
  | some (.list _) => .error (.structuredType "list")
  | some (.object _) => .error (.structuredType "dict")
  | some .null | none => .error (.unknownType null.shown)

-- The contents of an object's members, each with what was wrong in it.
abbrev Contents := List (String × Except Defect Tree)

-- One of the two numbers of a position; 0 where it is left out.
def coordinate (contents : Contents) (name : String) : Except Defect Tree :=
  (Json.lookup? name contents).getD (.ok (.int 0))

-- The fields of a node, in order.
def fieldsOf (contents : Contents) (type : NodeType) : List String → Except Defect (List Tree)
  | [] => .ok []
  | name :: names => do
    let first ←
      match Json.lookup? name contents with
      | some content => content
      | none => if NodeType.isOptional name then .ok .null else .error (.missingField type name)
    let rest ← fieldsOf contents type names
    pure (first :: rest)

-- The node of a type with the given contents.
def assemble (type : NodeType) (contents : Contents) : Except Defect Tree := do
  let line ← coordinate contents "line"
  let column ← coordinate contents "column"
  let fields ← fieldsOf contents type type.fields
  pure (.node type line column fields)

mutual

-- Reads a document. The first defect counts: an object's type, then its fields in order with all
-- that is in them.
def ofJson : Json → Except Defect Tree
  | .null => .ok .null
  | .bool b => .ok (.bool b)
  | .int n => .ok (.int n)
  | .real x => .ok (.real x)
  | .str s => .ok (.str s)
  | .list items => do return .list (← ofJsonList items)
  | .object members => do
    let type ← typeOf (Json.lookup? "type" members)
    assemble type (contentsOf members)

def ofJsonList : List Json → Except Defect (List Tree)
  | [] => .ok []
  | j :: js => do
    let first ← ofJson j
    let rest ← ofJsonList js
    pure (first :: rest)

def contentsOf : List (String × Json) → Contents
  | [] => []
  | (name, j) :: members => (name, ofJson j) :: contentsOf members

end

mutual

-- Writes a document: an object's type, its position, then its fields.
def toJson : Tree → Json
  | .null => .null
  | .bool b => .bool b
  | .int n => .int n
  | .real x => .real x
  | .str s => .str s
  | .list items => .list (toJsonList items)
  | .node type line column fields =>
    .object (("type", .str type.name) :: ("line", line.toJson) :: ("column", column.toJson) ::
      type.fields.zip (toJsonList fields))

def toJsonList : List Tree → List Json
  | [] => []
  | t :: ts => t.toJson :: toJsonList ts

end

end TernLang.Tree
