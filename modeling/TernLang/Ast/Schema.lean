-- The types of nodes in documents, and the names of their fields in order.

namespace TernLang

inductive NodeType where
  | program
  | block
  | literal
  | arrayLit
  | tupleLit
  | ident
  | compareOp
  | binaryOp
  | unaryOp
  | assign
  | member
  | index
  | conversion
  | call
  | varDecl
  | funcParam
  | funcDecl
  | ifStmt
  | caseArm
  | caseStmt
deriving DecidableEq, Repr

namespace NodeType

def name : NodeType → String
  | program => "Program"
  | block => "Block"
  | literal => "Literal"
  | arrayLit => "ArrayLit"
  | tupleLit => "TupleLit"
  | ident => "Ident"
  | compareOp => "CompareOp"
  | binaryOp => "BinaryOp"
  | unaryOp => "UnaryOp"
  | assign => "Assign"
  | member => "Member"
  | index => "Index"
  | conversion => "Conversion"
  | call => "Call"
  | varDecl => "VarDecl"
  | funcParam => "FuncParam"
  | funcDecl => "FuncDecl"
  | ifStmt => "IfStmt"
  | caseArm => "CaseArm"
  | caseStmt => "CaseStmt"

-- The fields after the two of the position.
def fields : NodeType → List String
  | program => ["body"]
  | block => ["statements"]
  | literal => ["value", "literal_type"]
  | arrayLit | tupleLit => ["elements"]
  | ident => ["name"]
  | compareOp | binaryOp => ["op", "left", "right"]
  | unaryOp => ["op", "operand"]
  | assign => ["target", "value"]
  | member => ["target", "prop"]
  | index => ["target", "index"]
  | conversion => ["value", "target_type"]
  | call => ["func", "args"]
  | varDecl => ["target", "expr"]
  | funcParam => ["name", "type_expr"]
  | funcDecl => ["name", "params", "return_type", "body"]
  | ifStmt => ["condition", "then_block", "else_block"]
  | caseArm => ["label", "body"]
  | caseStmt => ["scrutinee", "arms"]

-- The one field that may be left out, as a null.
def isOptional (field : String) : Bool := field = "type_expr"

def all : List NodeType :=
  [program, block, literal, arrayLit, tupleLit, ident, compareOp, binaryOp, unaryOp, assign, member,
   index, conversion, call, varDecl, funcParam, funcDecl, ifStmt, caseArm, caseStmt]

def ofName? (s : String) : Option NodeType := all.find? (·.name = s)

theorem ofName?_name (t : NodeType) : ofName? t.name = some t := by
  cases t <;> decide

end NodeType

end TernLang
