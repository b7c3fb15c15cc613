import TernLang.Place

-- Programs as trees. Every node but the last kind has the place of the token it starts at.
--
-- A tree need not come from the grammar: it may have been read from a document. Then any node can
-- stand in any place, an operator can be any text, and any data can be there for a name, an
-- operator or a list.

namespace TernLang

-- A list, or the data that a document has in place of one.
inductive Items (α : Type) where
  | list (items : List α)
  | other (t : Tree)

-- How many items there are. Of the other data only texts have a length.
def Items.size? {α : Type} : Items α → Option Nat
  | list items => some items.length
  | other (.str s) => some s.length
  | other _ => none

inductive Node where
  | program (place : Place) (body : Items Node)
  | block (place : Place) (statements : Items Node)
  -- The type is `Integer`, `Real`, `String` or `Null`; only the last one is ever asked for.
  | literal (place : Place) (value type : Tree)
  | array (place : Place) (elements : Items Node)
  | tuple (place : Place) (elements : Items Node)
  | ident (place : Place) (name : Tree)
  | compare (place : Place) (op : Tree) (left right : Node)
  | binary (place : Place) (op : Tree) (left right : Node)
  | unary (place : Place) (op : Tree) (operand : Node)
  | assign (place : Place) (target value : Node)
  | member (place : Place) (target property : Node)
  | index (place : Place) (target index : Node)
  | convert (place : Place) (value type : Node)
  | call (place : Place) (function : Node) (args : Items Node)
  | declare (place : Place) (target : Node) (value : Option Node)
  | parameter (place : Place) (name : Tree) (type : Option Node)
  | function (place : Place) (name : Tree) (parameters : Items Node) (result : Option Node)
      (body : Node)
  | conditional (place : Place) (condition thenBlock : Node) (elseBlock : Option Node)
  | arm (place : Place) (label body : Node)
  | cases (place : Place) (scrutinee : Node) (arms : Items Node)
  -- Data that a document has where a node should be.
  | stray (t : Tree)

namespace Node

-- The place of a node; what is no node has none.
def place? : Node → Option Place
  | program p _ | block p _ | literal p _ _ | array p _ | tuple p _ | ident p _ | compare p _ _ _
  | binary p _ _ _ | unary p _ _ | assign p _ _ | member p _ _ | index p _ _ | convert p _ _
  | call p _ _ | declare p _ _ | parameter p _ _ | function p _ _ _ _ | conditional p _ _ _
  | arm p _ _ | cases p _ _ => some p
  | stray _ => none

-- The name of a node's type in documents and traces.
def typeName : Node → String
  | program .. => "Program"
  | block .. => "Block"
  | literal .. => "Literal"
  | array .. => "ArrayLit"
  | tuple .. => "TupleLit"
  | ident .. => "Ident"
  | compare .. => "CompareOp"
  | binary .. => "BinaryOp"
  | unary .. => "UnaryOp"
  | assign .. => "Assign"
  | member .. => "Member"
  | index .. => "Index"
  | convert .. => "Conversion"
  | call .. => "Call"
  | declare .. => "VarDecl"
  | parameter .. => "FuncParam"
  | function .. => "FuncDecl"
  | conditional .. => "IfStmt"
  | arm .. => "CaseArm"
  | cases .. => "CaseStmt"
  | stray t => t.typeName

def isAssign : Node → Bool
  | assign .. => true
  | _ => false

mutual

-- Only names and nested tuples of names can be bound.
def isTarget : Node → Bool
  | ident .. => true
  | tuple _ (.list elements) => areTargets elements
  | _ => false

def areTargets : List Node → Bool
  | [] => true
  | n :: ns => n.isTarget && areTargets ns

end

mutual

-- How deep the tree is.
def nesting : Node → Nat
  | program _ ns | block _ ns | array _ ns | tuple _ ns => nestingItems ns + 1
  | compare _ _ a b | binary _ _ a b | assign _ a b | member _ a b | index _ a b | convert _ a b
  | arm _ a b => max a.nesting b.nesting + 1
  | unary _ _ a => a.nesting + 1
  | call _ f ns | cases _ f ns => max f.nesting (nestingItems ns) + 1
  | declare _ a b => max a.nesting (nestingSome b) + 1
  | parameter _ _ a => nestingSome a + 1
  | function _ _ ns r b => max (nestingItems ns) (max (nestingSome r) b.nesting) + 1
  | conditional _ a b c => max a.nesting (max b.nesting (nestingSome c)) + 1
  | literal .. | ident .. | stray _ => 1

def nestingItems : Items Node → Nat
  | .list ns => nestingAll ns
  | .other _ => 0

def nestingAll : List Node → Nat
  | [] => 0
  | n :: ns => max n.nesting (nestingAll ns)

def nestingSome : Option Node → Nat
  | none => 0
  | some n => n.nesting

end

end Node

end TernLang
