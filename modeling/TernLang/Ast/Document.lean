import TernLang.Ast.Node

-- Programs and documents. Every program has a document, and `toNode` reads the program back from
-- it. What is no node in a document becomes a stray.

namespace TernLang

namespace Node

-- A node of a document.
def entry (type : NodeType) (p : Place) (fields : List Tree) : Tree :=
  .node type p.line p.column fields

mutual

-- The document of a program.
def toTree : Node → Tree
  | program p body => entry .program p [toTreeItems body]
  | block p statements => entry .block p [toTreeItems statements]
  | literal p value type => entry .literal p [value, type]
  | array p elements => entry .arrayLit p [toTreeItems elements]
  | tuple p elements => entry .tupleLit p [toTreeItems elements]
  | ident p name => entry .ident p [name]
  | compare p op left right => entry .compareOp p [op, left.toTree, right.toTree]
  | binary p op left right => entry .binaryOp p [op, left.toTree, right.toTree]
  | unary p op operand => entry .unaryOp p [op, operand.toTree]
  | assign p target value => entry .assign p [target.toTree, value.toTree]
  | member p target property => entry .member p [target.toTree, property.toTree]
  | index p target key => entry .index p [target.toTree, key.toTree]
  | convert p value type => entry .conversion p [value.toTree, type.toTree]
  | call p callee args => entry .call p [callee.toTree, toTreeItems args]
  | declare p target value => entry .varDecl p [target.toTree, toTree? value]
  | parameter p name type => entry .funcParam p [name, toTree? type]
  | function p name parameters result body =>
    entry .funcDecl p [name, toTreeItems parameters, toTree? result, body.toTree]
  | conditional p condition thenBlock elseBlock =>
    entry .ifStmt p [condition.toTree, thenBlock.toTree, toTree? elseBlock]
  | arm p label body => entry .caseArm p [label.toTree, body.toTree]
  | cases p scrutinee arms => entry .caseStmt p [scrutinee.toTree, toTreeItems arms]
  | stray t => t

def toTreeItems : Items Node → Tree
  | .list ns => .list (toTrees ns)
  | .other t => t

def toTrees : List Node → List Tree
  | [] => []
  | n :: ns => n.toTree :: toTrees ns

def toTree? : Option Node → Tree
  | none => .null
  | some n => n.toTree

end

end Node

namespace Tree

-- A field that may be left empty, given what it holds as a node.
def optional (t : Tree) (n : Node) : Option Node :=
  match t with
  | null => none
  | _ => some n

mutual

-- The program of a document.
def toNode : Tree → Node
  | node type line column fields =>
    let p : Place := ⟨line, column⟩
    match type, fields with
    | .program, [body] => .program p (toItems body)
    | .block, [statements] => .block p (toItems statements)
    | .literal, [value, type] => .literal p value type
    | .arrayLit, [elements] => .array p (toItems elements)
    | .tupleLit, [elements] => .tuple p (toItems elements)
    | .ident, [name] => .ident p name
    | .compareOp, [op, left, right] => .compare p op left.toNode right.toNode
    | .binaryOp, [op, left, right] => .binary p op left.toNode right.toNode
    | .unaryOp, [op, operand] => .unary p op operand.toNode
    | .assign, [target, value] => .assign p target.toNode value.toNode
    | .member, [target, property] => .member p target.toNode property.toNode
    | .index, [target, index] => .index p target.toNode index.toNode
    | .conversion, [value, type] => .convert p value.toNode type.toNode
    | .call, [function, args] => .call p function.toNode (toItems args)
    | .varDecl, [target, value] => .declare p target.toNode (optional value value.toNode)
    | .funcParam, [name, type] => .parameter p name (optional type type.toNode)
    | .funcDecl, [name, parameters, result, body] =>
      .function p name (toItems parameters) (optional result result.toNode) body.toNode
    | .ifStmt, [condition, thenBlock, elseBlock] =>
      .conditional p condition.toNode thenBlock.toNode (optional elseBlock elseBlock.toNode)
    | .caseArm, [label, body] => .arm p label.toNode body.toNode
    | .caseStmt, [scrutinee, arms] => .cases p scrutinee.toNode (toItems arms)
    | type, fields => .stray (node type line column fields)
  | t => .stray t

-- The nodes of a list.
def toItems : Tree → Items Node
  | list ts => .list (toNodes ts)
  | t => .other t

def toNodes : List Tree → List Node
  | [] => []
  | t :: ts => t.toNode :: toNodes ts

end

end Tree

end TernLang
