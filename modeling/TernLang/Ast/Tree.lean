import TernLang.Ast.Schema
import TernLang.Number.Spelling
import TernLang.Text.Quoted

-- Documents of nodes. A document says which nodes there are and what their fields hold, and nothing
-- on whether these hold what the node's type asks for: where a name or a list should be there can
-- be any data.

namespace TernLang

inductive Tree where
  | null
  | bool (b : Bool)
  | int (n : Int)
  | real (x : Float)
  | str (s : String)
  | list (items : List Tree)
  | node (type : NodeType) (line column : Tree) (fields : List Tree)
deriving Inhabited

namespace Tree

mutual

-- The same document, positions and all.
def same : Tree → Tree → Bool
  | null, null => true
  | bool a, bool b => a = b
  | int a, int b => a = b
  | real x, real y => x = y
  | str s, str t => s = t
  | list a, list b => sameAll a b
  | node s a b c, node t d e f => s = t && same a d && same b e && sameAll c f
  | _, _ => false

def sameAll : List Tree → List Tree → Bool
  | [], [] => true
  | a :: as, b :: bs => same a b && sameAll as bs
  | _, _ => false

end

mutual

theorem same_iff (a b : Tree) : same a b = true ↔ a = b := by
  cases a <;> cases b <;> simp [same]
  case list.list a b => exact sameAll_iff a b
  case node.node s a b c t d e f =>
    simp [same_iff a d, same_iff b e, sameAll_iff c f, and_assoc]

theorem sameAll_iff (as bs : List Tree) : sameAll as bs = true ↔ as = bs := by
  cases as <;> cases bs <;> simp [sameAll]
  case cons.cons a as b bs => simp [same_iff a b, sameAll_iff as bs]

end

instance : DecidableEq Tree := fun a b => decidable_of_iff (same a b = true) (same_iff a b)

-- The text, if the data is one.
def text? : Tree → Option String
  | str s => some s
  | _ => none

-- The name of the type of the data.
def typeName : Tree → String
  | null => "NoneType"
  | bool _ => "bool"
  | int _ => "int"
  | real _ => "float"
  | str _ => "str"
  | list _ => "list"
  | node type .. => type.name

-- Whether something can be looked up by the data: lists and nodes are no keys.
def isKey : Tree → Bool
  | list _ | node .. => false
  | _ => true

-- Whether the data says something: null, false, zero and what is empty do not.
def isGiven : Tree → Bool
  | null => false
  | bool b => b
  | int n => n ≠ 0
  | real x =>
    match Floating.shape x with
    | .finite f => f.significand ≠ 0
    | _ => true
  | str s => s ≠ ""
  | list items => !items.isEmpty
  | node .. => true

-- The words for the numbers without digits.
def words : Spelling.Words := ⟨"nan", "inf"⟩

mutual

-- How a message shows data, with quotes around a text. Positions are left out.
def quoted : Tree → String
  | null => "None"
  | bool b => if b then "True" else "False"
  | int n => toString n
  | real x => Spelling.real words x
  | str s => Text.quote s
  | list items => "[" ++ ", ".intercalate (quotedAll items) ++ "]"
  | node type _ _ fields =>
    type.name ++ "(" ++ ", ".intercalate (quotedFields type.fields fields) ++ ")"

def quotedAll : List Tree → List String
  | [] => []
  | t :: ts => t.quoted :: quotedAll ts

def quotedFields : List String → List Tree → List String
  | name :: names, t :: ts => (name ++ "=" ++ t.quoted) :: quotedFields names ts
  | _, _ => []

end

-- As `quoted`, but a text stands as it is.
def shown : Tree → String
  | str s => s
  | t => t.quoted

@[simp]
theorem shown_str (s : String) : (str s).shown = s := rfl

end Tree

end TernLang
