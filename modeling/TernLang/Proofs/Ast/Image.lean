import Mathlib.Tactic.Common
import TernLang.Ast.Alike

-- What sameness of trees looks at. Every tree has an image, in which places are forgotten and
-- numbers stand as quantities, and two trees are the same if their images are equal. So sameness
-- is an equivalence.

namespace TernLang

-- Data as sameness sees it.
inductive Tree.Image where
  | null
  | str (s : String)
  | number (q : Quantity)
  | list (items : List Image)
  | node (type : NodeType) (fields : List Image)

-- Programs as sameness sees them: a node with the data in it and its parts, or what stands in the
-- place of a node.
inductive Node.Image where
  | node (type : NodeType) (data : List Tree.Image) (parts : List Image)
  | list (items : List Image)
  | other (t : Tree.Image)
  | none
  | stray (t : Tree.Image)

namespace Tree

mutual

def image : Tree → Image
  | null => .null
  | str s => .str s
  | list items => .list (imageAll items)
  | node type _ _ fields => .node type (imageAll fields)
  | bool b => .number (.ofInt (if b then 1 else 0))
  | int n => .number (.ofInt n)
  | real x => .number (.ofFloat x)

def imageAll : List Tree → List Image
  | [] => []
  | t :: ts => t.image :: imageAll ts

end

mutual

theorem alike_iff (a b : Tree) : a.alike b = true ↔ a.image = b.image := by
  cases a <;> cases b <;> simp [alike, image, quantity?]
  case list.list as bs => exact alikeAll_iff as bs
  case node.node s _ _ as t _ _ bs => simp [alikeAll_iff as bs]

theorem alikeAll_iff (as bs : List Tree) : alikeAll as bs = true ↔ imageAll as = imageAll bs := by
  cases as <;> cases bs <;> simp [alikeAll, imageAll]
  case cons.cons a as b bs => simp [alike_iff a b, alikeAll_iff as bs]

end

end Tree

namespace Node

mutual

def image : Node → Image
  | program _ ns => .node .program [] [imageItems ns]
  | block _ ns => .node .block [] [imageItems ns]
  | literal _ v t => .node .literal [v.image, t.image] []
  | array _ ns => .node .arrayLit [] [imageItems ns]
  | tuple _ ns => .node .tupleLit [] [imageItems ns]
  | ident _ s => .node .ident [s.image] []
  | compare _ s a b => .node .compareOp [s.image] [a.image, b.image]
  | binary _ s a b => .node .binaryOp [s.image] [a.image, b.image]
  | unary _ s a => .node .unaryOp [s.image] [a.image]
  | assign _ a b => .node .assign [] [a.image, b.image]
  | member _ a b => .node .member [] [a.image, b.image]
  | index _ a b => .node .index [] [a.image, b.image]
  | convert _ a b => .node .conversion [] [a.image, b.image]
  | call _ f ns => .node .call [] [f.image, imageItems ns]
  | declare _ a v => .node .varDecl [] [a.image, imageSome v]
  | parameter _ s t => .node .funcParam [s.image] [imageSome t]
  | function _ s ps r b => .node .funcDecl [s.image] [imageItems ps, imageSome r, b.image]
  | conditional _ a b c => .node .ifStmt [] [a.image, b.image, imageSome c]
  | arm _ a b => .node .caseArm [] [a.image, b.image]
  | cases _ a ns => .node .caseStmt [] [a.image, imageItems ns]
  | stray t => .stray t.image

def imageItems : Items Node → Image
  | .list ns => .list (imageAll ns)
  | .other t => .other t.image

def imageAll : List Node → List Image
  | [] => []
  | n :: ns => n.image :: imageAll ns

def imageSome : Option Node → Image
  | some n => n.image
  | none => .none

end

theorem image_ne_none (n : Node) : n.image ≠ .none := by
  cases n <;> rw [image] <;> exact nofun

-- The type of a node in documents. What is no node has none.
def type? : Node → Option NodeType
  | program .. => some .program
  | block .. => some .block
  | literal .. => some .literal
  | array .. => some .arrayLit
  | tuple .. => some .tupleLit
  | ident .. => some .ident
  | compare .. => some .compareOp
  | binary .. => some .binaryOp
  | unary .. => some .unaryOp
  | assign .. => some .assign
  | member .. => some .member
  | index .. => some .index
  | convert .. => some .conversion
  | call .. => some .call
  | declare .. => some .varDecl
  | parameter .. => some .funcParam
  | function .. => some .funcDecl
  | conditional .. => some .ifStmt
  | arm .. => some .caseArm
  | cases .. => some .caseStmt
  | stray _ => none

def Image.type? : Image → Option NodeType
  | .node type _ _ => some type
  | _ => Option.none

theorem type?_image (n : Node) : n.image.type? = n.type? := by
  cases n <;> rw [image] <;> rfl

theorem type?_eq_of_image {a b : Node} (h : a.image = b.image) : a.type? = b.type? := by
  rw [← type?_image, h, type?_image]

theorem type?_eq_of_alike {a b : Node} (h : a.alike b = true) : a.type? = b.type? := by
  unfold alike at h
  split at h <;> first | rfl | cases h

mutual

theorem alike_iff (m n : Node) : m.alike n = true ↔ m.image = n.image := by
  have off {m n : Node} (h : m.type? ≠ n.type?) : m.alike n = true ↔ m.image = n.image :=
    iff_of_false (fun hc => h (type?_eq_of_alike hc)) fun hc => h (type?_eq_of_image hc)
  cases m with
  | program _ ns =>
    cases n with
    | program _ ms => simp [alike, image, alikeItems_iff ns ms]
    | _ => exact off nofun
  | block _ ns =>
    cases n with
    | block _ ms => simp [alike, image, alikeItems_iff ns ms]
    | _ => exact off nofun
  | array _ ns =>
    cases n with
    | array _ ms => simp [alike, image, alikeItems_iff ns ms]
    | _ => exact off nofun
  | tuple _ ns =>
    cases n with
    | tuple _ ms => simp [alike, image, alikeItems_iff ns ms]
    | _ => exact off nofun
  | literal _ v t =>
    cases n with
    | literal _ w u => simp [alike, image, v.alike_iff w, t.alike_iff u]
    | _ => exact off nofun
  | ident _ s =>
    cases n with
    | ident _ t => simp [alike, image, s.alike_iff t]
    | _ => exact off nofun
  | compare _ s a b =>
    cases n with
    | compare _ t c d => simp [alike, image, s.alike_iff t, alike_iff a c, alike_iff b d, and_assoc]
    | _ => exact off nofun
  | binary _ s a b =>
    cases n with
    | binary _ t c d => simp [alike, image, s.alike_iff t, alike_iff a c, alike_iff b d, and_assoc]
    | _ => exact off nofun
  | unary _ s a =>
    cases n with
    | unary _ t b => simp [alike, image, s.alike_iff t, alike_iff a b]
    | _ => exact off nofun
  | assign _ a b =>
    cases n with
    | assign _ c d => simp [alike, image, alike_iff a c, alike_iff b d]
    | _ => exact off nofun
  | member _ a b =>
    cases n with
    | member _ c d => simp [alike, image, alike_iff a c, alike_iff b d]
    | _ => exact off nofun
  | index _ a b =>
    cases n with
    | index _ c d => simp [alike, image, alike_iff a c, alike_iff b d]
    | _ => exact off nofun
  | convert _ a b =>
    cases n with
    | convert _ c d => simp [alike, image, alike_iff a c, alike_iff b d]
    | _ => exact off nofun
  | arm _ a b =>
    cases n with
    | arm _ c d => simp [alike, image, alike_iff a c, alike_iff b d]
    | _ => exact off nofun
  | call _ f ns =>
    cases n with
    | call _ g ms => simp [alike, image, alike_iff f g, alikeItems_iff ns ms]
    | _ => exact off nofun
  | cases _ f ns =>
    cases n with
    | cases _ g ms => simp [alike, image, alike_iff f g, alikeItems_iff ns ms]
    | _ => exact off nofun
  | declare _ a v =>
    cases n with
    | declare _ b w => simp [alike, image, alike_iff a b, alikeSome_iff v w]
    | _ => exact off nofun
  | parameter _ s v =>
    cases n with
    | parameter _ t w => simp [alike, image, s.alike_iff t, alikeSome_iff v w]
    | _ => exact off nofun
  | function _ s ps r b =>
    cases n with
    | function _ t qs q d =>
      simp [alike, image, s.alike_iff t, alikeItems_iff ps qs, alikeSome_iff r q,
        alike_iff b d, and_assoc]
    | _ => exact off nofun
  | conditional _ a b e =>
    cases n with
    | conditional _ c d f =>
      simp [alike, image, alike_iff a c, alike_iff b d, alikeSome_iff e f, and_assoc]
    | _ => exact off nofun
  | stray s =>
    cases n with
    | stray t => simp [alike, image, s.alike_iff t]
    | _ => exact off nofun
termination_by structural m

theorem alikeItems_iff (a b : Items Node) :
    alikeItems a b = true ↔ imageItems a = imageItems b := by
  cases a <;> cases b <;> simp [alikeItems, imageItems, Tree.alike_iff]
  case list.list as bs => exact alikeAll_iff as bs
termination_by structural a

theorem alikeAll_iff (as bs : List Node) : alikeAll as bs = true ↔ imageAll as = imageAll bs := by
  cases as <;> cases bs <;> simp [alikeAll, imageAll]
  case cons.cons a as b bs => simp [alike_iff a b, alikeAll_iff as bs]
termination_by structural as

theorem alikeSome_iff (a b : Option Node) : alikeSome a b = true ↔ imageSome a = imageSome b := by
  cases a <;> cases b <;> simp [alikeSome, imageSome, image_ne_none, (image_ne_none _).symm]
  case some.some a b => exact alike_iff a b
termination_by structural a

end

end Node

end TernLang
