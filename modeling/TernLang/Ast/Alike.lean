import TernLang.Ast.Node
import TernLang.Number.Quantity

-- Sameness of trees apart from places. Numbers in them are the same if their quantities are, and
-- the truth values count as 0 and 1.

namespace TernLang

namespace Tree

-- The quantity of what counts as a number.
def quantity? : Tree → Option Quantity
  | bool b => some (.ofInt (if b then 1 else 0))
  | int n => some (.ofInt n)
  | real x => some (.ofFloat x)
  | _ => none

mutual

-- The same data but for the places of nodes. What is no number is the same as itself here.
def alike : Tree → Tree → Bool
  | null, null => true
  | str s, str t => s = t
  | list a, list b => alikeAll a b
  | node s _ _ a, node t _ _ b => s = t && alikeAll a b
  | a, b =>
    match a.quantity?, b.quantity? with
    | some p, some q => p = q
    | _, _ => false

def alikeAll : List Tree → List Tree → Bool
  | [], [] => true
  | a :: as, b :: bs => alike a b && alikeAll as bs
  | _, _ => false

end

-- Equality of whole documents: as `alike`, except that a document which is no number at all differs
-- from everything.
def equal (a b : Tree) : Bool := a.alike b && a.quantity? ≠ some .nan

end Tree

namespace Node

mutual

-- The same tree but for places.
def alike : Node → Node → Bool
  | program _ a, program _ b | block _ a, block _ b | array _ a, array _ b | tuple _ a, tuple _ b =>
    alikeItems a b
  | literal _ v s, literal _ w t => v.alike w && s.alike t
  | ident _ s, ident _ t => s.alike t
  | compare _ s a b, compare _ t c d | binary _ s a b, binary _ t c d =>
    s.alike t && alike a c && alike b d
  | unary _ s a, unary _ t b => s.alike t && alike a b
  | assign _ a b, assign _ c d | member _ a b, member _ c d | index _ a b, index _ c d
  | convert _ a b, convert _ c d | arm _ a b, arm _ c d => alike a c && alike b d
  | call _ f a, call _ g b | cases _ f a, cases _ g b => alike f g && alikeItems a b
  | declare _ a v, declare _ b w => alike a b && alikeSome v w
  | parameter _ s a, parameter _ t b => s.alike t && alikeSome a b
  | function _ s a r b, function _ t c q d =>
    s.alike t && alikeItems a c && alikeSome r q && alike b d
  | conditional _ a b e, conditional _ c d f => alike a c && alike b d && alikeSome e f
  | stray s, stray t => s.alike t
  | _, _ => false

def alikeItems : Items Node → Items Node → Bool
  | .list a, .list b => alikeAll a b
  | .other s, .other t => s.alike t
  | _, _ => false

def alikeAll : List Node → List Node → Bool
  | [], [] => true
  | a :: as, b :: bs => alike a b && alikeAll as bs
  | _, _ => false

def alikeSome : Option Node → Option Node → Bool
  | none, none => true
  | some a, some b => alike a b
  | _, _ => false

end

end Node

end TernLang
