import TernLang.Grammar.Statement
import TernLang.Value.Arithmetic
import TernLang.Value.Comparison

-- The trees that the grammar speaks of: statements stand only in the bodies of programs and blocks,
-- and everything else is an expression.

namespace TernLang

namespace Reading

-- Digits with one point among them, and a digit in front.
def IsRealText (cs : List Char) : Prop :=
  ∃ whole places, IsDigits whole ∧ places.all Char.isDigit ∧ cs = whole ++ '.' :: places

end Reading

namespace Node

-- What is asked of the places and the names in a tree.
structure Leaves where
  place : Place → Prop
  name : String → Prop

-- Nothing is asked of them.
def Leaves.any : Leaves := ⟨fun _ => True, fun _ => True⟩

-- The signs in front of an operand.
def signs : List String := ["+", "-", "!"]

-- The value of a literal with its type.
inductive IsLiteral : Tree → Tree → Prop where
  | integer (n : Int) (low : 0 ≤ n) (high : n ≤ Word.greatest) : IsLiteral (.int n) (.str "Integer")
  | real (x : Float) (cs : List Char) (text : Reading.IsRealText cs)
      (value : Grammar.realOf (.str (String.ofList cs)) = .ok x) : IsLiteral (.real x) (.str "Real")
  | string (s : String) : IsLiteral (.str s) (.str "String")
  | null : IsLiteral .null (.str "Null")

-- Names are texts, operators are those of the language, tuples have elements, and only names and
-- nested tuples of names are assigned to.
inductive IsExpression (l : Leaves) : Node → Prop where
  | literal {p : Place} {v t : Tree} (place : l.place p) (value : IsLiteral v t) :
    IsExpression l (.literal p v t)
  | ident {p : Place} {s : String} (place : l.place p) (name : l.name s) :
    IsExpression l (.ident p (.str s))
  | array {p : Place} {es : List Node} (place : l.place p)
    (elements : ∀ e ∈ es, IsExpression l e) : IsExpression l (.array p (.list es))
  | tuple {p : Place} {es : List Node} (place : l.place p) (nonempty : es ≠ [])
    (elements : ∀ e ∈ es, IsExpression l e) : IsExpression l (.tuple p (.list es))
  | compare {p : Place} (c : Comparison) {a b : Node} (place : l.place p)
    (left : IsExpression l a) (right : IsExpression l b) :
    IsExpression l (.compare p (.str c.symbol) a b)
  | binary {p : Place} (c : Arithmetic) {a b : Node} (place : l.place p)
    (left : IsExpression l a) (right : IsExpression l b) :
    IsExpression l (.binary p (.str c.symbol) a b)
  | unary {p : Place} {s : String} {a : Node} (place : l.place p) (sign : s ∈ signs)
    (operand : IsExpression l a) : IsExpression l (.unary p (.str s) a)
  | assign {p : Place} {a b : Node} (place : l.place p) (bound : a.isTarget)
    (target : IsExpression l a) (value : IsExpression l b) : IsExpression l (.assign p a b)
  | member {p : Place} {a b : Node} (place : l.place p) (target : IsExpression l a)
    (property : IsExpression l b) : IsExpression l (.member p a b)
  | index {p : Place} {a b : Node} (place : l.place p) (target : IsExpression l a)
    (index : IsExpression l b) : IsExpression l (.index p a b)
  | convert {p : Place} {a b : Node} (place : l.place p) (value : IsExpression l a)
    (type : IsExpression l b) : IsExpression l (.convert p a b)
  | call {p : Place} {f : Node} {args : List Node} (place : l.place p)
    (function : IsExpression l f) (arguments : ∀ e ∈ args, IsExpression l e) :
    IsExpression l (.call p f (.list args))

-- The parts of a program that are no expressions.
inductive Part where
  | parameter
  | block
  | arm
  | statement

-- The branches of statements are blocks.
inductive IsPart (l : Leaves) : Part → Node → Prop where
  | parameter {p : Place} {s : String} {t : Option Node} (place : l.place p) (name : l.name s)
    (type : ∀ n ∈ t, n.IsExpression l) : IsPart l .parameter (.parameter p (.str s) t)
  | block {p : Place} {ss : List Node} (place : l.place p)
    (statements : ∀ n ∈ ss, IsPart l .statement n) : IsPart l .block (.block p (.list ss))
  | arm {p : Place} {a b : Node} (place : l.place p) (label : a.IsExpression l)
    (body : IsPart l .block b) : IsPart l .arm (.arm p a b)
  | declare {p : Place} {a : Node} {v : Option Node} (place : l.place p) (bound : a.isTarget)
    (target : a.IsExpression l) (value : ∀ n ∈ v, n.IsExpression l) :
    IsPart l .statement (.declare p a v)
  | function {p : Place} {s : String} {ps : List Node} {r : Option Node} {b : Node}
    (place : l.place p) (name : l.name s) (parameters : ∀ n ∈ ps, IsPart l .parameter n)
    (result : ∀ n ∈ r, n.IsExpression l) (body : IsPart l .block b) :
    IsPart l .statement (.function p (.str s) (.list ps) r b)
  | conditional {p : Place} {a b : Node} {c : Option Node} (place : l.place p)
    (condition : a.IsExpression l) (thenBlock : IsPart l .block b)
    (elseBlock : ∀ n ∈ c, IsPart l .block n) : IsPart l .statement (.conditional p a b c)
  | cases {p : Place} {a : Node} {ns : List Node} (place : l.place p)
    (scrutinee : a.IsExpression l) (arms : ∀ n ∈ ns, IsPart l .arm n) :
    IsPart l .statement (.cases p a (.list ns))
  | ofBlock {n : Node} (block : IsPart l .block n) : IsPart l .statement n
  | ofExpression {n : Node} (expression : n.IsExpression l) : IsPart l .statement n

-- A program is a list of statements.
inductive IsProgram (l : Leaves) : Node → Prop where
  | program {p : Place} {ss : List Node} (place : l.place p)
    (statements : ∀ n ∈ ss, IsPart l .statement n) : IsProgram l (.program p (.list ss))

end Node

end TernLang
