-- JSON values. Integers and floating-point numbers are kept apart, as their texts are: a number
-- with a point or an exponent is the latter. The members of an object stand in order, and of two
-- members with one name the last one counts.

namespace TernLang

inductive Json where
  | null
  | bool (b : Bool)
  | int (n : Int)
  | real (x : Float)
  | str (s : String)
  | list (items : List Json)
  | object (members : List (String × Json))
deriving Inhabited

namespace Json

-- The last entry under a name.
def lookup? {α : Type} (name : String) (members : List (String × α)) : Option α :=
  (members.reverse.find? (·.1 = name)).map (·.2)

mutual

-- How many values stand inside each other.
def height : Json → Nat
  | list items => heightItems items + 1
  | object members => heightMembers members + 1
  | null | bool _ | int _ | real _ | str _ => 1

def heightItems : List Json → Nat
  | [] => 0
  | j :: js => max j.height (heightItems js)

def heightMembers : List (String × Json) → Nat
  | [] => 0
  | (_, j) :: members => max j.height (heightMembers members)

end

end Json

end TernLang
