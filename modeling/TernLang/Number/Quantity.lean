import TernLang.Number.Floating

-- Quantities: what integers and floating-point numbers are compared by. No number is rounded for
-- this, so that an integer and a floating-point number are equal only if their values are.

namespace TernLang

inductive Quantity where
  | nan
  | infinite (negative : Bool)
  | value (q : Rat)
deriving DecidableEq

namespace Quantity

def ofInt (n : Int) : Quantity := value n

def ofFloat (x : Float) : Quantity :=
  match Floating.shape x with
  | .nan => nan
  | .infinite negative => infinite negative
  | .finite f => value f.toRat

-- Neither side of a comparison may be no number.
def lt : Quantity → Quantity → Bool
  | nan, _ | _, nan => false
  | infinite a, infinite b => a && !b
  | infinite a, value _ => a
  | value _, infinite b => !b
  | value p, value q => p < q

-- As the programs see it: what is no number differs from everything.
def eq (a b : Quantity) : Bool := a ≠ nan && a = b

theorem eq_iff {a b : Quantity} : a.eq b = true ↔ a ≠ nan ∧ a = b := by
  simp [eq]

end Quantity

end TernLang
