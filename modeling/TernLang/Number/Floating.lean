import TernLang.Number.Word

-- What a floating-point number stands for: not a number, an infinity, or an exact binary fraction.

namespace TernLang

-- The fraction `significand * 2 ^ exponent`, or its negative.
structure Fraction where
  negative : Bool
  significand : Nat
  exponent : Int
deriving DecidableEq

namespace Fraction

def signed (f : Fraction) (n : Nat) : Int := if f.negative then -n else n

-- The integer part: what is left when the digits after the point are dropped.
def truncate (f : Fraction) : Int :=
  f.signed <|
    if f.exponent < 0 then f.significand >>> f.exponent.natAbs
    else f.significand <<< f.exponent.natAbs

def IsIntegral (f : Fraction) : Prop :=
  f.exponent < 0 → f.significand % (1 <<< f.exponent.natAbs) = 0

instance (f : Fraction) : Decidable f.IsIntegral := inferInstanceAs (Decidable (_ → _))

-- The absolute value as a quotient of two natural numbers.
def numerator (f : Fraction) : Nat :=
  if f.exponent < 0 then f.significand else f.significand <<< f.exponent.natAbs

def denominator (f : Fraction) : Nat :=
  if f.exponent < 0 then 1 <<< f.exponent.natAbs else 1

theorem denominator_pos (f : Fraction) : 0 < f.denominator := by
  unfold denominator
  split
  · rw [Nat.one_shiftLeft]
    exact Nat.two_pow_pos _
  · decide

-- The fraction as a rational number.
def toRat (f : Fraction) : Rat := mkRat (f.signed f.numerator) f.denominator

end Fraction

namespace Floating

inductive Shape where
  | nan
  | infinite (negative : Bool)
  | finite (value : Fraction)
deriving DecidableEq

-- The bit before the fraction, which is not stored: 2 ^ 52.
def leadingBit : Nat := 0x10000000000000

-- The first of the 64 bits: 2 ^ 63.
def signBit : Nat := 0x8000000000000000

-- Reads the three fields of the 64 bits: sign, exponent and fraction.
def shape (x : Float) : Shape :=
  let bits := x.toBits.toNat
  let negative := decide (signBit ≤ bits)
  let exponent : Nat := bits / leadingBit % 2048
  let fraction : Nat := bits % leadingBit
  if exponent = 2047 then
    if fraction = 0 then .infinite negative else .nan
  else if exponent = 0 then .finite ⟨negative, fraction, -1074⟩
  else .finite ⟨negative, leadingBit + fraction, (exponent : Int) - 1075⟩

-- The integer part as far as a word can hold it, and 0 for what is not a number.
def toWord (x : Float) : Int :=
  match shape x with
  | .nan => 0
  | .infinite negative => if negative then Word.least else Word.greatest
  | .finite f => Word.clamp f.truncate

theorem fits_toWord (x : Float) : Word.Fits (toWord x) := by
  unfold toWord
  split
  · decide
  · split <;> decide
  · exact Word.fits_clamp _

end Floating

end TernLang
