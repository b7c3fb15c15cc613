import TernLang.Number.Floating

-- Rounding: the floating-point number nearest to a quotient, of two equally near ones the one with
-- an even significand.

namespace TernLang.Floating

-- The integer nearest to a quotient, of two equally near ones the even one.
def roundEven (num den : Nat) : Nat :=
  let low := num / den
  let rest := num % den
  if 2 * rest < den ∨ 2 * rest = den ∧ low % 2 = 0 then low else low + 1

-- The greatest `k` with `2 ^ k ≤ num / den`, for positive numbers.
def binade (num den : Nat) : Int :=
  let k : Int := (num.log2 : Int) - den.log2
  if den <<< k.toNat ≤ num <<< (-k).toNat then k else k - 1

-- The exponent that leaves 53 bits to the significand, or the least one there is.
def scale (num den : Nat) : Int := max (-1074) (binade num den - 52)

-- The fields of an infinity: an exponent of ones, and no fraction.
def infiniteBits : Nat := 2047 * leadingBit

-- The fields of the number nearest to a quotient. A significand with all of its 53 bits adds one to
-- the exponent field, and one that rounding has made longer adds two.
def nearestBits (num den : Nat) : Nat :=
  if num = 0 then 0
  else
    let e := scale num den
    let significand := roundEven (num <<< (-e).toNat) (den <<< e.toNat)
    min infiniteBits (significand + (e + 1074).toNat * leadingBit)

-- The number nearest to a quotient. From half a step above the greatest number on, it is infinity.
def nearest (num den : Nat) : Float := Float.ofBits (UInt64.ofNat (nearestBits num den))

theorem roundEven_of_dvd {num den : Nat} (hpos : 0 < den) (h : den ∣ num) :
    roundEven num den = num / den := by
  have hrest : num % den = 0 := Nat.mod_eq_zero_of_dvd h
  simp [roundEven, hrest, hpos]

theorem roundEven_mul_left {k : Nat} (hpos : 0 < k) (num den : Nat) :
    roundEven (k * num) (k * den) = roundEven num den := by
  have hlt : 2 * (k * (num % den)) < k * den ↔ 2 * (num % den) < den := by
    rw [Nat.mul_left_comm]
    exact Nat.mul_lt_mul_left hpos
  have heq : 2 * (k * (num % den)) = k * den ↔ 2 * (num % den) = den := by
    rw [Nat.mul_left_comm]
    exact Nat.mul_right_inj (by omega)
  simp only [roundEven, Nat.mul_div_mul_left _ _ hpos, Nat.mul_mod_mul_left, hlt, heq]

end TernLang.Floating
