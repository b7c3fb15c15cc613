-- Integers of 64 bits in two's complement, as the integers they stand for.

namespace TernLang.Word

-- The least word is -2 ^ 63.
def least : Int := -0x8000000000000000

-- The greatest word is 2 ^ 63 - 1.
def greatest : Int := 0x7fffffffffffffff

-- The integers that a word can hold.
def Fits (n : Int) : Prop := least ≤ n ∧ n ≤ greatest

instance (n : Int) : Decidable (Fits n) := inferInstanceAs (Decidable (_ ∧ _))

-- The integer that fits and differs from `n` by a multiple of 2 ^ 64.
def wrap (n : Int) : Int := n.bmod 0x10000000000000000

-- The nearest integer that fits.
def clamp (n : Int) : Int := max least (min greatest n)

-- The remainder of the quotient cut toward zero: it has the sign of the dividend.
def remainder (a b : Int) : Int := a.tmod b

theorem fits_wrap (n : Int) : Fits (wrap n) := by
  have lower := Int.le_bmod (x := n) (m := 0x10000000000000000) (by decide)
  have upper := Int.bmod_lt (x := n) (m := 0x10000000000000000) (by decide)
  simp only [Fits, wrap, least, greatest]
  omega

theorem wrap_of_fits {n : Int} (h : Fits n) : wrap n = n := by
  simp only [Fits, least, greatest] at h
  apply Int.bmod_eq_of_le <;> omega

theorem fits_clamp (n : Int) : Fits (clamp n) := by
  simp only [Fits, clamp, least, greatest]
  omega

end TernLang.Word
