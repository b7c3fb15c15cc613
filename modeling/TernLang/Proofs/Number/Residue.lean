import Mathlib.Data.Int.ModEq
import TernLang.Number.Word

-- Words stand for the integers modulo 2 ^ 64: there is one of them in every class. So it does not
-- matter whether sums, differences and products are wrapped at every step or once at the end, and
-- the signed words of 64 bits compute the same. A remainder needs no wrapping at all.

namespace TernLang.Word

variable {a b n z : Int}

theorem wrap_modEq (z : Int) : wrap z ≡ z [ZMOD 2 ^ 64] := Int.bmod_emod

-- An integer is wrapped by what it is above the least word.
theorem wrap_eq_emod (z : Int) : wrap z = (z - least) % 2 ^ 64 + least := by
  simp only [wrap, Int.bmod, least]
  split <;> omega

theorem wrap_congr (h : a ≡ b [ZMOD 2 ^ 64]) : wrap a = wrap b := by
  have hmod : a % (0x10000000000000000 : Nat) = b % (0x10000000000000000 : Nat) := h
  rw [wrap, wrap, ← Int.emod_bmod a, hmod, Int.emod_bmod]

-- The word of a class is the only one in it.
theorem wrap_eq_iff : wrap z = n ↔ Fits n ∧ n ≡ z [ZMOD 2 ^ 64] := by
  constructor
  · rintro rfl
    exact ⟨fits_wrap z, wrap_modEq z⟩
  · rintro ⟨hn, hmod⟩
    rw [← wrap_congr hmod, wrap_of_fits hn]

theorem toInt_ofInt (z : Int) : (BitVec.ofInt 64 z).toInt = wrap z := BitVec.toInt_ofInt z

-- The bits of a word say which one it is.
theorem toInt_ofInt_of_fits (h : Fits n) : (BitVec.ofInt 64 n).toInt = n := by
  rw [toInt_ofInt, wrap_of_fits h]

theorem ofInt_sub (a b : Int) :
    BitVec.ofInt 64 (a - b) = BitVec.ofInt 64 a - BitVec.ofInt 64 b := by
  rw [Int.sub_eq_add_neg, BitVec.ofInt_add, BitVec.ofInt_neg, BitVec.sub_eq_add_neg]

theorem wrap_neg_wrap (a : Int) : wrap (-wrap a) = wrap (-a) := wrap_congr (wrap_modEq a).neg

section Remainder

-- The remainder of the absolute values, with the sign of the dividend.
theorem remainder_eq_abs_emod_abs (a b : Int) :
    remainder a b = if a < 0 then -(|a| % |b|) else |a| % |b| := by
  have hdivisor (n : Int) : n.tmod b = n.tmod |b| := by
    rcases abs_choice b with h | h
    · rw [h]
    · rw [h, Int.tmod_neg]
  rw [remainder, hdivisor]
  split
  · rename_i hneg
    rw [abs_of_neg hneg, ← Int.tmod_eq_emod_of_nonneg (by omega), Int.neg_tmod, neg_neg]
  · rename_i hpos
    have ha : 0 ≤ a := by omega
    rw [abs_of_nonneg ha, Int.tmod_eq_emod_of_nonneg ha]

-- The quotient that belongs to the remainder is cut toward zero.
theorem quotient_mul_add_remainder (a b : Int) : a.tdiv b * b + remainder a b = a := by
  rw [Int.mul_comm]
  exact Int.mul_tdiv_add_tmod a b

theorem abs_remainder_lt (a : Int) (hb : b ≠ 0) : |remainder a b| < |b| := by
  have hlt : (a.tmod b).natAbs < b.natAbs := by
    rw [Int.natAbs_tmod]
    exact Nat.mod_lt _ (Int.natAbs_pos.2 hb)
  rw [Int.abs_eq_natAbs, Int.abs_eq_natAbs]
  exact_mod_cast hlt

theorem remainder_eq_zero_or_sign_eq (a b : Int) :
    remainder a b = 0 ∨ (remainder a b).sign = a.sign := by
  by_cases hdvd : b ∣ a
  · exact .inl (Int.tmod_eq_zero_of_dvd hdvd)
  · exact .inr ((Int.sign_tmod a b).trans (if_neg hdvd))

-- A remainder lies between zero and the dividend.
theorem fits_remainder (ha : Fits a) (b : Int) : Fits (remainder a b) := by
  have hle : (a.tmod b).natAbs ≤ a.natAbs := by
    rw [Int.natAbs_tmod]
    exact Nat.mod_le _ _
  have hsign := remainder_eq_zero_or_sign_eq a b
  simp only [Fits, least, greatest, remainder] at ha hsign ⊢
  rcases hsign with hzero | hsign
  · omega
  · rcases Int.lt_or_le a 0 with hneg | hpos
    · rw [Int.sign_eq_neg_one_of_neg hneg, Int.sign_eq_neg_one_iff_neg] at hsign
      omega
    · have hnonneg := Int.tmod_nonneg b hpos
      omega

end Remainder

end TernLang.Word
