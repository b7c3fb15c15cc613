import TernLang.Proofs.Number.Rounding

-- Decimals as floating-point numbers: each is rounded, and all digits of a number give it back.

namespace TernLang

namespace Decimal

open Floating

theorem tens_pos (n : Nat) : 0 < tens n := Nat.pow_pos (by decide)

theorem two_pow_le_tens (n : Nat) : 2 ^ (3 * n) ≤ tens n := by
  calc 2 ^ (3 * n) = 8 ^ n := by rw [Nat.pow_mul]
    _ ≤ 10 ^ n := Nat.pow_le_pow_left (by decide) n

theorem two_pow_le_tens_of_lt {n : Nat} (h : 310 < n) : 2 ^ 1024 ≤ tens n := by
  calc 2 ^ 1024 ≤ 10 ^ 311 := by decide +kernel
    _ ≤ 10 ^ n := Nat.pow_le_pow_right (by decide) h

-- A decimal that is found to be too small without working it out is too small.
theorem nearest_of_log2_lt {d : Decimal} (h : d.digits.log2 + 3 * d.exponent < -1076) :
    nearest (d.digits * tens d.exponent.toNat) (tens (-d.exponent).toNat) = Float.ofBits 0 := by
  obtain ⟨n, hn⟩ : ∃ n : Nat, d.exponent = -n := ⟨d.exponent.natAbs, by omega⟩
  have hup : d.exponent.toNat = 0 := by omega
  have hdown : (-d.exponent).toNat = n := by omega
  have hone : tens 0 = 1 := rfl
  rw [hup, hdown, hone, Nat.mul_one, nearest]
  have hpos : (0 : ℚ) < tens n := by exact_mod_cast tens_pos n
  have hsmall : (d.digits : ℚ) / tens n < 2 ^ (-1076 : Int) := by
    have hdigit : (d.digits : ℚ) < 2 ^ ((d.digits.log2 : Int) + 1) := by
      have hnat : d.digits < 2 ^ (d.digits.log2 + 1) := Nat.lt_log2_self
      exact_mod_cast hnat
    have hten : (2 : ℚ) ^ ((3 * n : Nat) : Int) ≤ tens n := by
      rw [zpow_natCast]
      exact_mod_cast two_pow_le_tens n
    rw [div_lt_iff₀ hpos]
    calc (d.digits : ℚ) < 2 ^ ((d.digits.log2 : Int) + 1) := hdigit
      _ ≤ 2 ^ ((-1076 : Int) + (3 * n : Nat)) := by
          apply zpow_le_zpow_right₀ (by norm_num)
          push_cast
          omega
      _ = 2 ^ (-1076 : Int) * 2 ^ ((3 * n : Nat) : Int) := zpow_add₀ (by norm_num) _ _
      _ ≤ 2 ^ (-1076 : Int) * tens n :=
          mul_le_mul_of_nonneg_left hten (zpow_pos (by norm_num) _).le
  rw [nearestBits_of_lt (tens_pos n) hsmall]
  rfl

-- A decimal that is found to be too large without working it out is too large.
theorem nearest_of_exponent_lt {d : Decimal} (hdigits : d.digits ≠ 0) (h : 310 < d.exponent) :
    nearest (d.digits * tens d.exponent.toNat) (tens (-d.exponent).toNat) =
      Float.ofBits (UInt64.ofNat infiniteBits) := by
  have hdown : (-d.exponent).toNat = 0 := by omega
  have hone : tens 0 = 1 := rfl
  have hlarge : (2 : ℚ) ^ (1024 : Int) ≤
      ((d.digits * tens d.exponent.toNat : Nat) : ℚ) / (1 : Nat) := by
    have hten := two_pow_le_tens_of_lt (n := d.exponent.toNat) (by omega)
    have hnat : 2 ^ 1024 ≤ d.digits * tens d.exponent.toNat :=
      Nat.le_trans hten (Nat.le_mul_of_pos_left _ (Nat.pos_of_ne_zero hdigits))
    rw [Nat.cast_one, div_one, show (1024 : Int) = ((1024 : Nat) : Int) from rfl, zpow_natCast]
    exact_mod_cast hnat
  rw [hdown, hone, nearest, nearestBits_of_le (by decide) hlarge]

-- What is not worked out is as if it had been.
theorem toFloat_eq_nearest (d : Decimal) :
    d.toFloat = nearest (d.digits * tens d.exponent.toNat) (tens (-d.exponent).toNat) := by
  unfold toFloat
  by_cases hdigits : d.digits = 0
  · simp [hdigits, nearest, nearestBits]
  · split
    · rename_i h
      exact (nearest_of_log2_lt (h.resolve_left hdigits)).symm
    · split
      · rename_i h
        exact (nearest_of_exponent_lt hdigits h).symm
      · rfl

theorem isNonnegative_toFloat (d : Decimal) : IsNonnegative d.toFloat := by
  rw [toFloat_eq_nearest]
  exact isNonnegative_nearest _ _

-- Zeros at the end of the digits may be counted in the exponent instead.
theorem toFloat_zeros (n k : Nat) (e : Int) :
    toFloat ⟨n * 10 ^ k, e⟩ = toFloat ⟨n, e + k⟩ := by
  rw [toFloat_eq_nearest, toFloat_eq_nearest]
  apply nearest_congr (tens_pos _) (tens_pos _)
  simp only [tens, Nat.pow_eq, Nat.mul_assoc, ← Nat.pow_add]
  congr 2
  omega

end Decimal

namespace Floating

open Decimal

-- The bits of the number nearest to a product with a power of two that is a number itself.
theorem nearestBits_exact {num den m : Nat} {e : Int} (hm : 0 < m) (hden : 0 < den)
    (hvalue : (num : ℚ) / den = m * 2 ^ e)
    (hfits : m < 2 ^ 52 ∧ e = -1074 ∨ 2 ^ 52 ≤ m ∧ m < 2 ^ 53 ∧ -1074 ≤ e) :
    nearestBits num den = min infiniteBits (m + (e + 1074).toNat * leadingBit) := by
  have hpos : (0 : ℚ) < den := by exact_mod_cast hden
  have hmpos : (0 : ℚ) < m := by exact_mod_cast hm
  have hquotient : (0 : ℚ) < num / den := by
    rw [hvalue]
    exact mul_pos hmpos (zpow_pos (by norm_num) _)
  have hnum : 0 < num := by
    have : (0 : ℚ) < num := (div_pos_iff_of_pos_right hpos).1 hquotient
    exact_mod_cast this
  have hscale : scale num den = e := by
    have hlow : ((2 ^ m.log2 : Nat) : ℚ) ≤ m := by
      exact_mod_cast Nat.log2_self_le (by omega)
    have hhigh : (m : ℚ) < (2 ^ (m.log2 + 1) : Nat) := by
      exact_mod_cast Nat.lt_log2_self
    push_cast at hlow hhigh
    have hpow : (0 : ℚ) < 2 ^ e := zpow_pos (by norm_num) _
    rw [scale_eq_of_le_of_lt (k := m.log2 + e) hnum hden]
    · rcases hfits with ⟨hlt, rfl⟩ | ⟨hle, hlt, hexp⟩
      · have hlog : m.log2 < 52 := (Nat.log2_lt (by omega)).2 hlt
        omega
      · have hlog : m.log2 = 52 := (Nat.log2_eq_iff (by omega)).2 ⟨hle, hlt⟩
        omega
    · rw [hvalue, zpow_add₀ (by norm_num), zpow_natCast]
      exact mul_le_mul_of_nonneg_right hlow hpow.le
    · rw [hvalue, add_right_comm, zpow_add₀ (by norm_num)]
      exact mul_lt_mul_of_pos_right (by exact_mod_cast hhigh) hpow
  -- The scaled quotient is the significand, so that nothing is rounded.
  have hscaled : num * 2 ^ (-e).toNat = den * 2 ^ e.toNat * m := by
    rw [two_zpow_eq, mul_div_assoc', div_eq_div_iff hpos.ne' (by positivity)] at hvalue
    have hnat : num * 2 ^ (-e).toNat = m * 2 ^ e.toNat * den := by exact_mod_cast hvalue
    rw [hnat]
    ring
  have hround : roundEven (num <<< (-e).toNat) (den <<< e.toNat) = m := by
    have hshift : 0 < den * 2 ^ e.toNat := Nat.mul_pos hden (Nat.two_pow_pos _)
    rw [Nat.shiftLeft_eq, Nat.shiftLeft_eq, hscaled,
      roundEven_of_dvd hshift (Nat.dvd_mul_right _ _), Nat.mul_div_cancel_left _ hshift]
  unfold nearestBits
  rw [if_neg hnum.ne', hscale]
  simp only [hround]

-- A number that is not negative is the one nearest to its value.
theorem nearest_eq_of_shape {x : Float} {f : Fraction} (hx : bits x < infiniteBits)
    (hf : shape x = .finite f) {num den : Nat} (hden : 0 < den)
    (hvalue : (num : ℚ) / den = f.significand * 2 ^ f.exponent) : nearest num den = x := by
  apply eq_of_bits
  rw [bits_nearest]
  rw [shape_of_lt hx, Shape.finite.injEq] at hf
  have hpos : (0 : ℚ) < den := by exact_mod_cast hden
  by_cases hlt : bits x < leadingBit
  · rw [if_pos hlt] at hf
    subst hf
    by_cases hzero : bits x = 0
    · have hnum : num = 0 := by
        simp only [hzero, Nat.cast_zero, zero_mul, div_eq_zero_iff] at hvalue
        rcases hvalue with h | h
        · exact_mod_cast h
        · exact absurd h hpos.ne'
      rw [hzero, hnum]
      rfl
    · rw [nearestBits_exact (Nat.pos_of_ne_zero hzero) hden hvalue (.inl ⟨hlt, rfl⟩)]
      have hfield : ((-1074 : Int) + 1074).toNat = 0 := rfl
      simp only [hfield, Nat.zero_mul, Nat.add_zero]
      omega
  · rw [if_neg hlt] at hf
    subst hf
    have hdiv : 0 < bits x / leadingBit :=
      (Nat.div_pos_iff (a := bits x) (b := leadingBit)).2 ⟨by decide, by omega⟩
    have hmod : bits x % leadingBit < 2 ^ 52 := Nat.mod_lt _ (by decide)
    have hlead : leadingBit = 2 ^ 52 := rfl
    have hleast : (-1074 : Int) ≤ (bits x / leadingBit : Nat) - 1075 := by omega
    rw [nearestBits_exact (Nat.lt_of_lt_of_le (by decide) (Nat.le_add_right _ _)) hden hvalue
      (.inr ⟨by omega, by omega, hleast⟩)]
    have hfield : ((bits x / leadingBit : Nat) - 1075 + 1074 : Int).toNat =
        bits x / leadingBit - 1 := by
      omega
    have hsum := Nat.div_add_mod (bits x) leadingBit
    simp only [hfield]
    rw [Nat.sub_mul, Nat.mul_comm (bits x / leadingBit)]
    have hle : leadingBit ≤ leadingBit * (bits x / leadingBit) := Nat.le_mul_of_pos_right _ hdiv
    omega

-- All digits of a number that is not negative give it back.
theorem toFloat_full {x : Float} {f : Fraction} (hx : bits x < infiniteBits)
    (hf : shape x = .finite f) : (Shortest.full f).toFloat = x := by
  rw [toFloat_eq_nearest]
  apply nearest_eq_of_shape hx hf (tens_pos _)
  unfold Shortest.full
  by_cases hneg : f.exponent < 0
  · obtain ⟨n, hn⟩ : ∃ n : Nat, f.exponent = -n := ⟨f.exponent.natAbs, by omega⟩
    have habs : f.exponent.natAbs = n := by omega
    have hup : f.exponent.toNat = 0 := by omega
    have hdown : (-f.exponent).toNat = n := by omega
    have hten : (10 : ℚ) ^ n = 2 ^ n * 5 ^ n := by
      rw [← mul_pow]
      norm_num
    simp only [hneg, ite_true, habs, hup, hdown, tens, Nat.pow_eq, Nat.pow_zero, Nat.mul_one]
    push_cast
    rw [hn, zpow_neg, zpow_natCast, hten, mul_div_mul_right _ _ (by positivity), div_eq_mul_inv]
  · obtain ⟨n, hn⟩ : ∃ n : Nat, f.exponent = n := ⟨f.exponent.toNat, by omega⟩
    have habs : f.exponent.natAbs = n := by omega
    simp only [hneg, ite_false, habs, Nat.shiftLeft_eq, tens, Nat.pow_eq]
    rw [hn, zpow_natCast]
    simp

end Floating

end TernLang
