import Mathlib.Data.Int.Log
import Mathlib.Data.Rat.Floor
import Mathlib.Tactic.Positivity
import Mathlib.Tactic.Ring
import TernLang.Number.Shortest
import TernLang.Proofs.Number.Bits

-- The number nearest to a quotient depends on the quotient alone, and it is the quotient itself
-- where that is a floating-point number.

namespace TernLang.Floating

variable {num den : Nat}

theorem two_zpow_eq (k : Int) : (2 : ℚ) ^ k = 2 ^ k.toNat / 2 ^ (-k).toNat := by
  obtain ⟨n, rfl | rfl⟩ := k.eq_nat_or_neg
  · simp
  · simp

-- Shifts are multiplications by powers of two.
theorem shift_le_shift_iff (hden : 0 < den) (k : Int) :
    den <<< k.toNat ≤ num <<< (-k).toNat ↔ (2 : ℚ) ^ k ≤ num / den := by
  have hpos : (0 : ℚ) < den := by exact_mod_cast hden
  have hpow : (0 : ℚ) < 2 ^ (-k).toNat := by positivity
  rw [two_zpow_eq, div_le_div_iff₀ hpow hpos, Nat.shiftLeft_eq, Nat.shiftLeft_eq,
    Nat.mul_comm den]
  exact_mod_cast Iff.rfl

theorem quotient_lt_zpow (num : Nat) (hden : 0 < den) :
    (num : ℚ) / den < 2 ^ ((num.log2 : Int) - den.log2 + 1) := by
  have hlow : ((2 ^ den.log2 : Nat) : ℚ) ≤ den := by
    exact_mod_cast Nat.log2_self_le (by omega)
  have hhigh : (num : ℚ) < (2 ^ (num.log2 + 1) : Nat) := by
    exact_mod_cast Nat.lt_log2_self
  push_cast at hlow hhigh
  have hpos : (0 : ℚ) < den := by exact_mod_cast hden
  rw [div_lt_iff₀ hpos]
  calc (num : ℚ) < 2 ^ (num.log2 + 1) := hhigh
    _ = 2 ^ ((num.log2 : Int) - den.log2 + 1) * 2 ^ den.log2 := by
        rw [← zpow_natCast, ← zpow_natCast, ← zpow_add₀ (by norm_num)]
        congr 1
        push_cast
        omega
    _ ≤ 2 ^ ((num.log2 : Int) - den.log2 + 1) * den := by
        exact mul_le_mul_of_nonneg_left hlow (zpow_pos (by norm_num) _).le

theorem zpow_lt_quotient (hnum : 0 < num) (hden : 0 < den) :
    2 ^ ((num.log2 : Int) - den.log2 - 1) < (num : ℚ) / den := by
  have hlow : ((2 ^ num.log2 : Nat) : ℚ) ≤ num := by
    exact_mod_cast Nat.log2_self_le (by omega)
  have hhigh : (den : ℚ) < (2 ^ (den.log2 + 1) : Nat) := by
    exact_mod_cast Nat.lt_log2_self
  push_cast at hlow hhigh
  have hpos : (0 : ℚ) < den := by exact_mod_cast hden
  rw [lt_div_iff₀ hpos]
  calc 2 ^ ((num.log2 : Int) - den.log2 - 1) * (den : ℚ)
      < 2 ^ ((num.log2 : Int) - den.log2 - 1) * 2 ^ (den.log2 + 1) := by
        exact mul_lt_mul_of_pos_left hhigh (zpow_pos (by norm_num) _)
    _ = 2 ^ num.log2 := by
        rw [← zpow_natCast, ← zpow_natCast, ← zpow_add₀ (by norm_num)]
        congr 1
        push_cast
        omega
    _ ≤ num := hlow

-- The power of two that is found from the lengths of the two numbers is the right one.
theorem binade_eq_log (hnum : 0 < num) (hden : 0 < den) :
    binade num den = Int.log 2 ((num : ℚ) / den) := by
  have hquotient : (0 : ℚ) < num / den := by positivity
  have hupper := quotient_lt_zpow num hden
  have hlower := zpow_lt_quotient hnum hden
  have hlog (k : Int) : (2 : ℚ) ^ k ≤ num / den ↔ k ≤ Int.log 2 ((num : ℚ) / den) := by
    have := Int.zpow_le_iff_le_log (b := 2) (by norm_num) (x := k) hquotient
    exact_mod_cast this
  have hge := (hlog _).1 hlower.le
  have hle : ¬(num.log2 : Int) - den.log2 + 1 ≤ Int.log 2 ((num : ℚ) / den) := by
    rw [← hlog]
    exact not_le.2 hupper
  unfold binade
  simp only [shift_le_shift_iff hden, hlog]
  split <;> omega

theorem binade_mul_left {k : Nat} (hk : 0 < k) (hnum : 0 < num) (hden : 0 < den) :
    binade (k * num) (k * den) = binade num den := by
  have hne : (k : ℚ) ≠ 0 := by
    exact_mod_cast hk.ne'
  rw [binade_eq_log (Nat.mul_pos hk hnum) (Nat.mul_pos hk hden), binade_eq_log hnum hden]
  push_cast
  rw [mul_div_mul_left _ _ hne]

theorem nearestBits_mul_left {k : Nat} (hk : 0 < k) (num : Nat) (hden : 0 < den) :
    nearestBits (k * num) (k * den) = nearestBits num den := by
  by_cases hnum : num = 0
  · simp [nearestBits, hnum]
  · have hzero : ¬k * num = 0 := (Nat.mul_pos hk (Nat.pos_of_ne_zero hnum)).ne'
    have hscale : scale (k * num) (k * den) = scale num den := by
      rw [scale, binade_mul_left hk (Nat.pos_of_ne_zero hnum) hden, scale]
    unfold nearestBits
    rw [if_neg hnum, if_neg hzero, hscale]
    simp only [Nat.shiftLeft_eq, Nat.mul_assoc, roundEven_mul_left hk]

-- Equal quotients have the same nearest number.
theorem nearest_congr {num' den' : Nat} (hden : 0 < den) (hden' : 0 < den')
    (h : num * den' = num' * den) : nearest num den = nearest num' den' := by
  have hbits : nearestBits num den = nearestBits num' den' := by
    rw [← nearestBits_mul_left hden' num hden, ← nearestBits_mul_left hden num' hden',
      Nat.mul_comm den' num, h, Nat.mul_comm num' den, Nat.mul_comm den' den]
  simp only [nearest, hbits]

theorem bits_nearest (num den : Nat) : bits (nearest num den) = nearestBits num den := by
  apply bits_ofBits_of_le
  unfold nearestBits
  split
  · exact Nat.zero_le _
  · exact Nat.min_le_left _ _

theorem isNonnegative_nearest (num den : Nat) : IsNonnegative (nearest num den) := by
  unfold IsNonnegative
  rw [bits_nearest]
  unfold nearestBits
  split
  · exact Nat.zero_le _
  · exact Nat.min_le_left _ _

-- The scale of a quotient that lies between two powers of two.
theorem scale_eq_of_le_of_lt {k : Int} (hnum : 0 < num) (hden : 0 < den)
    (hlow : (2 : ℚ) ^ k ≤ num / den) (hhigh : (num : ℚ) / den < 2 ^ (k + 1)) :
    scale num den = max (-1074) (k - 52) := by
  have hquotient : (0 : ℚ) < num / den := by positivity
  have hle := (Int.zpow_le_iff_le_log (b := 2) (by norm_num) (x := k) hquotient).1
    (by exact_mod_cast hlow)
  have hlt := (Int.lt_zpow_iff_log_lt (b := 2) (by norm_num) (x := k + 1) hquotient).1
    (by exact_mod_cast hhigh)
  rw [scale, binade_eq_log hnum hden]
  congr 1
  omega

-- A quotient less than a quarter of the least number is rounded to zero.
theorem nearestBits_of_lt (hden : 0 < den) (h : (num : ℚ) / den < 2 ^ (-1076 : Int)) :
    nearestBits num den = 0 := by
  by_cases hnum : num = 0
  · simp [nearestBits, hnum]
  · have hpos : (0 : ℚ) < den := by exact_mod_cast hden
    have hquotient : (0 : ℚ) < num / den := by
      have : (0 : ℚ) < num := by exact_mod_cast Nat.pos_of_ne_zero hnum
      positivity
    have hlog := (Int.lt_zpow_iff_log_lt (b := 2) (by norm_num) (x := -1076) hquotient).1
      (by exact_mod_cast h)
    have hscale : scale num den = -1074 := by
      rw [scale, binade_eq_log (Nat.pos_of_ne_zero hnum) hden]
      omega
    have hsmall : 4 * (num * 2 ^ 1074) < den := by
      have hpow : (2 : ℚ) ^ (-1076 : Int) * (4 * 2 ^ 1074) = 1 := by
        have hfour : (4 : ℚ) * 2 ^ 1074 = 2 ^ (1076 : Int) := by
          rw [show (4 : ℚ) = 2 ^ 2 by norm_num, ← pow_add]
          rfl
        rw [hfour, ← zpow_add₀ (by norm_num)]
        rfl
      have hlt : (num : ℚ) * (4 * 2 ^ 1074) < den := by
        rw [div_lt_iff₀ hpos] at h
        calc (num : ℚ) * (4 * 2 ^ 1074)
            < 2 ^ (-1076 : Int) * den * (4 * 2 ^ 1074) := by
              exact mul_lt_mul_of_pos_right h (by positivity)
          _ = (den : ℚ) := by rw [mul_right_comm, hpow, one_mul]
      have hnat : num * (4 * 2 ^ 1074) < den := by exact_mod_cast hlt
      rwa [Nat.mul_left_comm] at hnat
    have hlow : num * 2 ^ 1074 / den = 0 := Nat.div_eq_of_lt (by omega)
    have hrest : num * 2 ^ 1074 % den = num * 2 ^ 1074 := Nat.mod_eq_of_lt (by omega)
    have hround : roundEven (num * 2 ^ 1074) den = 0 := by
      rw [roundEven, hlow, hrest]
      simp only []
      rw [if_pos (.inl (by omega))]
    unfold nearestBits
    rw [if_neg hnum, hscale]
    have hexponent : (-(-1074 : Int)).toNat = 1074 := rfl
    have hnone : (-1074 : Int).toNat = 0 := rfl
    have hfield : ((-1074 : Int) + 1074).toNat = 0 := rfl
    simp only [Nat.shiftLeft_eq, hexponent, hnone, hfield, Nat.pow_zero, Nat.mul_one, hround,
      Nat.zero_mul, Nat.add_zero, Nat.min_zero]

-- A rounded quotient is at least its integer part.
theorem div_le_roundEven (num den : Nat) : num / den ≤ roundEven num den := by
  unfold roundEven
  simp only []
  split <;> omega

-- A quotient that is greater than every number is rounded to infinity.
theorem nearestBits_of_le (hden : 0 < den) (h : (2 : ℚ) ^ (1024 : Int) ≤ num / den) :
    nearestBits num den = infiniteBits := by
  have hquotient : (0 : ℚ) < num / den := lt_of_lt_of_le (zpow_pos (by norm_num) _) h
  have hpos : (0 : ℚ) < den := by exact_mod_cast hden
  have hnum : 0 < num := by
    have : (0 : ℚ) < num := (div_pos_iff_of_pos_right hpos).1 hquotient
    exact_mod_cast this
  have hlog := (Int.zpow_le_iff_le_log (b := 2) (by norm_num) (x := 1024) hquotient).1
    (by exact_mod_cast h)
  obtain ⟨e, hscale⟩ : ∃ e : Nat, scale num den = e := by
    rw [scale, binade_eq_log hnum hden]
    exact ⟨(max (-1074) (Int.log 2 ((num : ℚ) / den) - 52)).toNat, by omega⟩
  have hbinade : (e : Int) + 52 = Int.log 2 ((num : ℚ) / den) := by
    rw [scale, binade_eq_log hnum hden] at hscale
    omega
  -- The quotient still has all bits of a significand after the scaling.
  have hwhole : 2 ^ 52 ≤ num / (den * 2 ^ e) := by
    have hle := Int.zpow_log_le_self (b := 2) (by norm_num) hquotient
    rw [← hbinade, le_div_iff₀ hpos] at hle
    rw [Nat.le_div_iff_mul_le (Nat.mul_pos hden (Nat.two_pow_pos e))]
    have hcast : ((2 ^ 52 * (den * 2 ^ e) : Nat) : ℚ) ≤ num := by
      calc ((2 ^ 52 * (den * 2 ^ e) : Nat) : ℚ)
          = ((2 : Nat) : ℚ) ^ ((e : Int) + 52) * den := by
            rw [zpow_add₀ (by norm_num), zpow_natCast]
            push_cast
            ring
        _ ≤ num := hle
    exact_mod_cast hcast
  have hround := Nat.le_trans hwhole (div_le_roundEven num (den * 2 ^ e))
  unfold nearestBits
  rw [if_neg hnum.ne', hscale]
  have hnone : (-(e : Int)).toNat = 0 := by omega
  have hsame : (e : Int).toNat = e := rfl
  have hfield : ((e : Int) + 1074).toNat = e + 1074 := rfl
  simp only [Nat.shiftLeft_eq, hnone, hsame, hfield, Nat.pow_zero, Nat.mul_one]
  apply Nat.min_eq_left
  unfold infiniteBits leadingBit
  omega

end TernLang.Floating
