import TernLang.Number.Quantity
import TernLang.Proofs.Number.Decimal

-- A number that is not negative is given by its quantity: there is one zero among these numbers,
-- and all of them are numbers.

namespace TernLang

namespace Fraction

variable {f : Fraction}

theorem numerator_div_denominator (f : Fraction) :
    (f.numerator : ℚ) / f.denominator = f.significand * 2 ^ f.exponent := by
  unfold numerator denominator
  by_cases hneg : f.exponent < 0
  · have hexponent : f.exponent = -(f.exponent.natAbs : Int) := by omega
    rw [if_pos hneg, if_pos hneg, Nat.one_shiftLeft, hexponent, Int.natAbs_neg, Int.natAbs_natCast,
      zpow_neg, zpow_natCast]
    push_cast
    rw [div_eq_mul_inv]
  · have hexponent : f.exponent = (f.exponent.natAbs : Int) := by omega
    rw [if_neg hneg, if_neg hneg, Nat.shiftLeft_eq, hexponent, Int.natAbs_natCast, zpow_natCast]
    push_cast
    rw [div_one]

theorem toRat_of_not_negative (h : f.negative = false) :
    f.toRat = (f.numerator : ℚ) / f.denominator := by
  rw [toRat, signed, if_neg (by simp [h]), Rat.mkRat_eq_div, Int.cast_natCast]

end Fraction

namespace Floating

theorem exists_shape_of_lt {x : Float} (hx : bits x < infiniteBits) :
    ∃ f : Fraction, shape x = .finite f ∧ f.negative = false := by
  refine ⟨_, shape_of_lt hx, ?_⟩
  split <;> rfl

theorem eq_of_ofFloat {x y : Float} (hx : IsNonnegative x) (hy : IsNonnegative y)
    (h : Quantity.ofFloat x = .ofFloat y) : x = y := by
  unfold Quantity.ofFloat at h
  rcases Nat.lt_or_eq_of_le hx with hx | hx <;> rcases Nat.lt_or_eq_of_le hy with hy | hy
  · obtain ⟨f, hf, hfpos⟩ := exists_shape_of_lt hx
    obtain ⟨g, hg, hgpos⟩ := exists_shape_of_lt hy
    rw [hf, hg] at h
    have hvalue : (f.numerator : ℚ) / f.denominator = g.significand * 2 ^ g.exponent := by
      rw [← Fraction.toRat_of_not_negative hfpos, Quantity.value.inj h,
        Fraction.toRat_of_not_negative hgpos, g.numerator_div_denominator]
    rw [← nearest_eq_of_shape hx hf f.denominator_pos f.numerator_div_denominator,
      nearest_eq_of_shape hy hg f.denominator_pos hvalue]
  · obtain ⟨f, hf, -⟩ := exists_shape_of_lt hx
    rw [hf, shape_of_eq hy] at h
    cases h
  · obtain ⟨g, hg, -⟩ := exists_shape_of_lt hy
    rw [shape_of_eq hx, hg] at h
    cases h
  · exact eq_of_bits (hx.trans hy.symm)

end Floating

end TernLang
