import TernLang.Number.Spelling
import TernLang.Proofs.Number.Reading

-- What the digits of a spelled number are worth.

namespace TernLang.Spelling

open Reading

theorem natural_append_zeros (cs : List Char) (n : Nat) :
    natural (cs ++ zeros n) = natural cs * 10 ^ n := by
  rw [natural_eq_ofDigitChars, Nat.ofDigitChars_append, zeros, Nat.ofDigitChars_replicate_zero,
    natural_eq_ofDigitChars, Nat.mul_comm]

-- A number has no zero in front, unless it is zero.
theorem head?_toDigits {n : Nat} (hn : 0 < n) : (Nat.toDigits 10 n).head? ≠ some '0' := by
  have hsmall : ∀ m < 10, 0 < m → [m.digitChar].head? ≠ some '0' := by decide
  induction n using Nat.strongRecOn with
  | ind n ih =>
    by_cases hlt : n < 10
    · rw [Nat.toDigits_of_lt_base hlt]
      exact hsmall n hlt hn
    · rw [Nat.toDigits_of_base_le (by decide) (by omega),
        List.head?_append_of_ne_nil _ Nat.toDigits_ne_nil]
      exact ih (n / 10) (by omega) (by omega)

-- What is left of digits without the zeros at their end.
theorem exists_zeros (cs : List Char) :
    ∃ k, cs = (cs.reverse.dropWhile (· = '0')).reverse ++ zeros k := by
  have hzeros : cs.reverse.takeWhile (· = '0') =
      zeros (cs.reverse.takeWhile (· = '0')).length := by
    refine List.eq_replicate_of_mem fun c hc => ?_
    have hall := List.all_eq_true.1 List.all_takeWhile c hc
    simpa using hall
  refine ⟨(cs.reverse.takeWhile (· = '0')).length, ?_⟩
  have hsplit := congrArg List.reverse
    (List.takeWhile_append_dropWhile (p := (· = '0')) (l := cs.reverse))
  rw [List.reverse_append, List.reverse_reverse] at hsplit
  rw [hzeros, zeros, List.reverse_replicate] at hsplit
  exact hsplit.symm

-- The digits that are written stand for the decimal, with the point at the place that goes with
-- them.
structure Stands (digits : List Char) (place : Int) (d : Decimal) : Prop where
  isDigits : IsDigits digits
  head : digits.head? ≠ some '0'
  value : Decimal.toFloat ⟨natural digits, place - digits.length⟩ = d.toFloat

theorem stands_normalize {d : Decimal} (hd : 0 < d.digits) :
    Stands (normalize d).1 (normalize d).2 d := by
  obtain ⟨k, hk⟩ := exists_zeros (Nat.toDigits 10 d.digits)
  have hhead := head?_toDigits hd
  have hall := (isDigits_toDigits d.digits).2
  have hvalue := natural_toDigits d.digits
  have hne : ((Nat.toDigits 10 d.digits).reverse.dropWhile (· = '0')).reverse ≠ [] := by
    intro hnil
    rw [hnil, List.nil_append] at hk
    cases k with
    | zero => exact absurd hk Nat.toDigits_ne_nil
    | succ k => exact hhead (by rw [hk]; rfl)
  simp only [normalize]
  generalize ((Nat.toDigits 10 d.digits).reverse.dropWhile (· = '0')).reverse = kept at hk hne ⊢
  rw [if_neg (by simpa using hne)]
  rw [hk] at hhead hall hvalue ⊢
  rw [List.head?_append_of_ne_nil _ hne] at hhead
  rw [List.all_append, Bool.and_eq_true] at hall
  rw [natural_append_zeros] at hvalue
  refine ⟨⟨hne, hall.1⟩, hhead, ?_⟩
  have hexponent :
      ((kept ++ zeros k).length + d.exponent : Int) - kept.length = d.exponent + k := by
    simp [zeros]
    omega
  rw [hexponent, ← Decimal.toFloat_zeros, hvalue]

end TernLang.Spelling
