import TernLang.Proofs.Eval.Methods

-- What stands where in the strings and arrays that the operators put together, and how long these
-- are. A place is counted as an integer, so that places in front of the first are covered.

namespace TernLang

namespace Value

section Element

variable {α : Type}

theorem element?_of_neg (xs : List α) {i : Int} (h : i < 0) : element? xs i = none := if_pos h

theorem element?_natCast (xs : List α) (i : Nat) : element? xs i = xs[i]? := by
  have hnonneg : ¬(i : Int) < 0 := by omega
  rw [element?, if_neg hnonneg, Int.toNat_natCast]

theorem element?_of_length_le (xs : List α) {i : Int} (h : xs.length ≤ i) :
    element? xs i = none := by
  obtain ⟨j, rfl⟩ := Int.eq_ofNat_of_zero_le (show 0 ≤ i by omega)
  rw [element?_natCast, List.getElem?_eq_none]
  exact Int.ofNat_le.1 h

theorem element?_append (xs ys : List α) (i : Int) :
    element? (xs ++ ys) i =
      if i < xs.length then element? xs i else element? ys (i - xs.length) := by
  rcases Int.lt_or_le i 0 with hneg | hnonneg
  · rw [if_pos (by omega), element?_of_neg _ hneg, element?_of_neg _ hneg]
  · obtain ⟨j, rfl⟩ := Int.eq_ofNat_of_zero_le hnonneg
    rw [element?_natCast, element?_natCast, List.getElem?_append]
    by_cases hj : j < xs.length
    · rw [if_pos hj, if_pos (by omega)]
    · have hsub : (j : Int) - xs.length = (j - xs.length : Nat) := by omega
      rw [if_neg hj, if_neg (by omega), hsub, element?_natCast]

-- In front of the end a repeated list starts over whenever it comes to its length.
theorem element?_repeated (xs : List α) (n : Nat) (i : Int) :
    element? (List.replicate n xs).flatten i =
      if 0 ≤ i ∧ i < xs.length * n then element? xs (i % xs.length) else none := by
  induction n generalizing i with
  | zero =>
    have hempty : ¬(0 ≤ i ∧ i < (xs.length : Int) * (0 : Nat)) := by simp
    rw [if_neg hempty, List.replicate_zero, List.flatten_nil]
    simp [element?]
  | succ n ih =>
    have hlonger : (xs.length : Int) * (n + 1 : Nat) = xs.length * n + xs.length := by
      rw [Nat.cast_succ, Int.mul_add, Int.mul_one]
    rw [List.replicate_succ, List.flatten_cons, element?_append, ih, Int.sub_emod_right]
    rcases Int.lt_or_le i xs.length with hfirst | hlater
    · rw [if_pos hfirst]
      rcases Int.lt_or_le i 0 with hneg | hnonneg
      · rw [if_neg (by omega), element?_of_neg _ hneg]
      · have hpos : 0 ≤ (xs.length : Int) * n := Int.mul_nonneg (by omega) (by omega)
        rw [if_pos (by omega), Int.emod_eq_of_lt hnonneg hfirst]
    · rw [if_neg (by omega)]
      by_cases hbefore : i < (xs.length : Int) * (n + 1 : Nat)
      · rw [if_pos (by omega), if_pos (by omega)]
      · rw [if_neg (by omega), if_neg (by omega)]

end Element

section Operators

variable (s t : String) (i n : Int)

theorem binary_add_str : (str s).binary (.str "+") (str t) = .ok (str (s ++ t)) := rfl

theorem binary_mul_str :
    (str s).binary (.str "*") (int n) = .ok (str (Arithmetic.repeated s n)) := rfl

theorem binary_add_array (a : List Value) {v : Value} (h : ∃ k, v.kind = .ok k) :
    (array a).binary (.str "+") v = .ok (array (a ++ [v])) := by
  obtain ⟨k, hk⟩ := h
  rw [binary, binaryLeaf, hk]
  · rfl
  · simp

theorem toList_repeated : (Arithmetic.repeated s n).toList =
    (List.replicate n.toNat s.toList).flatten := by
  unfold Arithmetic.repeated
  split
  case isTrue hempty =>
    obtain rfl : s = "" := by simpa using hempty
    simp
  case isFalse => simp

theorem length_repeated : ((Arithmetic.repeated s n).length : Int) = s.length * max n 0 := by
  rw [← String.length_toList, toList_repeated]
  simp [Int.mul_comm, String.length_toList]

theorem index_str : (str s).index (int i) =
    .ok (str ((element? s.toList i).getD ' ').toString) := rfl

theorem index_array (a : List Value) :
    (array a).index (int i) = .ok ((element? a i).getD null) := rfl

theorem index_add_str : (str (s ++ t)).index (int i) =
    if i < s.length then (str s).index (int i) else (str t).index (int (i - s.length)) := by
  simp only [index_str, String.toList_append, element?_append, String.length_toList]
  split <;> rfl

theorem index_mul_str : (str (Arithmetic.repeated s n)).index (int i) =
    if 0 ≤ i ∧ i < s.length * n then (str s).index (int (i % s.length))
    else .ok (str " ") := by
  -- A negative number of repetitions counts as none, and so does its product.
  have hplaces : 0 ≤ i ∧ i < (s.length : Int) * n.toNat ↔ 0 ≤ i ∧ i < (s.length : Int) * n := by
    rcases Int.lt_or_le n 0 with hneg | hnonneg
    · have hproduct : (s.length : Int) * n ≤ 0 :=
        Int.mul_nonpos_of_nonneg_of_nonpos (by omega) (by omega)
      have hnone : n.toNat = 0 := by omega
      rw [hnone, Nat.cast_zero, Int.mul_zero]
      omega
    · rw [Int.toNat_of_nonneg hnonneg]
  simp only [index_str, toList_repeated, element?_repeated, String.length_toList, hplaces]
  split <;> rfl

theorem index_add_array (a : List Value) (v : Value) :
    (array (a ++ [v])).index (int i) =
      if i = a.length then .ok v else (array a).index (int i) := by
  simp only [index_array, element?_append]
  rcases lt_trichotomy i a.length with hbefore | rfl | hbehind
  · rw [if_pos hbefore, if_neg (by omega)]
  · rw [if_neg (by omega), if_pos rfl, Int.sub_self]
    rfl
  · rw [if_neg (by omega), if_neg (by omega), element?_of_length_le [v] (by simp; omega),
      element?_of_length_le a (by omega)]

theorem index_array_outside (a : List Value) (h : i < 0 ∨ a.length ≤ i) :
    (array a).index (int i) = .ok null := by
  rw [index_array]
  rcases h with hneg | hbehind
  · rw [element?_of_neg a hneg]
    rfl
  · rw [element?_of_length_le a hbehind]
    rfl

end Operators

end Value

namespace Eval

open Value

-- Both ways to ask a value for its length give this one, and only report the call.
def HasLength (v : Value) (n : Int) : Prop :=
  ∃ m, ∀ way level call t, callMember way level call v "length" [] t =
    .ok (.int n) (emitted level (.calledMethod m) t)

theorem hasLength_str (s : String) : HasLength (.str s) s.length :=
  ⟨.stringLength, fun way level call t =>
    callMember_eq (v := str s) (m := .stringLength) rfl way level call [] t⟩

theorem hasLength_array (a : List Value) : HasLength (.array a) a.length :=
  ⟨.arrayLength, fun way level call t =>
    callMember_eq (v := array a) (m := .arrayLength) rfl way level call [] t⟩

theorem compare_str (c : Comparison) (s : String) (k : Int) :
    (str s).compare (.str c.symbol) (.int k) =
      (int s.length).compare (.str c.symbol) (.int k) := by
  cases c <;> rfl

theorem compare_array (c : Comparison) (a : List Value) (k : Int) :
    (array a).compare (.str c.symbol) (.int k) =
      (int a.length).compare (.str c.symbol) (.int k) := by
  cases c <;> rfl

-- The characters of a sum of strings are those of the first and then those of the second, the
-- characters of a product are those of the string over and over, and an array to which a value is
-- added has the value behind its own. Past the ends there are spaces in strings and nulls in
-- arrays. The lengths are the sum, the product, none for a negative number, and one more. Strings
-- and arrays compare with an integer as their lengths do.
theorem index_and_length (s t : String) (a : List Value) {v : Value}
    (hv : ∃ kind, v.kind = .ok kind) (i n : Int) :
    ∃ sum product longer,
      (str s).binary (.str "+") (str t) = .ok sum ∧
      (str s).binary (.str "*") (int n) = .ok product ∧
      (array a).binary (.str "+") v = .ok longer ∧
      (sum.index (int i) =
        if i < s.length then (str s).index (int i) else (str t).index (int (i - s.length))) ∧
      (product.index (int i) =
        if 0 ≤ i ∧ i < s.length * n then (str s).index (int (i % s.length)) else .ok (str " ")) ∧
      (longer.index (int i) = if i = a.length then .ok v else (array a).index (int i)) ∧
      (i < 0 ∨ a.length ≤ i → (array a).index (int i) = .ok null) ∧
      HasLength (str s) s.length ∧ HasLength (str t) t.length ∧ HasLength (array a) a.length ∧
      HasLength sum (s.length + t.length) ∧ HasLength product (s.length * max n 0) ∧
      HasLength longer (a.length + 1) ∧
      ∀ (c : Comparison) (k : Int),
        (str s).compare (.str c.symbol) (int k) =
          (int s.length).compare (.str c.symbol) (int k) ∧
        (array a).compare (.str c.symbol) (int k) =
          (int a.length).compare (.str c.symbol) (int k) := by
  have hsum := hasLength_str (s ++ t)
  have hproduct := hasLength_str (Arithmetic.repeated s n)
  have hlonger := hasLength_array (a ++ [v])
  rw [String.length_append, Nat.cast_add] at hsum
  rw [length_repeated] at hproduct
  rw [List.length_append, List.length_singleton, Nat.cast_succ] at hlonger
  exact ⟨_, _, _, binary_add_str s t, binary_mul_str s n, binary_add_array a hv,
    index_add_str s t i, index_mul_str s i n, index_add_array i a v, index_array_outside i a,
    hasLength_str s, hasLength_str t, hasLength_array a, hsum, hproduct, hlonger,
    fun c k => ⟨compare_str c s k, compare_array c a k⟩⟩

theorem index_and_length_abc :
    (∃ kind, Value.null.kind = .ok kind) ∧ ∃ product,
      (str "abc").binary (.str "*") (int 2) = .ok product ∧
      product.index (int 4) = (str "abc").index (int 1) ∧ HasLength product 6 := by
  have hkind : ∃ kind, Value.null.kind = .ok kind := ⟨.null, rfl⟩
  obtain ⟨sum, product, longer, -, hproduct, -, -, hindex, -, -, -, -, -, -, hlength, -⟩ :=
    index_and_length "abc" "d" [] hkind 4 2
  exact ⟨hkind, product, hproduct, hindex, hlength⟩

end Eval

end TernLang
