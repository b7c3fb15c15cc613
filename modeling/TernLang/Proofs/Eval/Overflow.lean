import TernLang.Proofs.Eval.Destructuring
import TernLang.Proofs.Eval.Points
import TernLang.Proofs.Number.Residue

-- Integer arithmetic is that of words of 64 bits. An expression comes to the word that stands for
-- its value among all integers, however far the values on the way there are out of range.

namespace TernLang

namespace Arithmetic

-- What the operators that stay among the integers come to where no integer is too large.
def unbounded? : Arithmetic → Option (Int → Int → Int)
  | add => some (· + ·)
  | sub => some (· - ·)
  | mul => some (· * ·)
  | div | rem => none

variable {op : Arithmetic} {f : Int → Int → Int}

theorem modEq_of_unbounded? (h : op.unbounded? = some f) {a b c d m : Int} (hab : a ≡ b [ZMOD m])
    (hcd : c ≡ d [ZMOD m]) : f a c ≡ f b d [ZMOD m] := by
  cases op with
  | add =>
    cases h
    exact hab.add hcd
  | sub =>
    cases h
    exact hab.sub hcd
  | mul =>
    cases h
    exact hab.mul hcd
  | div => cases h
  | rem => cases h

-- Operands may be wrapped before or not.
theorem wrap_unbounded_wrap (h : op.unbounded? = some f) (a b : Int) :
    Word.wrap (f (Word.wrap a) (Word.wrap b)) = Word.wrap (f a b) :=
  Word.wrap_congr (modEq_of_unbounded? h (Word.wrap_modEq a) (Word.wrap_modEq b))

theorem binary_int (h : op.unbounded? = some f) (a b : Int) :
    (Value.int a).binary (.str op.symbol) (.int b) = .ok (.int (Word.wrap (f a b))) := by
  cases op <;> cases h <;> rfl

end Arithmetic

namespace Eval

variable {level : Int} {call : Caller} {n : Node} {s t : State} {z : Int}

-- The value of an expression among all integers, and the state that its evaluation ends in.
inductive Computes (level : Int) (call : Caller) : Node → State → Int → State → Prop where
  -- Whatever has an integer in range for its value.
  | leaf {n : Node} {a : Int} {s t : State} (value : eval level call n s = .ok (.int a) t)
    (fits : Word.Fits a) : Computes level call n s a t
  | binary {op : Arithmetic} {f : Int → Int → Int} {place : Place} {l r : Node} {a b : Int}
    {s t u : State} (unbounded : op.unbounded? = some f)
    (left : Computes level call l (visited level (.binary place (.str op.symbol) l r) s) a t)
    (right : Computes level call r t b u) :
    Computes level call (.binary place (.str op.symbol) l r) s (f a b) u
  | negative {place : Place} {n : Node} {a : Int} {s t : State}
    (operand : Computes level call n (visited level (.unary place (.str "-") n) s) a t) :
    Computes level call (.unary place (.str "-") n) s (-a) t

theorem visit_eq_visited {place : Place} (hplace : n.place? = some place) (m : Eval Value)
    (s : State) : visit level n m s = located place m (visited level n s) := by
  rw [visit_eq hplace, visited, hplace]

-- An integer has no results in it that are to be numbered.
theorem result_int (a : Int) (s : State) : result (.ok (.int a)) s = .ok (.int a) s := rfl

theorem eval_of_computes (h : Computes level call n s z t) :
    eval level call n s = .ok (.int (Word.wrap z)) t := by
  induction h with
  | leaf value fits => rw [value, Word.wrap_of_fits fits]
  | @binary op f place l r a b s t u hexact _ _ ihleft ihright =>
    have hvalue : (Value.int (Word.wrap a)).binary (.str op.symbol) (.int (Word.wrap b)) =
        .ok (.int (Word.wrap (f a b))) := by
      rw [Arithmetic.binary_int hexact, Arithmetic.wrap_unbounded_wrap hexact]
    rw [eval.eq_def, visit_eq_visited rfl]
    simp only [located, bind_eq_of_ok ihleft, bind_eq_of_ok ihright, hvalue, result_int]
  | @negative place n a s t _ ih =>
    have hvalue : (Value.int (Word.wrap a)).unary (.str "-") = .ok (.int (Word.wrap (-a))) := by
      rw [← Word.wrap_neg_wrap]
      rfl
    rw [eval.eq_def, visit_eq_visited rfl]
    simp only [located, bind_eq_of_ok ih, hvalue, result_int]

-- Wrapping takes an integer to the only word in its class, and the operators and the sign compute
-- with words as bits do, so that an expression comes to the word of its value among all integers. A
-- remainder is that of the division cut toward zero, and is not wrapped.
theorem arithmetic_in_words :
    (∀ z w : Int, Word.wrap z = w ↔ Word.Fits w ∧ w ≡ z [ZMOD 2 ^ 64]) ∧
    (∀ a b : Int, Word.Fits a → Word.Fits b →
      let x := BitVec.ofInt 64 a
      let y := BitVec.ofInt 64 b
      x.toInt = a ∧ y.toInt = b ∧
      (Value.int a).binary (.str "+") (.int b) = .ok (.int (x + y).toInt) ∧
      (Value.int a).binary (.str "-") (.int b) = .ok (.int (x - y).toInt) ∧
      (Value.int a).binary (.str "*") (.int b) = .ok (.int (x * y).toInt) ∧
      (Value.int a).unary (.str "-") = .ok (.int (-x).toInt)) ∧
    (∀ (level : Int) (call : Caller) (n : Node) (s t : State) (z : Int),
      Computes level call n s z t → eval level call n s = .ok (.int (Word.wrap z)) t) ∧
    ∀ a b : Int, Word.Fits a → Word.Fits b → b ≠ 0 →
      ∃ r, (Value.int a).binary (.str "%") (.int b) = .ok (.int r) ∧
        |r| < |b| ∧ (r = 0 ∨ r.sign = a.sign) ∧ a = a.tdiv b * b + r := by
  refine ⟨fun z w => Word.wrap_eq_iff, fun a b ha hb => ?_,
    fun level call n s t z h => eval_of_computes h, fun a b ha hb hzero => ?_⟩
  · intro x y
    refine ⟨Word.toInt_ofInt_of_fits ha, Word.toInt_ofInt_of_fits hb, ?_⟩
    rw [← BitVec.ofInt_add, ← Word.ofInt_sub, ← BitVec.ofInt_mul, ← BitVec.ofInt_neg]
    simp only [Word.toInt_ofInt]
    exact ⟨rfl, rfl, rfl, rfl⟩
  · have hvalue : (Value.int a).binary (.str "%") (.int b) =
        .ok (.int (Word.wrap (Word.remainder a b))) := by
      change Arithmetic.ints .rem a b = _
      rw [Arithmetic.ints, if_neg hzero]
    rw [Word.wrap_of_fits (Word.fits_remainder ha b)] at hvalue
    exact ⟨_, hvalue, Word.abs_remainder_lt a hzero, Word.remainder_eq_zero_or_sign_eq a b,
      (Word.quotient_mul_add_remainder a b).symm⟩

-- The least word divided by -1, and an expression whose value is out of range from its first sum
-- on.
theorem arithmetic_in_words_limits :
    let s := (Session.start {} "").state
    let whole (n : Int) : Node := .literal .start (.int n) (.str "Integer")
    let sum : Node := .binary .start (.str "+") (whole Word.greatest) (whole 1)
    let product : Node := .binary .start (.str "*") sum (.unary .start (.str "-") (whole 3))
    (Word.Fits Word.least ∧ Word.Fits (-1) ∧ (-1 : Int) ≠ 0 ∧
      Computes 0 (invoke 0 1000 1000) product s ((Word.greatest + 1) * -3) s) ∧
    (∃ r, (Value.int Word.least).binary (.str "%") (.int (-1)) = .ok (.int r) ∧
      Word.least = Word.least.tdiv (-1) * -1 + r) ∧
    (Value.int Word.least).unary (.str "-") =
      .ok (.int (-BitVec.ofInt 64 Word.least).toInt) ∧
    eval 0 (invoke 0 1000 1000) product s = .ok (.int Word.least) s := by
  intro s whole sum product
  have hleast : Word.Fits Word.least := by decide
  have hone : Word.Fits (-1) := by decide
  have hzero : (-1 : Int) ≠ 0 := by decide
  have hleaf {n : Int} (hn : Word.Fits n) : Computes 0 (invoke 0 1000 1000) (whole n) s n s :=
    .leaf rfl hn
  have hsum : Computes 0 (invoke 0 1000 1000) sum s (Word.greatest + 1) s :=
    .binary (show Arithmetic.add.unbounded? = some _ from rfl) (hleaf (by decide))
      (hleaf (by decide))
  have hproduct : Computes 0 (invoke 0 1000 1000) product s ((Word.greatest + 1) * -3) s :=
    .binary (show Arithmetic.mul.unbounded? = some _ from rfl) hsum (.negative (hleaf (by decide)))
  obtain ⟨-, hbits, heval, hremainder⟩ := arithmetic_in_words
  obtain ⟨-, -, -, -, -, hnegative⟩ := hbits _ _ hleast hone
  obtain ⟨r, hr, -, -, hdivision⟩ := hremainder _ _ hleast hone hzero
  exact ⟨⟨hleast, hone, hzero, hproduct⟩, ⟨r, hr, hdivision⟩, hnegative, heval _ _ _ _ _ _ hproduct⟩

end Eval

end TernLang
