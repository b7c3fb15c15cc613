import Mathlib.Data.List.Induction
import TernLang.Proofs.Number.Spelling
import TernLang.Value.Conversion

-- Integers as texts of decimal digits. A text is read by the number that its digits denote, so what
-- is written for an integer is read as that integer.

namespace TernLang

-- So many decimal digits, which denote a number.
inductive Numeral : Nat → Nat → List Char → Prop where
  | digit (d : Fin 10) : Numeral 1 d [d.val.digitChar]
  | snoc {k n : Nat} {cs : List Char} (front : Numeral k n cs) (d : Fin 10) :
    Numeral (k + 1) (10 * n + d) (cs ++ [d.val.digitChar])

-- An optional sign in front of so many digits, and the integer they denote.
inductive IntegerText : Nat → Int → List Char → Prop where
  | plain {k n : Nat} {cs : List Char} (digits : Numeral k n cs) : IntegerText k n cs
  | plus {k n : Nat} {cs : List Char} (digits : Numeral k n cs) : IntegerText k n ('+' :: cs)
  | minus {k n : Nat} {cs : List Char} (digits : Numeral k n cs) : IntegerText k (-n) ('-' :: cs)

-- The one text of an integer that has no plus and no zeros in front.
inductive CanonicalText : Int → List Char → Prop where
  | zero : CanonicalText 0 ['0']
  | positive {k n : Nat} {cs : List Char} (digits : Numeral k n cs)
    (head : cs.head? ≠ some '0') : CanonicalText n cs
  | negative {k n : Nat} {cs : List Char} (digits : Numeral k n cs)
    (head : cs.head? ≠ some '0') : CanonicalText (-n) ('-' :: cs)

namespace Numeral

open Reading

variable {k n : Nat} {cs : List Char}

theorem isDigit_digitChar : ∀ d : Fin 10, d.val.digitChar.isDigit := by decide

theorem digit_digitChar : ∀ d : Fin 10, Reading.digit d.val.digitChar = d := by decide

theorem exists_digitChar {c : Char} (h : c.isDigit) : ∃ d : Fin 10, c = d.val.digitChar := by
  have hchar : ∀ d : Fin 10, d.val.digitChar.toNat = 48 + d := by decide
  obtain ⟨hlow, hhigh⟩ := toNat_isDigit h
  refine ⟨⟨c.toNat - 48, by omega⟩, Char.toNat_inj.1 ?_⟩
  rw [hchar]
  show c.toNat = 48 + (c.toNat - 48)
  omega

theorem natural_snoc (cs : List Char) (c : Char) :
    natural (cs ++ [c]) = 10 * natural cs + Reading.digit c := by
  simp [natural]

theorem isDigits_snoc (cs : List Char) (c : Char) :
    IsDigits (cs ++ [c]) ↔ cs.all Char.isDigit ∧ c.isDigit := by
  simp [IsDigits]

-- Reading digits gives the number that they denote.
theorem isDigits (h : Numeral k n cs) : IsDigits cs := by
  induction h with
  | digit d => exact (isDigits_snoc [] _).2 ⟨rfl, isDigit_digitChar d⟩
  | snoc _ d ih => exact (isDigits_snoc _ _).2 ⟨ih.2, isDigit_digitChar d⟩

theorem length_eq (h : Numeral k n cs) : cs.length = k := by
  induction h with
  | digit => rfl
  | snoc _ d ih => rw [List.length_append, ih, List.length_singleton]

theorem natural_eq (h : Numeral k n cs) : natural cs = n := by
  induction h with
  | digit d => simp [natural, digit_digitChar]
  | snoc _ d ih => rw [natural_snoc, ih, digit_digitChar]

theorem of_isDigits (h : IsDigits cs) : Numeral cs.length (natural cs) cs := by
  induction cs using List.reverseRecOn with
  | nil => exact absurd rfl h.1
  | append_singleton cs c ih =>
    obtain ⟨hall, hc⟩ := (isDigits_snoc cs c).1 h
    obtain ⟨d, rfl⟩ := exists_digitChar hc
    rw [List.length_append, List.length_singleton, natural_snoc, digit_digitChar]
    cases cs with
    | nil =>
      have hzero : 10 * natural [] + d = d := by simp [natural]
      rw [hzero]
      exact .digit d
    | cons b cs => exact .snoc (ih ⟨by simp, hall⟩) d

theorem toDigits (n : Nat) : Numeral (Nat.toDigits 10 n).length n (Nat.toDigits 10 n) := by
  have hnumeral := of_isDigits (isDigits_toDigits n)
  rwa [natural_toDigits] at hnumeral

end Numeral

namespace IntegerText

open Reading

variable {k : Nat} {n : Int} {cs : List Char}

theorem integer_eq (h : IntegerText k n cs) :
    integer cs = if k ≤ digitLimit then .number n else .tooLong := by
  cases h with
  | plain digits =>
    have hplain : ∀ c ∈ cs, IsPlain c :=
      fun c hc => .inl (List.all_eq_true.1 digits.isDigits.2 c hc)
    simp only [integer, sign_of_isPlain hplain, if_pos digits.isDigits, digits.length_eq,
      digits.natural_eq, negateIf, Bool.false_eq_true, if_false]
  | plus digits =>
    simp only [integer, sign, if_pos digits.isDigits, digits.length_eq, digits.natural_eq,
      negateIf, Bool.false_eq_true, if_false]
  | minus digits =>
    simp only [integer, sign, if_pos digits.isDigits, digits.length_eq, digits.natural_eq,
      negateIf, if_true]

theorem exists_of_isDigits (h : IsDigits (sign cs).2) : ∃ k n, IntegerText k n cs := by
  unfold sign at h
  split at h
  · exact ⟨_, _, .plus (.of_isDigits h)⟩
  · exact ⟨_, _, .minus (.of_isDigits h)⟩
  · exact ⟨_, _, .plain (.of_isDigits h)⟩

theorem integer_of_not (h : ¬∃ k n, IntegerText k n cs) : integer cs = .malformed := by
  have hdigits : ¬IsDigits (sign cs).2 := fun hdigits => h (exists_of_isDigits hdigits)
  unfold integer
  simp only [hdigits, if_false]

end IntegerText

-- The text that is written for an integer.
theorem toList_toString (n : Int) : (toString n).toList =
    if 0 ≤ n then Nat.toDigits 10 n.natAbs else '-' :: Nat.toDigits 10 n.natAbs := by
  cases n with
  | ofNat n => simp [Int.toString_eq_repr, Int.repr_eq_if, Nat.repr_eq_ofList_toDigits]
  | negSucc n =>
    have hneg : ¬(0 : Int) ≤ Int.negSucc n := by omega
    simp [Int.toString_eq_repr, Int.repr_eq_if, Nat.repr_eq_ofList_toDigits, hneg]

theorem integerText_toString (n : Int) :
    IntegerText (Nat.toDigits 10 n.natAbs).length n (toString n).toList := by
  have hdigits := Numeral.toDigits n.natAbs
  rw [toList_toString]
  split
  case isTrue hn =>
    have htext := IntegerText.plain hdigits
    rwa [Int.natAbs_of_nonneg hn] at htext
  case isFalse hn =>
    have htext := IntegerText.minus hdigits
    rwa [Int.ofNat_natAbs_of_nonpos (by omega), Int.neg_neg] at htext

theorem canonicalText_toString (n : Int) : CanonicalText n (toString n).toList := by
  have hdigits := Numeral.toDigits n.natAbs
  rcases eq_or_ne n 0 with rfl | hzero
  · exact .zero
  · have hhead := Spelling.head?_toDigits (Int.natAbs_pos.2 hzero)
    rw [toList_toString]
    split
    case isTrue hn =>
      have htext := CanonicalText.positive hdigits hhead
      rwa [Int.natAbs_of_nonneg hn] at htext
    case isFalse hn =>
      have htext := CanonicalText.negative hdigits hhead
      rwa [Int.ofNat_natAbs_of_nonpos (by omega), Int.neg_neg] at htext

-- A word has nowhere near the most digits that are read.
theorem length_toDigits_of_fits {n : Int} (h : Word.Fits n) :
    (Nat.toDigits 10 n.natAbs).length ≤ 4300 := by
  have hbound : n.natAbs < 10 ^ 19 := by
    simp only [Word.Fits, Word.least, Word.greatest] at h
    omega
  have hlength := (Nat.length_toDigits_le_iff (b := 10) (n := n.natAbs) (by decide)
    (show 0 < 19 by decide)).2 hbound
  exact hlength.trans (by decide)

namespace Value

variable {s : String} {k : Nat} {n : Int}

theorem textToInteger_of_integerText (h : IntegerText k n s.toList) :
    textToInteger s =
      if k ≤ 4300 then if Word.Fits n then .ok (int n) else refuseText s "integer"
      else .error (.fault .unreadableNumber) := by
  rw [textToInteger, h.integer_eq]
  by_cases hk : k ≤ 4300
  · rw [if_pos hk, if_pos (show k ≤ Reading.digitLimit from hk)]
  · rw [if_neg hk, if_neg (show ¬k ≤ Reading.digitLimit from hk)]

-- A text that says no integer is refused.
theorem textToInteger_cases (s : String) :
    (∃ k n, IntegerText k n s.toList) ∨ textToInteger s = refuseText s "integer" := by
  by_cases h : ∃ k n, IntegerText k n s.toList
  · exact .inl h
  · right
    rw [textToInteger, IntegerText.integer_of_not h]

theorem textToInteger_eq_ok :
    textToInteger s = .ok (int n) ↔ (∃ k ≤ 4300, IntegerText k n s.toList) ∧ Word.Fits n := by
  constructor
  · intro hok
    rcases textToInteger_cases s with ⟨k, m, htext⟩ | hrefused
    · rw [textToInteger_of_integerText htext] at hok
      split at hok
      case isTrue hk =>
        split at hok
        case isTrue hfits =>
          cases hok
          exact ⟨⟨k, hk, htext⟩, hfits⟩
        case isFalse => cases hok
      case isFalse => cases hok
    · cases hok.symm.trans hrefused
  · rintro ⟨⟨k, hk, htext⟩, hfits⟩
    rw [textToInteger_of_integerText htext, if_pos hk, if_pos hfits]

theorem textToInteger_eq_unreadable :
    textToInteger s = .error (.fault .unreadableNumber) ↔
      ∃ k > 4300, ∃ m, IntegerText k m s.toList := by
  constructor
  · intro hlong
    rcases textToInteger_cases s with ⟨k, m, htext⟩ | hrefused
    · rw [textToInteger_of_integerText htext] at hlong
      split at hlong
      case isTrue => split at hlong <;> cases hlong
      case isFalse hk => exact ⟨k, Nat.lt_of_not_le hk, m, htext⟩
    · cases hlong.symm.trans hrefused
  · rintro ⟨k, hk, m, htext⟩
    rw [textToInteger_of_integerText htext, if_neg (Nat.not_le.2 hk)]

theorem textToInteger_eq_refused
    (h : ¬∃ k m, IntegerText k m s.toList ∧ (k ≤ 4300 → Word.Fits m)) :
    textToInteger s = refuseText s "integer" := by
  rcases textToInteger_cases s with ⟨k, m, htext⟩ | hrefused
  · have hunfit : ¬(k ≤ 4300 → Word.Fits m) := fun hfits => h ⟨k, m, htext, hfits⟩
    obtain ⟨hk, hfits⟩ := Classical.not_imp.1 hunfit
    rw [textToInteger_of_integerText htext, if_pos hk, if_neg hfits]
  · exact hrefused

-- A text becomes an integer if it is an optional sign and at most 4300 digits, for an integer that
-- fits a word. With more digits it cannot be read, and all other texts are refused. What is written
-- for an integer becomes that integer again, and has no plus and no zeros in front.
theorem convert_integer_text (s : String) (n : Int) :
    ((str s).convert (.str "integer") = .ok (int n) ↔
      (∃ k ≤ 4300, IntegerText k n s.toList) ∧ Word.Fits n) ∧
    ((str s).convert (.str "integer") = .error (.fault .unreadableNumber) ↔
      ∃ k > 4300, ∃ m, IntegerText k m s.toList) ∧
    ((∃ e : Error, (str s).convert (.str "integer") = .error (.error e) ∧
        e.cause.cls = .typeMismatch) ↔
      ¬∃ k m, IntegerText k m s.toList ∧ (k ≤ 4300 → Word.Fits m)) ∧
    (Word.Fits n → ∃ t, (int n).convert (.str "string") = .ok (str t) ∧
      (str t).convert (.str "integer") = .ok (int n)) ∧
    ((str s).convert (.str "integer") = .ok (int n) →
      ∃ t, (int n).convert (.str "string") = .ok (str t) ∧ CanonicalText n t.toList) := by
  have hconvert (t : String) : (str t).convert (.str "integer") = textToInteger t := rfl
  have hwrite : (int n).convert (.str "string") = .ok (str (toString n)) := rfl
  simp only [hconvert]
  refine ⟨textToInteger_eq_ok, textToInteger_eq_unreadable, ⟨?read, fun hnot => ?refused⟩,
    fun hfits => ⟨_, hwrite, ?again⟩, fun _ => ⟨_, hwrite, canonicalText_toString n⟩⟩
  case read =>
    rintro ⟨e, he, -⟩ ⟨k, m, htext, hfits⟩
    rw [textToInteger_of_integerText htext] at he
    split at he
    case isTrue hk =>
      rw [if_pos (hfits hk)] at he
      cases he
    case isFalse => cases he
  case refused => exact ⟨_, textToInteger_eq_refused hnot, rfl⟩
  case again =>
    exact textToInteger_eq_ok.2
      ⟨⟨_, length_toDigits_of_fits hfits, integerText_toString n⟩, hfits⟩

theorem convert_integer_text_padded :
    (str "+007").convert (.str "integer") = .ok (int 7) ∧
    ∃ t, (int 7).convert (.str "string") = .ok (str t) ∧ CanonicalText 7 t.toList := by
  have htext : IntegerText 3 7 "+007".toList := .plus (.snoc (.snoc (.digit 0) 0) 7)
  have hread := (convert_integer_text "+007" 7).1.2 ⟨⟨3, by decide, htext⟩, by decide⟩
  exact ⟨hread, (convert_integer_text "+007" 7).2.2.2.2 hread⟩

end Value

end TernLang
