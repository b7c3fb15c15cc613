import Mathlib.Tactic.Common
import Mathlib.Tactic.IntervalCases
import TernLang.Json.Reader
import TernLang.Json.Writer
import TernLang.Proofs.Number.Spelling

-- The texts of strings and numbers are read back.

namespace TernLang.Json

open Reader

-- The control characters are written by their code.
theorem codeUnit?_hex {n : Nat} (h : n < 0x20) (rest : List Char) :
    codeUnit? (Text.hex 4 n ++ rest) = some (n, rest) := by
  interval_cases n <;> rfl

theorem character_toNat (c : Char) : character c.toNat = .ok c := by
  have hvalid : c.toNat.isValidChar := c.valid
  rw [character, if_pos hvalid, Char.ofNat_toNat]

theorem escaped_hex {c : Char} (h : c.toNat < 0x20) (rest : List Char) :
    escaped ('u' :: Text.hex 4 c.toNat ++ rest) = .ok (c, rest) := by
  have hlow : ¬(0xd800 ≤ c.toNat ∧ c.toNat ≤ 0xdbff) := by omega
  have hpoint : codePoint (Text.hex 4 c.toNat ++ rest) = .ok (c.toNat, rest) := by
    simp [codePoint, require, codeUnit?_hex h, hlow, bind, Except.bind, pure, Except.pure]
  rw [List.cons_append]
  simp only [escaped, hpoint, character_toNat, bind, Except.bind, pure, Except.pure]

theorem string_escaped {n : Nat} {c : Char} {cs rest : List Char}
    (h : escaped cs = .ok (c, rest)) :
    string (n + 1) ('\\' :: cs) = (string n rest).map fun found => (c :: found.1, found.2) := by
  have hmark : '\\' ≠ '\x22' := by decide
  simp only [string, hmark, if_false, if_true, h, bind, Except.bind]
  cases string n rest <;> rfl

theorem string_plain {n : Nat} {c : Char} {rest : List Char} (hmark : c ≠ '\x22')
    (hslash : c ≠ '\\') (hprinted : ¬c.toNat < 0x20) :
    string (n + 1) (c :: rest) = (string n rest).map fun found => (c :: found.1, found.2) := by
  simp only [string, hmark, hslash, hprinted, if_false, bind, Except.bind]
  cases string n rest <;> rfl

-- A character as it is written is the next one that is read.
theorem string_escape (n : Nat) (c : Char) (rest : List Char) :
    string (n + 1) (escape c ++ rest) =
      (string n rest).map fun found => (c :: found.1, found.2) := by
  unfold escape
  split
  · subst_vars
    exact string_escaped rfl
  split
  · subst_vars
    exact string_escaped rfl
  split
  · subst_vars
    exact string_escaped rfl
  split
  · subst_vars
    exact string_escaped rfl
  split
  · subst_vars
    exact string_escaped rfl
  split
  · subst_vars
    exact string_escaped rfl
  split
  · subst_vars
    exact string_escaped rfl
  split
  · rename_i hcontrol
    exact string_escaped (escaped_hex hcontrol rest)
  · rename_i hmark hslash _ _ _ _ _ hprinted
    exact string_plain hmark hslash hprinted

theorem string_flatMap_escape {n : Nat} (cs rest : List Char) (h : cs.length < n) :
    string n (cs.flatMap escape ++ '\x22' :: rest) = .ok (cs, rest) := by
  induction cs generalizing n with
  | nil =>
    obtain ⟨k, rfl⟩ : ∃ k, n = k + 1 := ⟨n - 1, by omega⟩
    simp [string]
  | cons c cs ih =>
    obtain ⟨k, rfl⟩ : ∃ k, n = k + 1 := ⟨n - 1, by omega⟩
    rw [List.flatMap_cons, List.append_assoc, string_escape,
      ih (by simp only [List.length_cons] at h; omega)]
    rfl

theorem escape_ne_nil (c : Char) : escape c ≠ [] := by
  unfold escape
  split_ifs <;> simp

theorem length_le_flatMap_escape (cs : List Char) : cs.length ≤ (cs.flatMap escape).length := by
  induction cs with
  | nil => rfl
  | cons c cs ih =>
    have hpos := List.length_pos_of_ne_nil (escape_ne_nil c)
    rw [List.flatMap_cons, List.length_append, List.length_cons]
    omega

-- What stands between quotes, with the closing one.
theorem string_quoted (s : String) (rest : List Char) :
    string ((s.toList.flatMap escape ++ '\x22' :: rest).length + 1)
      (s.toList.flatMap escape ++ '\x22' :: rest) = .ok (s.toList, rest) := by
  apply string_flatMap_escape
  have hlen := length_le_flatMap_escape s.toList
  rw [List.length_append]
  omega

-- The characters that end a number: a comma, a newline, or the end of the text.
def Ends (rest : List Char) : Prop := ∀ c ∈ rest.head?, c = ',' ∨ c = '\n'

theorem Ends.isDigit {rest : List Char} (h : Ends rest) :
    ∀ c ∈ rest.head?, c.isDigit = false := by
  intro c hc
  rcases h c hc with rfl | rfl <;> decide

theorem Ends.places {rest : List Char} (h : Ends rest) : places rest = ([], rest) := by
  unfold Reader.places
  split
  · exact absurd (h '.' rfl) (by decide)
  · rfl

theorem Ends.exponent? {rest : List Char} (h : Ends rest) : exponent? rest = none := by
  cases rest with
  | nil => rfl
  | cons c cs =>
    rcases h c rfl with rfl | rfl
    · simp [Reader.exponent?]
    · simp [Reader.exponent?]

-- Digits that may stand in front of a number.
structure IsWhole (whole : List Char) : Prop where
  isDigits : Reading.IsDigits whole
  zero : whole.head? = some '0' → whole = ['0']

theorem isWhole_zero : IsWhole ['0'] := ⟨by decide, fun _ => rfl⟩

theorem isWhole_toDigits (n : Nat) : IsWhole (Nat.toDigits 10 n) := by
  refine ⟨Reading.isDigits_toDigits n, fun hhead => ?_⟩
  cases Nat.eq_zero_or_pos n with
  | inl hzero => rw [hzero, Nat.toDigits_zero]
  | inr hpos => exact absurd hhead (Spelling.head?_toDigits hpos)

theorem IsWhole.leading {whole rest : List Char} (h : IsWhole whole)
    (hrest : ∀ c ∈ rest.head?, c.isDigit = false) : leading (whole ++ rest) = (whole, rest) := by
  unfold Reader.leading
  split
  · rename_i cs heq
    cases whole with
    | nil => exact absurd rfl h.isDigits.1
    | cons c ws =>
      rw [List.cons_append, List.cons.injEq] at heq
      obtain ⟨rfl, rfl⟩ := heq
      obtain ⟨-, rfl⟩ := List.cons.inj (h.zero rfl)
      rfl
  · exact Reading.span_isDigit rest h.isDigits.2 hrest

theorem IsWhole.isEmpty {whole : List Char} (h : IsWhole whole) : whole.isEmpty = false := by
  simpa using h.isDigits.1

theorem number_integer {whole rest : List Char} (h : IsWhole whole)
    (hlen : whole.length ≤ Reading.digitLimit) (hends : Ends rest) (negative : Bool) :
    number negative (whole ++ rest) =
      .ok (.int (Reading.negateIf negative (Reading.natural whole)), rest) := by
  simp only [number, h.leading hends.isDigit, h.isEmpty, hends.places, hends.exponent?, hlen,
    if_true, List.isEmpty_nil]
  rfl

theorem places_point {digits rest : List Char} (hdigits : Reading.IsDigits digits)
    (hrest : ∀ c ∈ rest.head?, c.isDigit = false) :
    places ('.' :: digits ++ rest) = (digits, rest) := by
  have hempty : digits.isEmpty = false := by simpa using hdigits.1
  simp only [List.cons_append, places, Reading.span_isDigit rest hdigits.2 hrest, hempty]
  rfl

-- Digits, a point and digits after it.
theorem number_pointed {whole digits rest : List Char} (h : IsWhole whole)
    (hdigits : Reading.IsDigits digits) (hends : Ends rest) :
    number false (whole ++ ('.' :: digits ++ rest)) =
      .ok (.real (Decimal.toFloat ⟨Reading.natural (whole ++ digits), 0 - digits.length⟩),
        rest) := by
  have hempty : digits.isEmpty = false := by simpa using hdigits.1
  have hpoint : ∀ c ∈ ('.' :: digits ++ rest).head?, c.isDigit = false := by
    simp
  simp only [number, h.leading hpoint, h.isEmpty, places_point hdigits hends.isDigit,
    hends.exponent?, hempty]
  rfl

-- A number with an exponent. There need not be a point.
theorem number_exponent {whole digits rest later final : List Char} {e : Int} (h : IsWhole whole)
    (hrest : ∀ c ∈ rest.head?, c.isDigit = false) (hplaces : places rest = (digits, later))
    (hexponent : exponent? later = some (e, final)) :
    number false (whole ++ rest) =
      .ok (.real (Decimal.toFloat ⟨Reading.natural (whole ++ digits), e - digits.length⟩),
        final) := by
  simp only [number, h.leading hrest, h.isEmpty, hplaces, hexponent]
  rfl

theorem exponent?_digits {mark : Char} (negative : Bool) {ds rest : List Char}
    (hmark : ∀ cs, Reading.sign (mark :: cs) = (negative, cs)) (hds : Reading.IsDigits ds)
    (hends : Ends rest) :
    exponent? ('e' :: mark :: ds ++ rest) =
      some (Reading.negateIf negative (Reading.natural ds), rest) := by
  have hempty : ds.isEmpty = false := by simpa using hds.1
  have hsign : Reading.sign (mark :: (ds ++ rest)) = (negative, ds ++ rest) := hmark _
  simp only [List.cons_append, exponent?, hsign, Reading.span_isDigit rest hds.2 hends.isDigit,
    hempty]
  rfl

theorem exponent?_power (e : Int) {rest : List Char} (hends : Ends rest) :
    exponent? ('e' :: Spelling.power e ++ rest) = some (e, rest) := by
  generalize hds : Spelling.zeros (2 - (Nat.toDigits 10 e.natAbs).length) ++
    Nat.toDigits 10 e.natAbs = ds
  have hdigits : Reading.IsDigits ds := by
    have hlast := Reading.isDigits_toDigits e.natAbs
    rw [← hds]
    exact ⟨by simp [hlast.1], by simp [Spelling.zeros, hlast.2, -List.all_eq_true]⟩
  have hvalue : Reading.natural ds = e.natAbs := by
    rw [← hds, Spelling.zeros, Reading.natural_zeros, Reading.natural_toDigits]
  by_cases hneg : e < 0
  · have hpower : Spelling.power e = '-' :: ds := by
      rw [← hds]
      simp [Spelling.power, hneg]
    rw [hpower, exponent?_digits true (fun _ => rfl) hdigits hends, hvalue,
      Reading.negateIf, if_pos rfl]
    congr 2
    omega
  · have hpower : Spelling.power e = '+' :: ds := by
      rw [← hds]
      simp [Spelling.power, hneg]
    rw [hpower, exponent?_digits false (fun _ => rfl) hdigits hends, hvalue,
      Reading.negateIf, if_neg (by simp)]
    congr 2
    omega

section Decimals

variable {digits rest : List Char} {place : Int} {d : Decimal}

theorem isWhole_of_head {whole : List Char} (h : Reading.IsDigits whole)
    (hhead : whole.head? ≠ some '0') : IsWhole whole :=
  ⟨h, fun heq => absurd heq hhead⟩

theorem number_scientific (h : Spelling.Stands digits place d) (hends : Ends rest) :
    number false (Spelling.scientific digits (place - 1) ++ rest) =
      .ok (.real d.toFloat, rest) := by
  obtain ⟨⟨hne, hall⟩, hhead, hvalue⟩ := h
  cases digits with
  | nil => exact absurd rfl hne
  | cons c cs =>
    rw [List.all_cons, Bool.and_eq_true] at hall
    have hwhole : IsWhole [c] := isWhole_of_head ⟨by simp, by simp [hall.1]⟩ (by simpa using hhead)
    have hpower := exponent?_power (place - 1) hends
    have hmark : ∀ d ∈ ('e' :: Spelling.power (place - 1) ++ rest).head?, d.isDigit = false := by
      simp
    cases cs with
    | nil =>
      have htext : Spelling.scientific [c] (place - 1) ++ rest =
          [c] ++ ('e' :: Spelling.power (place - 1) ++ rest) := by
        simp [Spelling.scientific]
      rw [htext, number_exponent hwhole hmark rfl hpower, ← hvalue]
      simp
    | cons c' cs =>
      have hdigits : Reading.IsDigits (c' :: cs) := ⟨by simp, hall.2⟩
      have htext : Spelling.scientific (c :: c' :: cs) (place - 1) ++ rest =
          [c] ++ ('.' :: (c' :: cs) ++ ('e' :: Spelling.power (place - 1) ++ rest)) := by
        simp [Spelling.scientific]
      have hexponent : place - 1 - (c' :: cs).length = place - (c :: c' :: cs).length := by
        simp only [List.length_cons]
        omega
      rw [htext, number_exponent hwhole (by simp) (places_point hdigits hmark) hpower, ← hvalue,
        hexponent]
      rfl

theorem number_positional (h : Spelling.Stands digits place d) (hends : Ends rest) :
    number false (Spelling.positional digits place ++ rest) = .ok (.real d.toFloat, rest) := by
  obtain ⟨⟨hne, hall⟩, hhead, hvalue⟩ := h
  unfold Spelling.positional
  by_cases hplace : place ≤ 0
  · have hdigits : Reading.IsDigits (Spelling.zeros place.natAbs ++ digits) :=
      ⟨by simp [hne], by simp [Spelling.zeros, hall, -List.all_eq_true]⟩
    have hnatural : Reading.natural (['0'] ++ (Spelling.zeros place.natAbs ++ digits)) =
        Reading.natural digits := Reading.natural_zeros (place.natAbs + 1) digits
    rw [if_pos hplace]
    have htext : '0' :: '.' :: Spelling.zeros place.natAbs ++ digits ++ rest =
        ['0'] ++ ('.' :: (Spelling.zeros place.natAbs ++ digits) ++ rest) := by simp
    have hexponent : 0 - ((Spelling.zeros place.natAbs ++ digits).length : Int) =
        place - digits.length := by
      simp only [List.length_append, Spelling.zeros, List.length_replicate]
      omega
    rw [htext, number_pointed isWhole_zero hdigits hends, hnatural, hexponent, hvalue]
  · obtain ⟨n, rfl⟩ : ∃ n : Nat, place = n := ⟨place.toNat, by omega⟩
    rw [if_neg hplace]
    simp only [Int.toNat_natCast]
    by_cases hlong : n < digits.length
    · have hwhole : IsWhole (digits.take n) := by
        refine isWhole_of_head ⟨fun hnil => ?_, ?_⟩ ?_
        · simp only [List.take_eq_nil_iff, hne, or_false] at hnil
          omega
        · exact List.all_eq_true.2 fun c hc => List.all_eq_true.1 hall c (List.mem_of_mem_take hc)
        · rwa [List.head?_take, if_neg (by omega)]
      have hdrop : Reading.IsDigits (digits.drop n) := by
        refine ⟨fun hnil => ?_, ?_⟩
        · rw [List.drop_eq_nil_iff] at hnil
          omega
        · exact List.all_eq_true.2 fun c hc => List.all_eq_true.1 hall c (List.mem_of_mem_drop hc)
      have hsize : (digits.take n).length = n := by simp; omega
      have hempty : (digits.drop n).isEmpty = false := by simpa using hdrop.1
      have htext : digits.take n ++ Spelling.zeros (n - (digits.take n).length) ++
          '.' :: (if (digits.drop n).isEmpty then ['0'] else digits.drop n) ++ rest =
          digits.take n ++ ('.' :: digits.drop n ++ rest) := by
        simp [hsize, hempty, Spelling.zeros]
      have hexponent : 0 - ((digits.drop n).length : Int) = n - digits.length := by
        rw [List.length_drop]
        omega
      rw [htext, number_pointed hwhole hdrop hends, List.take_append_drop, hexponent, hvalue]
    · have htake : digits.take n = digits := List.take_of_length_le (by omega)
      have hdrop : digits.drop n = [] := List.drop_eq_nil_of_le (by omega)
      have hwhole : IsWhole (digits ++ Spelling.zeros (n - digits.length)) := by
        refine isWhole_of_head ⟨by simp [hne], by simp [Spelling.zeros, hall, -List.all_eq_true]⟩ ?_
        rwa [List.head?_append_of_ne_nil _ hne]
      have hnatural : Reading.natural (digits ++ Spelling.zeros (n - digits.length) ++ ['0']) =
          Reading.natural digits * 10 ^ (n - digits.length + 1) := by
        rw [List.append_assoc]
        have hzeros : Spelling.zeros (n - digits.length) ++ ['0'] =
            Spelling.zeros (n - digits.length + 1) := List.replicate_succ'.symm
        rw [hzeros, Spelling.natural_append_zeros]
      have htext : digits ++ Spelling.zeros (n - digits.length) ++ '.' :: ['0'] ++ rest =
          digits ++ Spelling.zeros (n - digits.length) ++ ('.' :: ['0'] ++ rest) := by
        simp
      have hexponent : (0 - (['0'] : List Char).length : Int) + (n - digits.length + 1 : Nat) =
          n - digits.length := by
        simp only [List.length_cons, List.length_nil]
        omega
      rw [htake, hdrop, List.isEmpty_nil, if_pos rfl, htext,
        number_pointed hwhole (by decide) hends, hnatural, Decimal.toFloat_zeros, hexponent, hvalue]

theorem number_decimal (hd : 0 < d.digits) (hends : Ends rest) :
    number false (Spelling.decimal d ++ rest) = .ok (.real d.toFloat, rest) := by
  have hstands := Spelling.stands_normalize hd
  simp only [Spelling.decimal]
  split
  · exact number_scientific hstands hends
  · exact number_positional hstands hends

end Decimals

end TernLang.Json
