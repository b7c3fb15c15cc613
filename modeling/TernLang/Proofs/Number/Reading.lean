import TernLang.Proofs.Number.Decimal
import TernLang.Proofs.Syntax.Render

-- The numbers that are read from the texts of literals, and the texts that are written for them.

namespace TernLang

theorem Text.trimBy_eq_self {p : Char → Bool} {cs : List Char} (h : ∀ c ∈ cs, p c = false) :
    trimBy p cs = cs := by
  have hfront (ds : List Char) (hds : ∀ c ∈ ds, p c = false) : ds.dropWhile p = ds := by
    cases ds with
    | nil => rfl
    | cons d ds => simp [hds d (by simp)]
  rw [trimBy, hfront cs h, hfront cs.reverse (by simpa using h), List.reverse_reverse]

namespace Reading

open Floating

-- The characters of the numbers in a source text.
def IsPlain (c : Char) : Prop := c.isDigit ∨ c = '.'

theorem toNat_isDigit {c : Char} (h : c.isDigit) : 48 ≤ c.toNat ∧ c.toNat ≤ 57 := by
  simp only [Char.isDigit, Bool.and_eq_true, decide_eq_true_eq, UInt32.le_iff_toNat_le] at h
  exact h

theorem toNat_isPlain {c : Char} (h : IsPlain c) : 46 ≤ c.toNat ∧ c.toNat ≤ 57 := by
  rcases h with h | rfl
  · have hc := toNat_isDigit h
    omega
  · decide

theorem isPadding_eq_false {c : Char} (h : IsPlain c) : isPadding c = false := by
  have hc := toNat_isPlain h
  have hblank : Text.isBlank c = false := by
    simp only [Text.isBlank, Bool.or_eq_false_iff, Bool.and_eq_false_iff, decide_eq_false_iff_not,
      beq_eq_false_iff_ne]
    omega
  simp [isPadding, hblank]

theorem digitValue?_of_isDigit {c : Char} (h : c.isDigit) :
    Text.digitValue? c = some (c.toNat - 48) := by
  obtain ⟨hlow, hhigh⟩ := toNat_isDigit h
  have hlt : c.toNat < 58 := by omega
  simp [Text.digitValue?, Text.DecimalDigit.zeros, hlow, hlt]

theorem digitValue?_point : Text.digitValue? '.' = none := by decide

-- Plain digits stay as they are.
theorem plainDigits_eq_self {cs : List Char} (h : ∀ c ∈ cs, IsPlain c) : plainDigits cs = cs := by
  unfold plainDigits
  conv_rhs => rw [← List.map_id cs]
  apply List.map_congr_left
  intro c hc
  rcases h c hc with hdigit | rfl
  · have hrange := toNat_isDigit hdigit
    have hsum : '0'.toNat + (c.toNat - 48) = c.toNat := by
      show 48 + (c.toNat - 48) = c.toNat
      omega
    simp only [digitValue?_of_isDigit hdigit, hsum, Char.ofNat_toNat, id]
  · rw [digitValue?_point]
    rfl

theorem dropUnderscores?_eq_self {cs : List Char} (h : ∀ c ∈ cs, c ≠ '_') (after : Bool) :
    dropUnderscores? after cs = some cs := by
  induction cs generalizing after with
  | nil => rfl
  | cons c cs ih =>
    have hc : c ≠ '_' := h c (by simp)
    rw [dropUnderscores?, ih (fun d hd => h d (by simp [hd]))]
    · rfl
    · exact hc

-- A text in its plain form is not changed before it is read.
theorem loosen?_eq_self {cs : List Char} (h : ∀ c ∈ cs, IsPlain c) : loosen? cs = some cs := by
  rw [loosen?, Text.trimBy_eq_self (fun c hc => isPadding_eq_false (h c hc)),
    plainDigits_eq_self h]
  apply dropUnderscores?_eq_self
  rintro c hc rfl
  exact absurd (toNat_isPlain (h _ hc)).2 (by decide)

theorem natural_eq_ofDigitChars (cs : List Char) : natural cs = Nat.ofDigitChars 10 cs 0 := rfl

theorem natural_toDigits (n : Nat) : natural (Nat.toDigits 10 n) = n := by
  rw [natural_eq_ofDigitChars, Nat.ofDigitChars_ten_toDigits]

theorem isDigits_toDigits (n : Nat) : IsDigits (Nat.toDigits 10 n) := by
  refine ⟨Nat.toDigits_ne_nil, ?_⟩
  rw [List.all_eq_true]
  intro c hc
  exact Nat.isDigit_of_mem_toDigits (by decide) (by decide) hc

-- Digits have no sign in front of them.
theorem sign_of_isPlain {cs : List Char} (h : ∀ c ∈ cs, IsPlain c) : sign cs = (false, cs) := by
  unfold sign
  split
  · rename_i ds
    exact absurd (toNat_isPlain (h '+' (by simp))).1 (by decide)
  · rename_i ds
    exact absurd (toNat_isPlain (h '-' (by simp))).1 (by decide)
  · rfl

theorem looseInteger_of_isDigits {cs : List Char} (h : IsDigits cs) :
    looseInteger cs = if cs.length ≤ digitLimit then .number (natural cs) else .tooLong := by
  have hplain : ∀ c ∈ cs, IsPlain c := fun c hc => .inl (List.all_eq_true.1 h.2 c hc)
  rw [looseInteger, loosen?_eq_self hplain]
  simp [integer, sign_of_isPlain hplain, h, negateIf]

-- The word for an integer says it, unless it has too many digits.
theorem looseInteger_toDigits {n : Nat} (hn : n < 10 ^ digitLimit) :
    looseInteger (Nat.toDigits 10 n) = .number n := by
  have hlen := (Nat.length_toDigits_le_iff (b := 10) (n := n) (by decide)
    (show 0 < digitLimit by decide)).2 hn
  rw [looseInteger_of_isDigits (isDigits_toDigits n), if_pos hlen, natural_toDigits]

theorem toLower_of_isDigit {c : Char} (h : c.isDigit) : c.toLower = c := by
  have hc := toNat_isDigit h
  have hupper : ¬(c.val ≥ 'A'.val ∧ c.val ≤ 'Z'.val) := by
    rw [ge_iff_le, UInt32.le_iff_toNat_le]
    have hval : c.val.toNat ≤ 57 := hc.2
    have hletter : 'A'.val.toNat = 65 := rfl
    omega
  exact dif_neg hupper

-- A text that begins with a digit is none of the words.
theorem lowercase_ne {c d : Char} (cs ds : List Char) (hc : c.isDigit) (hd : ¬d.isDigit) :
    String.ofList ((c :: cs).map Char.toLower) ≠ String.ofList (d :: ds) := by
  intro h
  have hlist := String.ofList_injective h
  simp only [List.map_cons, toLower_of_isDigit hc, List.cons.injEq] at hlist
  exact hd (hlist.1 ▸ hc)

theorem span_isDigit {ds : List Char} (rest : List Char) (hds : ds.all Char.isDigit)
    (hrest : ∀ c ∈ rest.head?, c.isDigit = false) :
    (ds ++ rest).span Char.isDigit = (ds, rest) := by
  have hall : ∀ c ∈ ds, c.isDigit := List.all_eq_true.1 hds
  have hstop : rest.takeWhile Char.isDigit = [] ∧ rest.dropWhile Char.isDigit = rest := by
    cases rest with
    | nil => simp
    | cons c rest => simp [hrest c rfl]
  rw [List.span_eq_takeWhile_dropWhile, List.takeWhile_append_of_pos hall,
    List.dropWhile_append_of_pos hall, hstop.1, hstop.2, List.append_nil]

theorem decimal?_of_point {whole places : List Char} (hwhole : IsDigits whole)
    (hplaces : places.all Char.isDigit) :
    decimal? (whole ++ '.' :: places) = some ⟨natural (whole ++ places), -places.length⟩ := by
  have hfirst : (whole ++ '.' :: places).span Char.isDigit = (whole, '.' :: places) :=
    span_isDigit ('.' :: places) hwhole.2 (by simp)
  have hsecond : places.span Char.isDigit = (places, []) := by
    have hspan := span_isDigit [] hplaces (by simp)
    rwa [List.append_nil] at hspan
  have hsome : whole.isEmpty = false := by
    simpa using hwhole.1
  rw [decimal?, hfirst]
  simp only [decimals, hsecond, exponent?, hsome]
  simp

-- Digits with a point among them are read as the decimal they say.
theorem looseReal?_of_point {whole places : List Char} (hwhole : IsDigits whole)
    (hplaces : places.all Char.isDigit) :
    looseReal? (whole ++ '.' :: places) =
      some (Decimal.toFloat ⟨natural (whole ++ places), -places.length⟩) := by
  have hplain : ∀ c ∈ whole ++ '.' :: places, IsPlain c := by
    intro c hc
    simp only [List.mem_append, List.mem_cons] at hc
    rcases hc with hc | rfl | hc
    · exact .inl (List.all_eq_true.1 hwhole.2 c hc)
    · exact .inr rfl
    · exact .inl (List.all_eq_true.1 hplaces c hc)
  have hnumber : unsigned? (whole ++ '.' :: places) =
      some (Decimal.toFloat ⟨natural (whole ++ places), -places.length⟩) := by
    have hdecimal := decimal?_of_point hwhole hplaces
    obtain ⟨hne, hall⟩ := hwhole
    cases whole with
    | nil => exact absurd rfl hne
    | cons c cs =>
      have hc : c.isDigit := List.all_eq_true.1 hall c (by simp)
      have hshort := lowercase_ne (cs ++ '.' :: places) ['n', 'f'] hc
        (show ¬Char.isDigit 'i' by decide)
      have hlong := lowercase_ne (cs ++ '.' :: places) ['n', 'f', 'i', 'n', 'i', 't', 'y'] hc
        (show ¬Char.isDigit 'i' by decide)
      have hnone := lowercase_ne (cs ++ '.' :: places) ['a', 'n'] hc
        (show ¬Char.isDigit 'n' by decide)
      simp only [List.cons_append] at hdecimal ⊢
      unfold unsigned?
      simp only []
      rw [if_neg (not_or.2 ⟨hshort, hlong⟩), if_neg hnone, hdecimal]
      rfl
  rw [looseReal?, loosen?_eq_self hplain, Option.bind_some, real?, plainDigits_eq_self hplain,
    sign_of_isPlain hplain]
  simp [hnumber]

theorem isNonnegative_of_isRealText {cs : List Char} {x : Float} (h : IsRealText cs)
    (hx : looseReal? cs = some x) : IsNonnegative x := by
  obtain ⟨whole, places, hwhole, hplaces, rfl⟩ := h
  rw [looseReal?_of_point hwhole hplaces, Option.some_inj] at hx
  rw [← hx]
  exact Decimal.isNonnegative_toFloat _

theorem natural_zeros (n : Nat) (cs : List Char) :
    natural (List.replicate n '0' ++ cs) = natural cs := by
  rw [natural_eq_ofDigitChars, Nat.ofDigitChars_append, Nat.ofDigitChars_replicate_zero,
    Nat.mul_zero, natural_eq_ofDigitChars]

-- A number written with a point is read as the number of its digits so many places further down.
theorem looseReal?_pointed (n places : Nat) :
    looseReal? (Render.pointed n places) = some (Decimal.toFloat ⟨n, -places⟩) := by
  unfold Render.pointed
  simp only []
  generalize hpadded : List.replicate (places + 1 - (Nat.toDigits 10 n).length) '0' ++
    Nat.toDigits 10 n = padded
  have hlen : places < padded.length := by
    rw [← hpadded, List.length_append, List.length_replicate]
    omega
  have hall : ∀ c ∈ padded, c.isDigit := by
    intro c hc
    rw [← hpadded, List.mem_append] at hc
    rcases hc with hc | hc
    · rw [List.eq_of_mem_replicate hc]
      decide
    · exact List.all_eq_true.1 (isDigits_toDigits n).2 c hc
  have hwhole : IsDigits (padded.take (padded.length - places)) := by
    constructor
    · intro hnil
      have hzero := congrArg List.length hnil
      simp only [List.length_take, List.length_nil] at hzero
      omega
    · exact List.all_eq_true.2 fun c hc => hall c (List.mem_of_mem_take hc)
  have hplaces : (padded.drop (padded.length - places)).all Char.isDigit :=
    List.all_eq_true.2 fun c hc => hall c (List.mem_of_mem_drop hc)
  have hvalue : natural padded = n := by
    rw [← hpadded, natural_zeros, natural_toDigits]
  have hcount : (padded.drop (padded.length - places)).length = places := by
    rw [List.length_drop]
    omega
  rw [looseReal?_of_point hwhole hplaces, List.take_append_drop, hvalue, hcount]

theorem looseReal?_endless :
    looseReal? Render.endless = some (Float.ofBits (UInt64.ofNat infiniteBits)) := by
  have hwhole : IsDigits ('1' :: List.replicate 400 '0') := by decide +kernel
  have hvalue : natural ('1' :: List.replicate 400 '0') = 1 * 10 ^ 400 := by decide +kernel
  have htext : Render.endless = ('1' :: List.replicate 400 '0') ++ '.' :: [] := rfl
  rw [htext, looseReal?_of_point hwhole rfl, List.append_nil, hvalue, Decimal.toFloat_zeros]
  rfl

-- All digits of a number that is not negative are read as that number.
theorem looseReal?_realText {x : Float} (hx : IsNonnegative x) :
    looseReal? (Render.realText x) = some x := by
  unfold Render.realText
  rcases Nat.lt_or_eq_of_le hx with hlt | heq
  · obtain ⟨f, hf⟩ : ∃ f, shape x = .finite f := ⟨_, shape_of_lt hlt⟩
    have hexponent : -((Shortest.full f).exponent.natAbs : Int) = (Shortest.full f).exponent := by
      unfold Shortest.full
      split <;> simp only [] <;> omega
    simp only [hf]
    rw [looseReal?_pointed, hexponent, toFloat_full hlt hf]
  · have hbits := bits_ofBits_of_le (Nat.le_refl infiniteBits)
    rw [shape_of_eq heq]
    simp only []
    rw [looseReal?_endless, eq_of_bits (hbits.trans heq.symm)]

end Reading

end TernLang
