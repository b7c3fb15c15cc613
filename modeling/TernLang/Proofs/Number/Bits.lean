import Mathlib.Algebra.Ring.Nat
import Mathlib.Tactic.Common
import TernLang.Number.Nearest

-- Floating-point numbers and their bits. A number is given by its bits, and a sign is one of them.

namespace TernLang.Floating

open Float.Model (UnpackedFloat Format)
open Float.Model.UnpackedFloat

theorem toNat_unpackMantissa (b : BitVec Format.binary64.numBits) :
    (unpackMantissa b).toNat = b.toNat % 2 ^ 52 := by
  simp [unpackMantissa, BitVec.extractLsb_toNat]

theorem toNat_unpackExponent (b : BitVec Format.binary64.numBits) :
    (unpackExponent b).toNat = b.toNat / 2 ^ 52 % 2 ^ 11 := by
  simp [unpackExponent, BitVec.extractLsb_toNat, Nat.shiftRight_eq_div_pow]

theorem toNat_unpackSign (b : BitVec Format.binary64.numBits) :
    (unpackSign b).toNat = b.toNat / 2 ^ 63 := by
  have hlt : b.toNat < 2 ^ 64 := b.isLt
  have hbit : (unpackSign b).toNat = (b.extractLsb 63 63).toNat := rfl
  rw [hbit, BitVec.extractLsb_toNat, Nat.shiftRight_eq_div_pow]
  omega

theorem toNat_packComponents (s : Sign) (e : BitVec 11) (m : BitVec 52) :
    (packComponents Format.binary64 s e m).toNat =
      s.toBitVec.toNat * 2 ^ 63 + e.toNat * 2 ^ 52 + m.toNat := by
  have he := e.isLt
  have hm := m.isLt
  simp only [packComponents, BitVec.toNat_append]
  rw [← Nat.shiftLeft_add_eq_or_of_lt he, ← Nat.shiftLeft_add_eq_or_of_lt hm]
  simp only [Nat.shiftLeft_eq]
  omega

-- A mantissa with its leading bit is packed without it, and under its exponent.
theorem pack_finite (s : Sign) (m : Nat) (e : Int) (h : 0 < m) :
    pack Format.binary64 (.finite s m e h) =
      if 2 ^ 11 ≤ (e + 1023 + 52).toNat + 1 then packedInfinity Format.binary64 s
      else if m.log2 + 1 = 53 then
        packComponents Format.binary64 s (BitVec.ofNat 11 (e + 1023 + 52).toNat) (BitVec.ofNat 52 m)
      else packComponents Format.binary64 s (0#11) (BitVec.ofNat 52 m) :=
  rfl

theorem toNat_pack_subnormal (s : Sign) {m : Nat} {e : Int} (he : e = -1074) (hpos : 0 < m)
    (hlt : m < 2 ^ 52) :
    (pack Format.binary64 (.finite s m e hpos)).toNat = s.toBitVec.toNat * 2 ^ 63 + m := by
  have hlog : m.log2 < 52 := (Nat.log2_lt (by omega)).2 hlt
  rw [pack_finite, if_neg (by omega), if_neg (by omega), toNat_packComponents, BitVec.toNat_ofNat,
    BitVec.toNat_ofNat]
  omega

theorem toNat_pack_normal (s : Sign) {n m e : Nat} {i : Int} (hn : n = 2 ^ 52 + m)
    (hi : i = e - 1075) (hm : m < 2 ^ 52) (hpos : 0 < e) (he : e < 2047) (h : 0 < n) :
    (pack Format.binary64 (.finite s n i h)).toNat =
      s.toBitVec.toNat * 2 ^ 63 + e * 2 ^ 52 + m := by
  have hlog : n.log2 = 52 := (Nat.log2_eq_iff (by omega)).2 ⟨by omega, by omega⟩
  have hbiased : (i + 1023 + 52).toNat = e := by omega
  rw [pack_finite, hbiased, if_neg (by omega), if_pos (by omega), toNat_packComponents,
    BitVec.toNat_ofNat, BitVec.toNat_ofNat]
  omega

section Unpacked

variable {b : BitVec Format.binary64.numBits}

theorem unpack_infinity (hexponent : unpackExponent b = -1#11)
    (hmantissa : unpackMantissa b = 0#52) :
    UnpackedFloat.unpack Format.binary64 b = .infinity (.ofBitVec (unpackSign b)) :=
  (if_pos hexponent).trans (if_pos hmantissa)

theorem unpack_zero (hexponent : unpackExponent b = 0#11) (hmantissa : unpackMantissa b = 0#52) :
    UnpackedFloat.unpack Format.binary64 b = .zero (.ofBitVec (unpackSign b)) := by
  have hlast : unpackExponent b ≠ -1#11 := by
    rw [hexponent]
    decide
  exact (if_neg hlast).trans ((if_pos hexponent).trans (dif_pos hmantissa))

theorem exists_unpack_subnormal (hexponent : unpackExponent b = 0#11)
    (hmantissa : unpackMantissa b ≠ 0#52) :
    ∃ h, UnpackedFloat.unpack Format.binary64 b =
      .finite (.ofBitVec (unpackSign b)) (unpackMantissa b).toNat
        ((unpackExponent b).toNat - 1075 + 1) h := by
  have hlast : unpackExponent b ≠ -1#11 := by
    rw [hexponent]
    decide
  exact ⟨_, (if_neg hlast).trans ((if_pos hexponent).trans (dif_neg hmantissa))⟩

theorem exists_unpack_normal (hlast : unpackExponent b ≠ -1#11)
    (hfirst : unpackExponent b ≠ 0#11) :
    ∃ h, UnpackedFloat.unpack Format.binary64 b =
      .finite (.ofBitVec (unpackSign b)) (1#1 ++ unpackMantissa b).toNat
        ((unpackExponent b).toNat - 1075) h :=
  ⟨_, (if_neg hlast).trans (if_neg hfirst)⟩

end Unpacked

-- The same number with another sign.
def setSign (s : Sign) : UnpackedFloat → UnpackedFloat
  | .notANumber => .notANumber
  | .infinity _ => .infinity s
  | .zero _ => .zero s
  | .finite _ m e hm => .finite s m e hm

-- The bits that are no number.
def IsNaN (n : Nat) : Prop := n / 2 ^ 52 % 2 ^ 11 = 2047 ∧ n % 2 ^ 52 ≠ 0

-- Packing what was unpacked gives the bits back, but for the sign that was set.
theorem toNat_pack_setSign (s : Sign) (b : BitVec Format.binary64.numBits)
    (hb : ¬IsNaN b.toNat) :
    (pack Format.binary64 (setSign s (UnpackedFloat.unpack Format.binary64 b))).toNat =
      s.toBitVec.toNat * 2 ^ 63 + b.toNat % 2 ^ 63 := by
  have hmantissa := toNat_unpackMantissa b
  have hexponent := toNat_unpackExponent b
  have hlast : unpackExponent b = -1#_ ↔ b.toNat / 2 ^ 52 % 2 ^ 11 = 2047 := by
    rw [← hexponent, ← BitVec.toNat_inj]
    simp
  have hfirst : unpackExponent b = 0#_ ↔ b.toNat / 2 ^ 52 % 2 ^ 11 = 0 := by
    rw [← hexponent, ← BitVec.toNat_inj]
    simp
  have hnone : unpackMantissa b = 0#_ ↔ b.toNat % 2 ^ 52 = 0 := by
    rw [← hmantissa, ← BitVec.toNat_inj]
    simp
  unfold IsNaN at hb
  by_cases hexp : b.toNat / 2 ^ 52 % 2 ^ 11 = 2047
  · have hzero : b.toNat % 2 ^ 52 = 0 := by
      by_contra hne
      exact hb ⟨hexp, hne⟩
    have hpacked : (pack Format.binary64 (.infinity s)).toNat =
        s.toBitVec.toNat * 2 ^ 63 + 2047 * 2 ^ 52 + 0 := toNat_packComponents s (-1#11) 0#52
    rw [unpack_infinity (hlast.2 hexp) (hnone.2 hzero)]
    refine hpacked.trans ?_
    omega
  by_cases hlow : b.toNat / 2 ^ 52 % 2 ^ 11 = 0
  · by_cases hzero : b.toNat % 2 ^ 52 = 0
    · have hpacked : (pack Format.binary64 (.zero s)).toNat =
          s.toBitVec.toNat * 2 ^ 63 + 0 * 2 ^ 52 + 0 := toNat_packComponents s 0#11 0#52
      rw [unpack_zero (hfirst.2 hlow) (hnone.2 hzero)]
      refine hpacked.trans ?_
      omega
    · obtain ⟨h, hunpack⟩ := exists_unpack_subnormal (hfirst.2 hlow) (mt hnone.1 hzero)
      rw [hunpack]
      refine (toNat_pack_subnormal s (by omega) h (by omega)).trans ?_
      omega
  · obtain ⟨h, hunpack⟩ := exists_unpack_normal (mt hlast.1 hexp) (mt hfirst.1 hlow)
    have hsum : (1#1 ++ unpackMantissa b).toNat = 2 ^ 52 + (unpackMantissa b).toNat := by
      rw [BitVec.toNat_append, ← Nat.shiftLeft_add_eq_or_of_lt (unpackMantissa b).isLt]
      simp [Nat.shiftLeft_eq]
    rw [hunpack]
    refine (toNat_pack_normal s hsum rfl (by omega) (by omega) (by omega) h).trans ?_
    omega

-- The bits of a number as a natural number.
def bits (x : Float) : Nat := x.toBits.toNat

-- A number is given by its bits.
theorem eq_of_bits {x y : Float} (h : bits x = bits y) : x = y := by
  obtain ⟨⟨a, _⟩⟩ := x
  obtain ⟨⟨b, _⟩⟩ := y
  have hab : a = b := UInt64.toNat_inj.1 h
  subst hab
  rfl

theorem setSign_unpack (b : BitVec Format.binary64.numBits) :
    setSign (Sign.ofBitVec (unpackSign b)) (UnpackedFloat.unpack Format.binary64 b) =
      UnpackedFloat.unpack Format.binary64 b := by
  by_cases hexp : unpackExponent b = -1#11
  · by_cases hzero : unpackMantissa b = 0#52
    · rw [unpack_infinity hexp hzero]
      rfl
    · have hnone : UnpackedFloat.unpack Format.binary64 b = .notANumber :=
        (if_pos hexp).trans (if_neg hzero)
      rw [hnone]
      rfl
  by_cases hlow : unpackExponent b = 0#11
  · by_cases hzero : unpackMantissa b = 0#52
    · rw [unpack_zero hlow hzero]
      rfl
    · obtain ⟨h, hunpack⟩ := exists_unpack_subnormal hlow hzero
      rw [hunpack]
      rfl
  · obtain ⟨h, hunpack⟩ := exists_unpack_normal hexp hlow
    rw [hunpack]
    rfl

theorem toNat_sign (b : BitVec 1) : (Sign.ofBitVec b).toBitVec.toNat = b.toNat := by
  have hb : b = 0#1 ∨ b = 1#1 := by
    revert b
    decide
  rcases hb with rfl | rfl <;> rfl

-- Every pattern of bits that stands for a number can be had.
theorem bits_ofBits {n : Nat} (hlt : n < 2 ^ 64) (hn : ¬IsNaN n) :
    bits (Float.ofBits (UInt64.ofNat n)) = n := by
  have hvec : (UInt64.ofNat n).toBitVec.toNat = n := by
    simpa using hlt
  have hpack := toNat_pack_setSign
    (Sign.ofBitVec (@unpackSign Format.binary64 (UInt64.ofNat n).toBitVec))
    (UInt64.ofNat n).toBitVec (by rwa [hvec])
  rw [setSign_unpack, toNat_sign, toNat_unpackSign, hvec] at hpack
  calc bits (Float.ofBits (UInt64.ofNat n))
      = (pack Format.binary64
          (UnpackedFloat.unpack Format.binary64 (UInt64.ofNat n).toBitVec)).toNat := rfl
    _ = n / 2 ^ 63 * 2 ^ 63 + n % 2 ^ 63 := hpack
    _ = n := by omega

theorem bits_abs {x : Float} (hx : ¬IsNaN (bits x)) : bits x.abs = bits x % 2 ^ 63 := by
  have habs : (UnpackedFloat.unpack Format.binary64 x.toBits.toBitVec).abs =
      setSign .positive (UnpackedFloat.unpack Format.binary64 x.toBits.toBitVec) := by
    cases UnpackedFloat.unpack Format.binary64 x.toBits.toBitVec <;> rfl
  have hpack := toNat_pack_setSign .positive x.toBits.toBitVec hx
  calc bits x.abs
      = (pack Format.binary64
          (UnpackedFloat.unpack Format.binary64 x.toBits.toBitVec).abs).toNat := rfl
    _ = 0 * 2 ^ 63 + bits x % 2 ^ 63 := by rw [habs, hpack]; rfl
    _ = bits x % 2 ^ 63 := by omega

-- A number that is not negative, or the infinity above all of them.
def IsNonnegative (x : Float) : Prop := bits x ≤ infiniteBits

theorem not_isNaN {n : Nat} (h : n ≤ infiniteBits) : ¬IsNaN n := by
  unfold infiniteBits leadingBit at h
  unfold IsNaN
  omega

theorem bits_ofBits_of_le {n : Nat} (h : n ≤ infiniteBits) :
    bits (Float.ofBits (UInt64.ofNat n)) = n := by
  apply bits_ofBits _ (not_isNaN h)
  unfold infiniteBits leadingBit at h
  omega

theorem abs_of_isNonnegative {x : Float} (hx : IsNonnegative x) : x.abs = x := by
  apply eq_of_bits
  rw [bits_abs (not_isNaN hx)]
  unfold IsNonnegative infiniteBits leadingBit at hx
  omega

-- The fields of the bits, where there is no sign among them.
theorem shape_of_lt {x : Float} (hx : bits x < infiniteBits) :
    shape x = .finite (if bits x < leadingBit then ⟨false, bits x, -1074⟩
      else ⟨false, leadingBit + bits x % leadingBit, (bits x / leadingBit : Nat) - 1075⟩) := by
  unfold infiniteBits at hx
  have hexponent : x.toBits.toNat / leadingBit < 2047 :=
    Nat.div_lt_of_lt_mul (by rw [Nat.mul_comm]; exact hx)
  have hmod : x.toBits.toNat / leadingBit % 2048 = x.toBits.toNat / leadingBit :=
    Nat.mod_eq_of_lt (by omega)
  have hsign : ¬signBit ≤ x.toBits.toNat := by
    unfold bits leadingBit at hx
    unfold signBit
    omega
  unfold shape
  simp only [hmod, bits]
  rw [if_neg (by omega)]
  by_cases hlt : x.toBits.toNat < leadingBit
  · simp [hlt, Nat.div_eq_of_lt hlt, Nat.mod_eq_of_lt hlt, hsign]
  · have hpos : x.toBits.toNat / leadingBit ≠ 0 := by
      have := (Nat.div_pos_iff (a := x.toBits.toNat) (b := leadingBit)).2 ⟨by decide, by omega⟩
      omega
    simp [hlt, hpos, hsign]

theorem shape_of_eq {x : Float} (hx : bits x = infiniteBits) : shape x = .infinite false := by
  have hbits : x.toBits.toNat = infiniteBits := hx
  unfold shape
  simp only [hbits]
  decide

end TernLang.Floating
