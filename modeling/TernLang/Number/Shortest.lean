import TernLang.Number.Nearest

-- The shortest decimal that reads back as a given floating-point number, and of several such the
-- nearest to it.

namespace TernLang

-- The decimal `digits * 10 ^ exponent`.
structure Decimal where
  digits : Nat
  exponent : Int
deriving DecidableEq

namespace Decimal

-- A power of ten.
def tens (n : Nat) : Nat := Nat.pow 10 n

-- The floating-point number nearest to a decimal, of two such the one with an even significand.
-- Powers of ten are not worked out where it is plain that they lead to infinity or to zero.
def toFloat (d : Decimal) : Float :=
  if d.digits = 0 ∨ d.digits.log2 + 3 * d.exponent < -1076 then Float.ofBits 0
  else if 310 < d.exponent then Float.ofBits (UInt64.ofNat Floating.infiniteBits)
  else Floating.nearest (d.digits * tens d.exponent.toNat) (tens (-d.exponent).toNat)

end Decimal

namespace Shortest

-- Decides whether a decimal is read as the given number.
def ReadsAs (d : Decimal) (x : Float) : Prop := d.toFloat = x

instance (d : Decimal) (x : Float) : Decidable (ReadsAs d x) :=
  inferInstanceAs (Decidable (_ = _))

-- The place of the first digit of `num / den`: the least `k` with `num / den < 10 ^ k`.
def magnitude (num den : Nat) : Int :=
  if den ≤ num then ((Nat.toDigits 10 (num / den)).length : Int)
  else
    match (List.range 400).find? fun j => den ≤ num * Decimal.tens j with
    | some j => 1 - (j : Int)
    | none => 0

-- The multiples of `10 ^ exponent` next to `num / den`, below and above; the nearer one comes
-- first, and of two equally near ones the even one.
def neighbours (num den : Nat) (exponent : Int) : List Decimal :=
  let up := Decimal.tens (-exponent).toNat
  let down := Decimal.tens exponent.toNat
  let low := num * up / (den * down)
  let rest := num * up % (den * down)
  if 2 * rest < den * down ∨ 2 * rest = den * down ∧ low % 2 = 0 then
    [⟨low, exponent⟩, ⟨low + 1, exponent⟩]
  else [⟨low + 1, exponent⟩, ⟨low, exponent⟩]

-- All digits of a binary fraction.
def full (f : Fraction) : Decimal :=
  if f.exponent < 0 then ⟨f.significand * Nat.pow 5 f.exponent.natAbs, f.exponent⟩
  else ⟨f.significand <<< f.exponent.natAbs, 0⟩

-- The decimal of at most seventeen digits, as few as possible, that reads as the absolute value
-- `x` of the fraction `f`; where there is none, all digits.
def decimal (f : Fraction) (x : Float) : Decimal :=
  let place := magnitude f.numerator f.denominator
  let found := (List.range 17).findSome? fun (n : Nat) =>
    (neighbours f.numerator f.denominator (place - ((n : Int) + 1))).find? fun d => ReadsAs d x
  found.getD (full f)

end Shortest

end TernLang
