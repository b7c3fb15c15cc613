import TernLang.Number.Shortest

-- How numbers are spelled. A floating-point number is written with the fewest digits that read
-- back; positionally while the exponent of its first digit is from -4 to 15, with a power of ten
-- otherwise.

namespace TernLang.Spelling

-- The words for the numbers that have no digits.
structure Words where
  nan : String
  infinity : String

def zeros (n : Nat) : List Char := List.replicate n '0'

-- The digits of a decimal without zeros at the end, and the power of ten of the place before the
-- first of them.
def normalize (d : Decimal) : List Char × Int :=
  let digits := Nat.toDigits 10 d.digits
  let kept := (digits.reverse.dropWhile (· = '0')).reverse
  (if kept.isEmpty then ['0'] else kept, digits.length + d.exponent)

-- The exponent of ten, with its sign and at least two digits.
def power (e : Int) : List Char :=
  let digits := Nat.toDigits 10 e.natAbs
  (if e < 0 then '-' else '+') :: zeros (2 - digits.length) ++ digits

def scientific (digits : List Char) (e : Int) : List Char :=
  digits.take 1 ++ (if digits.length = 1 then [] else '.' :: digits.drop 1) ++ 'e' :: power e

def positional (digits : List Char) (place : Int) : List Char :=
  if place ≤ 0 then '0' :: '.' :: zeros place.natAbs ++ digits
  else
    let whole := digits.take place.toNat
    let rest := digits.drop place.toNat
    whole ++ zeros (place.toNat - whole.length) ++ '.' :: (if rest.isEmpty then ['0'] else rest)

def decimal (d : Decimal) : List Char :=
  let (digits, place) := normalize d
  if place - 1 < -4 ∨ 16 ≤ place - 1 then scientific digits (place - 1)
  else positional digits place

def sign (negative : Bool) : List Char := if negative then ['-'] else []

-- A floating-point number: `1.0`, `0.1`, `1e+16`, `1.5e-07`.
def real (words : Words) (x : Float) : String :=
  match Floating.shape x with
  | .nan => words.nan
  | .infinite negative => String.ofList (sign negative ++ words.infinity.toList)
  | .finite f =>
    let body := if f.significand = 0 then ['0', '.', '0'] else decimal (Shortest.decimal f x.abs)
    String.ofList (sign f.negative ++ body)

-- An integral number is shown with all its digits and without a point: `1`, `-0`, `1000`.
def shown (words : Words) (x : Float) : String :=
  match Floating.shape x with
  | .finite f =>
    if f.IsIntegral then String.ofList (sign f.negative ++ Nat.toDigits 10 f.truncate.natAbs)
    else real words x
  | _ => real words x

end TernLang.Spelling
