import TernLang.Text.Blank
import TernLang.Text.DecimalDigit
import TernLang.Number.Shortest

-- Numbers read from text.
--
-- `integer` and `real?` are strict about their form. `looseInteger` and `looseReal?` also take
-- blanks at the ends, digits of any script and single underscores between digits.

namespace TernLang.Reading

-- The most digits an integer text may have.
def digitLimit : Nat := 4300

def digit (c : Char) : Nat := c.toNat - '0'.toNat

-- The number that a list of digits denotes.
def natural (cs : List Char) : Nat := cs.foldl (fun n c => 10 * n + digit c) 0

-- A sign in front of a text, as a factor, and the text after it.
def sign : List Char → Bool × List Char
  | '+' :: cs => (false, cs)
  | '-' :: cs => (true, cs)
  | cs => (false, cs)

def negateIf (negative : Bool) (n : Int) : Int := if negative then -n else n

def IsDigits (cs : List Char) : Prop := cs ≠ [] ∧ cs.all Char.isDigit

instance (cs : List Char) : Decidable (IsDigits cs) := inferInstanceAs (Decidable (_ ∧ _))

-- What a text says as an integer.
inductive Integer where
  | number (n : Int)
  | tooLong
  | malformed
deriving DecidableEq

-- An optional sign and digits.
def integer (cs : List Char) : Integer :=
  let (negative, digits) := sign cs
  if IsDigits digits then
    if digits.length ≤ digitLimit then .number (negateIf negative (natural digits)) else .tooLong
  else .malformed

-- Digits of every script as the digits `0` to `9`.
def plainDigits (cs : List Char) : List Char :=
  cs.map fun c =>
    match Text.digitValue? c with
    | some d => Char.ofNat ('0'.toNat + d)
    | none => c

-- Takes out the underscores. Each has to stand between two digits.
def dropUnderscores? : (afterDigit : Bool) → List Char → Option (List Char)
  | _, [] => some []
  | after, '_' :: cs =>
    if after && (cs.head?.any Char.isDigit) then dropUnderscores? false cs else none
  | _, c :: cs => (dropUnderscores? c.isDigit cs).map (c :: ·)

-- The blanks that may stand around a number: all but the four separators.
def isPadding (c : Char) : Bool := Text.isBlank c && !(0x1c ≤ c.toNat && c.toNat < 0x20)

def loosen? (cs : List Char) : Option (List Char) :=
  dropUnderscores? false (plainDigits (Text.trimBy isPadding cs))

-- As `integer`, in the looser form.
def looseInteger (cs : List Char) : Integer :=
  match loosen? cs with
  | some plain => integer plain
  | none => .malformed

-- The digits after a point, if there is a point.
def decimals : List Char → List Char × List Char
  | '.' :: cs => cs.span Char.isDigit
  | cs => ([], cs)

-- The exponent of ten after `e`, which ends the text.
def exponent? : List Char → Option Int
  | [] => some 0
  | c :: cs =>
    let (negative, digits) := sign cs
    if (c = 'e' ∨ c = 'E') ∧ IsDigits digits then some (negateIf negative (natural digits))
    else none

-- Digits with an optional point and an optional exponent; at least one digit before the
-- exponent.
def decimal? (cs : List Char) : Option Decimal := do
  let (whole, rest) := cs.span Char.isDigit
  let (places, rest) := decimals rest
  let e ← exponent? rest
  if whole.isEmpty && places.isEmpty then none
  else some ⟨natural (whole ++ places), e - places.length⟩

def infinity : Float := 1.0 / 0.0

def notANumber : Float := 0.0 / 0.0

-- A number without a sign. The words for infinity and for what is not a number may be written in
-- small and capital letters.
def unsigned? (cs : List Char) : Option Float :=
  let word := String.ofList (cs.map Char.toLower)
  if word = "inf" ∨ word = "infinity" then some infinity
  else if word = "nan" then some notANumber
  else (decimal? cs).map Decimal.toFloat

-- A real number with an optional sign, in digits of any script.
def real? (cs : List Char) : Option Float :=
  let (negative, rest) := sign (plainDigits cs)
  (unsigned? rest).map fun x => if negative then -x else x

-- As `real?`, in the looser form.
def looseReal? (cs : List Char) : Option Float := (loosen? cs).bind real?

end TernLang.Reading
