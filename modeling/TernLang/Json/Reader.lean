import TernLang.Json.Basic
import TernLang.Number.Reading

-- Values read from JSON text. Infinities and what is no number may be written as words.

namespace TernLang.Json

-- Why a text gives no value.
inductive Flaw where
  | malformed
  -- An integer with so many digits, which are too many.
  | tooManyDigits (n : Nat)
  -- Half of a pair of code units without the other half. No text has such a character.
  | halfCharacter
deriving DecidableEq, Repr

namespace Reader

-- Takes a piece of text without which the whole is malformed.
def require {α : Type} : Option α → Except Flaw α
  | some found => .ok found
  | none => .error .malformed

def isSpace (c : Char) : Bool := c = ' ' || c = '\t' || c = '\n' || c = '\r'

def skipSpace (cs : List Char) : List Char := cs.dropWhile isSpace

def hexValue? (c : Char) : Option Nat :=
  if c.isDigit then some (c.toNat - '0'.toNat)
  else if 'a' ≤ c ∧ c ≤ 'f' then some (c.toNat - 'a'.toNat + 10)
  else if 'A' ≤ c ∧ c ≤ 'F' then some (c.toNat - 'A'.toNat + 10)
  else none

-- Four hexadecimal digits.
def codeUnit? : List Char → Option (Nat × List Char)
  | a :: b :: c :: d :: cs => do
    let a ← hexValue? a
    let b ← hexValue? b
    let c ← hexValue? c
    let d ← hexValue? d
    some (((a * 16 + b) * 16 + c) * 16 + d, cs)
  | _ => none

-- The second half of a pair of code units that stand for one character.
def lowHalf? : List Char → Option (Nat × List Char)
  | '\\' :: 'u' :: cs => do
    let (n, cs) ← codeUnit? cs
    if 0xdc00 ≤ n ∧ n ≤ 0xdfff then some (n, cs) else none
  | _ => none

-- The code point of an escape, which may take two code units.
def codePoint (cs : List Char) : Except Flaw (Nat × List Char) := do
  let (n, rest) ← require (codeUnit? cs)
  if 0xd800 ≤ n ∧ n ≤ 0xdbff then
    match lowHalf? rest with
    | some (low, rest) => return (0x10000 + (n - 0xd800) * 0x400 + (low - 0xdc00), rest)
    | none => return (n, rest)
  else return (n, rest)

-- The character of a code point. Half a pair stands for none.
def character (n : Nat) : Except Flaw Char :=
  if n.isValidChar then .ok (Char.ofNat n) else .error .halfCharacter

-- The character after a backslash.
def escaped : List Char → Except Flaw (Char × List Char)
  | '\x22' :: cs => .ok ('\x22', cs)
  | '\\' :: cs => .ok ('\\', cs)
  | '/' :: cs => .ok ('/', cs)
  | 'b' :: cs => .ok ('\x08', cs)
  | 'f' :: cs => .ok ('\x0c', cs)
  | 'n' :: cs => .ok ('\n', cs)
  | 'r' :: cs => .ok ('\r', cs)
  | 't' :: cs => .ok ('\t', cs)
  | 'u' :: cs => do
    let (n, rest) ← codePoint cs
    let c ← character n
    return (c, rest)
  | _ => .error .malformed

-- The characters of a string up to its closing quote, in at most so many steps.
def string : Nat → List Char → Except Flaw (List Char × List Char)
  | 0, _ | _, [] => .error .malformed
  | n + 1, c :: cs =>
    if c = '\x22' then .ok ([], cs)
    else if c = '\\' then do
      let (d, cs) ← escaped cs
      let (rest, cs) ← string n cs
      return (d :: rest, cs)
    else if c.toNat < 0x20 then .error .malformed
    else do
      let (rest, cs) ← string n cs
      return (c :: rest, cs)

-- The digits after a point, if there are any.
def places : List Char → List Char × List Char
  | '.' :: cs =>
    let (digits, rest) := cs.span Char.isDigit
    if digits.isEmpty then ([], '.' :: cs) else (digits, rest)
  | cs => ([], cs)

-- The exponent, if there is a whole one.
def exponent? : List Char → Option (Int × List Char)
  | c :: cs =>
    let (negative, body) := Reading.sign cs
    let (digits, rest) := body.span Char.isDigit
    if (c = 'e' ∨ c = 'E') ∧ ¬digits.isEmpty then
      some (Reading.negateIf negative (Reading.natural digits), rest)
    else none
  | [] => none

-- The digits in front of a number. A zero in front stands alone.
def leading : List Char → List Char × List Char
  | '0' :: cs => (['0'], cs)
  | cs => cs.span Char.isDigit

-- A number without its sign.
def number (negative : Bool) (cs : List Char) : Except Flaw (Json × List Char) :=
  let (whole, rest) := leading cs
  if whole.isEmpty then .error .malformed
  else
    let (decimals, rest) := places rest
    let signed (x : Float) : Float := if negative then -x else x
    let real (e : Int) : Json :=
      .real (signed (Decimal.toFloat ⟨Reading.natural (whole ++ decimals), e - decimals.length⟩))
    match exponent? rest with
    | some (e, rest) => .ok (real e, rest)
    | none =>
      if decimals.isEmpty then
        if whole.length ≤ Reading.digitLimit then
          .ok (.int (Reading.negateIf negative (Reading.natural whole)), rest)
        else .error (.tooManyDigits whole.length)
      else .ok (real 0, rest)

-- The text after a word at the front.
def after? (word : String) (cs : List Char) : Option (List Char) :=
  if word.toList.isPrefixOf cs then some (cs.drop word.length) else none

def words : List (String × Json) :=
  [("null", .null), ("true", .bool true), ("false", .bool false), ("NaN", .real Reading.notANumber),
   ("Infinity", .real Reading.infinity), ("-Infinity", .real (-Reading.infinity))]

-- A word, or a number.
def simple (cs : List Char) : Except Flaw (Json × List Char) :=
  match words.findSome? fun (word, j) => (after? word cs).map fun rest => (j, rest) with
  | some found => .ok found
  | none =>
    match cs with
    | '-' :: cs => number true cs
    | cs => number false cs

mutual

-- A value at the front of a text, in at most so many steps.
def value : Nat → List Char → Except Flaw (Json × List Char)
  | 0, _ => .error .malformed
  | n + 1, cs =>
    match cs with
    | '\x22' :: cs => do
      let (s, cs) ← string (cs.length + 1) cs
      return (.str (String.ofList s), cs)
    | '[' :: cs =>
      match skipSpace cs with
      | ']' :: cs => .ok (.list [], cs)
      | cs => do
        let (elements, cs) ← items n cs
        return (.list elements, cs)
    | '\x7b' :: cs =>
      match skipSpace cs with
      | '\x7d' :: cs => .ok (.object [], cs)
      | cs => do
        let (pairs, cs) ← members n cs
        return (.object pairs, cs)
    | cs => simple cs

-- The elements of an array from the first on, with the closing bracket.
def items : Nat → List Char → Except Flaw (List Json × List Char)
  | 0, _ => .error .malformed
  | n + 1, cs => do
    let (first, cs) ← value n cs
    match skipSpace cs with
    | ']' :: cs => return ([first], cs)
    | ',' :: cs =>
      let (rest, cs) ← items n (skipSpace cs)
      return (first :: rest, cs)
    | _ => .error .malformed

-- The members of an object from the first on, with the closing brace.
def members : Nat → List Char → Except Flaw (List (String × Json) × List Char)
  | 0, _ => .error .malformed
  | n + 1, cs =>
    match cs with
    | '\x22' :: cs => do
      let (name, cs) ← string (cs.length + 1) cs
      match skipSpace cs with
      | ':' :: cs =>
        let (first, cs) ← value n (skipSpace cs)
        match skipSpace cs with
        | '\x7d' :: cs => return ([(String.ofList name, first)], cs)
        | ',' :: cs =>
          let (rest, cs) ← members n (skipSpace cs)
          return ((String.ofList name, first) :: rest, cs)
        | _ => .error .malformed
      | _ => .error .malformed
    | _ => .error .malformed

end

end Reader

-- The value of a text. Two steps a character are enough: one for a list and one for what stands in
-- it.
def parse (text : String) : Except Flaw Json := do
  let cs := text.toList
  let (j, rest) ← Reader.value (2 * cs.length + 2) (Reader.skipSpace cs)
  if (Reader.skipSpace rest).isEmpty then return j else .error .malformed

end TernLang.Json
