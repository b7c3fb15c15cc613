import TernLang.Text.Printable

-- Quoted text, the way messages show a piece of source or a name: between single quotes, or between
-- double quotes where the text holds a single quote and no double one. The quote in use, the
-- backslash and characters that are not printable are written as escapes.

namespace TernLang.Text

-- A number in lower-case hexadecimal, with zeros in front up to the given width.
def hex (width n : Nat) : List Char :=
  let digits := Nat.toDigits 16 n
  List.replicate (width - digits.length) '0' ++ digits

namespace Quoted

-- The quote that stands at the two ends.
def mark (cs : List Char) : Char :=
  if cs.contains '\x27' && !cs.contains '\x22' then '\x22' else '\x27'

-- The shortest of the three escapes by code point that can hold the character.
def byCodePoint (c : Char) : List Char :=
  let n := c.toNat
  if n < 0x100 then '\\' :: 'x' :: hex 2 n
  else if n < 0x10000 then '\\' :: 'u' :: hex 4 n
  else '\\' :: 'U' :: hex 8 n

def escape (quote c : Char) : List Char :=
  if c = quote ∨ c = '\\' then ['\\', c]
  else if c = '\n' then ['\\', 'n']
  else if c = '\r' then ['\\', 'r']
  else if c = '\t' then ['\\', 't']
  else if isPrintable c then [c]
  else byCodePoint c

end Quoted

-- The text between quotes.
def quote (s : String) : String :=
  let cs := s.toList
  let mark := Quoted.mark cs
  String.ofList (mark :: cs.flatMap (Quoted.escape mark) ++ [mark])

end TernLang.Text
