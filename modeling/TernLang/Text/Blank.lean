-- Blank characters: the ones that separate words and are trimmed from the ends of a text.

namespace TernLang.Text

-- White space of any script, and the four separators U+001C to U+001F.
def isBlank (c : Char) : Bool :=
  let n := c.toNat
  (9 ≤ n && n ≤ 13) || (0x1c ≤ n && n ≤ 0x20) || n == 0x85 || n == 0xa0 || n == 0x1680 ||
    (0x2000 ≤ n && n ≤ 0x200a) || n == 0x2028 || n == 0x2029 || n == 0x202f || n == 0x205f ||
    n == 0x3000

-- The text without the characters of a class at its two ends.
def trimBy (p : Char → Bool) (cs : List Char) : List Char :=
  ((cs.dropWhile p).reverse.dropWhile p).reverse

-- The text without the blanks at its two ends.
def trim (cs : List Char) : List Char := trimBy isBlank cs

end TernLang.Text
