-- Sets of characters given by a table of code point spans, as the character database lists them.

namespace TernLang.Text

-- The code points `first`, `first + stride`, ... up to and including `last`.
structure Span where
  first : Nat
  last : Nat
  stride : Nat

namespace Span

def contains (s : Span) (n : Nat) : Bool :=
  s.first ≤ n && n ≤ s.last && (n - s.first) % s.stride == 0

-- Every character of the table's spans, as one test.
def anyContains (table : List Span) (c : Char) : Bool :=
  table.any (·.contains c.toNat)

end Span

end TernLang.Text
