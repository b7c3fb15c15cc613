import TernLang.Text.Blank

-- Cutting a text into pieces: at every occurrence of a separator, into its words, or at the end of
-- its first line.

namespace TernLang.Text

-- Puts a character in front of the first piece.
def consFirst (c : Char) : List (List Char) → List (List Char)
  | [] => [[c]]
  | piece :: pieces => (c :: piece) :: pieces

namespace Split

-- The pieces of a text of which the first `skip` characters belong to a separator already found.
def pieces (sep : List Char) : Nat → List Char → List (List Char)
  | _, [] => [[]]
  | skip + 1, _ :: cs => pieces sep skip cs
  | 0, c :: cs =>
    if sep.isPrefixOf (c :: cs) then [] :: pieces sep (sep.length - 1) cs
    else consFirst c (pieces sep 0 cs)

-- The pieces between the characters that a test selects; two such characters in a row have an
-- empty piece between them.
def between (cut : Char → Bool) : List Char → List (List Char)
  | [] => [[]]
  | c :: cs => if cut c then [] :: between cut cs else consFirst c (between cut cs)

end Split

-- Cuts at the occurrences of a non-empty separator, each taken leftmost in what is left.
def splitAt (sep cs : List Char) : List (List Char) :=
  Split.pieces sep 0 cs

-- The longest runs of characters that are not blank.
def words (cs : List Char) : List (List Char) :=
  (Split.between isBlank cs).filter (!·.isEmpty)

-- The first line with the newline that ends it, and the text after it.
def firstLine : List Char → List Char × List Char
  | [] => ([], [])
  | c :: cs =>
    if c = '\n' then ([c], cs)
    else
      let (line, rest) := firstLine cs
      (c :: line, rest)

-- Takes the characters that a test selects from the end of a text.
def trimRight (drop : Char → Bool) (cs : List Char) : List Char :=
  (cs.reverse.dropWhile drop).reverse

-- A line without the newline that ends it, if one does.
def dropNewline (cs : List Char) : List Char :=
  if cs.getLast? = some '\n' then cs.dropLast else cs

-- Every line end, also a carriage return alone or before a newline, as one newline.
def unifyLines : List Char → List Char
  | '\r' :: '\n' :: cs => '\n' :: unifyLines cs
  | '\r' :: cs => '\n' :: unifyLines cs
  | c :: cs => c :: unifyLines cs
  | [] => []

end TernLang.Text
