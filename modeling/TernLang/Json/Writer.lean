import TernLang.Json.Basic
import TernLang.Number.Spelling
import TernLang.Text.Quoted

-- JSON text, one member or element a line, two blanks further in than what it stands in. All
-- characters but quotes, backslashes and controls are written as they are.

namespace TernLang.Json

-- The numbers without digits.
def words : Spelling.Words := ⟨"NaN", "Infinity"⟩

-- A character inside a string.
def escape (c : Char) : List Char :=
  if c = '\x22' then ['\\', '\x22']
  else if c = '\\' then ['\\', '\\']
  else if c = '\n' then ['\\', 'n']
  else if c = '\r' then ['\\', 'r']
  else if c = '\t' then ['\\', 't']
  else if c = '\x08' then ['\\', 'b']
  else if c = '\x0c' then ['\\', 'f']
  else if c.toNat < 0x20 then '\\' :: 'u' :: Text.hex 4 c.toNat
  else [c]

def quoted (s : String) : List Char := '\x22' :: s.toList.flatMap escape ++ ['\x22']

-- A new line that is so far in.
def newline (depth : Nat) : List Char := '\n' :: List.replicate (2 * depth) ' '

mutual

-- The text of a value that stands so deep in others.
def write (depth : Nat) : Json → List Char
  | null => "null".toList
  | bool b => (if b then "true" else "false").toList
  | int n => (toString n).toList
  | real x => (Spelling.real words x).toList
  | str s => quoted s
  | list [] => ['[', ']']
  | list (j :: js) =>
    '[' :: newline (depth + 1) ++ j.write (depth + 1) ++ writeItems (depth + 1) js ++
      newline depth ++ [']']
  | object [] => ['\x7b', '\x7d']
  | object ((name, j) :: members) =>
    '\x7b' :: newline (depth + 1) ++ quoted name ++ ':' :: ' ' :: j.write (depth + 1) ++
      writeMembers (depth + 1) members ++ newline depth ++ ['\x7d']

-- The elements after the first.
def writeItems (depth : Nat) : List Json → List Char
  | [] => []
  | j :: js => ',' :: newline depth ++ j.write depth ++ writeItems depth js

-- The members after the first.
def writeMembers (depth : Nat) : List (String × Json) → List Char
  | [] => []
  | (name, j) :: members =>
    ',' :: newline depth ++ quoted name ++ ':' :: ' ' :: j.write depth ++ writeMembers depth members

end

def render (j : Json) : String := String.ofList (j.write 0)

end TernLang.Json
