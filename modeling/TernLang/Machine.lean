import TernLang.Json.Basic

-- The machine that programs run on, as far as it limits them: what its stack has room for. Nothing
-- in the language says how much that is, so everything that uses the stack is defined, and holds,
-- for every machine.

namespace TernLang

class Machine where
  -- How deep expressions may stand inside each other in a text that is parsed.
  room : Nat
  -- How deep nodes may stand inside each other in a statement that is run, when calls may stand
  -- so deep inside each other.
  levels : Int → Nat
  -- The documents that can be written, and those that can be read.
  writes : Json → Bool
  reads : Json → Bool
  -- There is room for as many brackets as the grammar lets stand inside each other.
  room_large : 64 < room
  levels_large {depth : Int} (h : 0 ≤ depth) : 64 < levels depth
  -- Room for more calls takes away no other room.
  levels_mono {d d' : Int} (h : d ≤ d') : levels d ≤ levels d'

namespace Machine

-- A machine to run programs on. Its numbers are large enough for what programs need; where exactly
-- a stack ends differs from host to host.
@[reducible]
def usual : Machine where
  room := 500
  levels depth := (500 + 8 * depth).toNat
  writes document := document.height ≤ 1000
  reads document := document.height ≤ 1000
  room_large := by decide
  levels_large h := by omega
  levels_mono h := by omega

end Machine

end TernLang
