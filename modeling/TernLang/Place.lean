import TernLang.Position
import TernLang.Ast.Tree

-- The places of tokens, nodes and errors.

namespace TernLang

-- A line and a column. Those of a source text are the numbers of a position; a document may have
-- any data for them.
structure Place where
  line : Tree
  column : Tree
deriving DecidableEq

namespace Place

def ofPosition (p : Position) : Place := ⟨.int p.line, .int p.column⟩

instance : Coe Position Place := ⟨ofPosition⟩

def unknown : Place := Position.unknown

-- Where a text begins.
def start : Place := Position.start

def Known (p : Place) : Prop := p.line.isGiven

instance (p : Place) : Decidable p.Known := inferInstanceAs (Decidable (_ = true))

def text (p : Place) : String := p.line.shown ++ ":" ++ p.column.shown

@[simp]
theorem known_ofPosition (p : Position) : (ofPosition p).Known ↔ p.Known := by
  simp [Known, Position.Known, ofPosition, Tree.isGiven]

end Place

end TernLang
