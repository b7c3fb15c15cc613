-- Places in a source text.

namespace TernLang

-- A line and a column, both counted from 1. Line 0 stands for a place that is not known.
structure Position where
  line : Int
  column : Int
deriving DecidableEq, Repr

namespace Position

def unknown : Position := ⟨0, 0⟩

-- Where a text begins.
def start : Position := ⟨1, 1⟩

def Known (p : Position) : Prop := p.line ≠ 0

instance (p : Position) : Decidable p.Known := inferInstanceAs (Decidable (_ ≠ _))

-- The place after a character: a newline starts the next line.
def next (p : Position) (c : Char) : Position :=
  if c = '\n' then ⟨p.line + 1, 1⟩ else ⟨p.line, p.column + 1⟩

-- The place after a text.
def after (p : Position) (cs : List Char) : Position := cs.foldl next p

@[simp]
theorem after_nil (p : Position) : p.after [] = p := rfl

@[simp]
theorem after_cons (p : Position) (c : Char) (cs : List Char) :
    p.after (c :: cs) = (p.next c).after cs := rfl

theorem after_append (p : Position) (cs ds : List Char) :
    p.after (cs ++ ds) = (p.after cs).after ds := by
  simp [after]

end Position

end TernLang
