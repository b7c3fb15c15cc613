-- Names of files: steps from the working directory or from the root. A step that stays where it is,
-- `.` or nothing between two slashes, is left out.

namespace TernLang

structure Path where
  -- What an absolute name starts with.
  root : String
  steps : List String
deriving DecidableEq, Repr

namespace Path

-- The slashes in front of a name: two of them are kept, and any other number is one.
def rootOf (cs : List Char) : String :=
  match (cs.takeWhile (· = '/')).length with
  | 0 => ""
  | 2 => "//"
  | _ => "/"

-- The parts of a name between its slashes.
def parts : List Char → List (List Char)
  | [] => [[]]
  | c :: cs =>
    if c = '/' then [] :: parts cs
    else
      match parts cs with
      | [] => [[c]]
      | p :: ps => (c :: p) :: ps

-- All steps of a name, also those that stay where they are. A name that starts at the root has an
-- empty first step.
def stepsOf (name : String) : List String := (parts name.toList).map String.ofList

def parse (name : String) : Path where
  root := rootOf name.toList
  steps := (stepsOf name).filter fun s => s ≠ "" ∧ s ≠ "."

def text (p : Path) : String :=
  if p.root = "" ∧ p.steps = [] then "." else p.root ++ "/".intercalate p.steps

-- The name of a file beside this one, with more at its end.
def extend (p : Path) (ending : String) : Path :=
  { p with steps := p.steps.dropLast ++ [p.steps.getLast?.getD "" ++ ending] }

end Path

end TernLang
