import TernLang.Scope.Frame

-- Chains of scopes, from the current one outward. A name means what the innermost scope that binds
-- it says.

namespace TernLang

structure Chain (α : Type) where
  current : Frame α
  outer : List (Frame α) := []

namespace Chain

variable {α : Type}

def frames (c : Chain α) : List (Frame α) := c.current :: c.outer

-- Opens a scope inside the current one.
def push (c : Chain α) (f : Frame α) : Chain α := ⟨f, c.frames⟩

-- Leaves the current scope, unless it is the only one.
def pop (c : Chain α) : Chain α :=
  match c.outer with
  | [] => c
  | f :: fs => ⟨f, fs⟩

def declare (c : Chain α) (name : String) (value : α) : Chain α :=
  { c with current := c.current.declare name value }

def lookup? (c : Chain α) (name : String) : Option α := c.frames.findSome? (·.get? name)

-- Changes the variable in the innermost scope that has one of the name.
def assignIn? (name : String) (value : α) : List (Frame α) → Option (List (Frame α))
  | [] => none
  | f :: fs =>
    match f.assign? name value with
    | some g => some (g :: fs)
    | none => (assignIn? name value fs).map (f :: ·)

def assign? (c : Chain α) (name : String) (value : α) : Option (Chain α) :=
  match c.current.assign? name value with
  | some f => some { c with current := f }
  | none => (assignIn? name value c.outer).map fun outer => { c with outer }

end Chain

end TernLang
