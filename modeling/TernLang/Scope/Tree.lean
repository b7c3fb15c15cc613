import TernLang.Scope.Name

-- Trees of scopes, numbered in the order in which they were made. Scope 0 is the root; every other
-- one was made inside a scope with a smaller number.

namespace TernLang

structure ScopeTree (α : Type) where
  -- The scopes after the root, each with the number of the one around it.
  inner : List (Nat × Frame α) := []
  root : Frame α := {}

namespace ScopeTree

variable {α : Type}

def frame? (t : ScopeTree α) : Nat → Option (Frame α)
  | 0 => some t.root
  | i + 1 => (t.inner[i]?).map (·.2)

-- The scope around one that is not the root.
def parent? (t : ScopeTree α) : Nat → Option Nat
  | 0 => none
  | i + 1 => (t.inner[i]?).map (·.1)

-- A scope and the scopes around it, at most as many as the first argument says.
def pathWithin (t : ScopeTree α) : Nat → Nat → List Nat
  | 0, _ => []
  | n + 1, i =>
    match t.parent? i with
    | some p => i :: t.pathWithin n p
    | none => [i]

-- A scope and the scopes around it, from the inside out.
def path (t : ScopeTree α) (i : Nat) : List Nat := t.pathWithin (i + 1) i

-- Makes a scope inside another, and gives its number.
def child (t : ScopeTree α) (parent : Nat) : Nat × ScopeTree α :=
  (t.inner.length + 1, { t with inner := t.inner ++ [(parent, {})] })

-- Changes one scope.
def modify (t : ScopeTree α) (i : Nat) (f : Frame α → Frame α) : ScopeTree α :=
  match i with
  | 0 => { t with root := f t.root }
  | i + 1 => { t with inner := t.inner.modify i fun (p, frame) => (p, f frame) }

def declare (t : ScopeTree α) (i : Nat) (name : Tree) (value : α) :
    Except Failure (ScopeTree α) := do
  let name ← Name.bindable name
  return t.modify i (·.declare name value)

-- What the innermost scope that binds a name says.
def lookup? (t : ScopeTree α) (i : Nat) (name : String) : Option α :=
  (t.path i).findSome? fun j => (t.frame? j).bind (·.get? name)

def lookup (t : ScopeTree α) (i : Nat) (name : Tree) : Except Failure α :=
  Name.lookup (t.lookup? i) name

-- Whether a scope has a variable of the name.
def hasVariable (t : ScopeTree α) (name : String) (i : Nat) : Bool :=
  (t.frame? i).any fun f => (f.vars.get? name).isSome

-- Changes the variable in the innermost scope that has one of the name.
def assign? (t : ScopeTree α) (i : Nat) (value : α) (name : String) : Option (ScopeTree α) :=
  ((t.path i).find? (t.hasVariable name)).map fun j =>
    t.modify j fun f => { f with vars := f.vars.put name value }

def assign (t : ScopeTree α) (i : Nat) (name : Tree) (value : α) : Except Failure (ScopeTree α) :=
  Name.lookup (t.assign? i value) name

end ScopeTree

end TernLang
