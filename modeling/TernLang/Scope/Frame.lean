import TernLang.Text.Uppercase

-- Scopes: the names that are bound in one place. A name of upper-case letters only is that of a
-- constant, and constants are kept apart from variables.

namespace TernLang

-- Names with what they are bound to, in the order in which they were first bound.
abbrev Bindings (α : Type) := List (String × α)

namespace Bindings

variable {α : Type}

def get? (bs : Bindings α) (name : String) : Option α := (bs.find? (·.1 = name)).map (·.2)

-- Binds a name anew, or changes what it is bound to.
def put (name : String) (value : α) : Bindings α → Bindings α
  | [] => [(name, value)]
  | (n, v) :: bs => if n = name then (n, value) :: bs else (n, v) :: put name value bs

-- The bindings in the order of the names' characters.
def sorted (bs : Bindings α) : Bindings α := bs.mergeSort fun a b => a.1 ≤ b.1

@[simp]
theorem get?_nil (name : String) : get? ([] : Bindings α) name = none := rfl

theorem get?_cons (n : String) (v : α) (bs : Bindings α) (name : String) :
    get? ((n, v) :: bs) name = if n = name then some v else get? bs name := by
  by_cases h : n = name <;> simp [get?, h]

@[simp]
theorem get?_put_self (bs : Bindings α) (name : String) (value : α) :
    (bs.put name value).get? name = some value := by
  induction bs with
  | nil => simp [put, get?_cons]
  | cons b bs ih =>
    obtain ⟨n, v⟩ := b
    by_cases h : n = name
    · simp [put, h, get?_cons]
    · simp [put, h, get?_cons, ih]

theorem get?_put_of_ne (bs : Bindings α) {name other : String} (value : α) (h : name ≠ other) :
    (bs.put name value).get? other = bs.get? other := by
  induction bs with
  | nil => simp [put, get?_cons, h]
  | cons b bs ih =>
    obtain ⟨n, v⟩ := b
    by_cases hn : n = name
    · simp [put, get?_cons, hn, h]
    · simp [put, hn, get?_cons, ih]

end Bindings

-- Whether a name is that of a constant.
def isConstantName (name : String) : Bool := name.toList.all Text.isUppercase

structure Frame (α : Type) where
  vars : Bindings α := []
  consts : Bindings α := []

namespace Frame

variable {α : Type}

def empty : Frame α := {}

-- Binds a name. What it was bound to before is forgotten.
def declare (f : Frame α) (name : String) (value : α) : Frame α :=
  if isConstantName name then { f with consts := f.consts.put name value }
  else { f with vars := f.vars.put name value }

def get? (f : Frame α) (name : String) : Option α :=
  match f.vars.get? name with
  | some value => some value
  | none => f.consts.get? name

-- Changes a variable that is bound here.
def assign? (f : Frame α) (name : String) (value : α) : Option (Frame α) :=
  if (f.vars.get? name).isSome then some { f with vars := f.vars.put name value }
  else none

end Frame

end TernLang
