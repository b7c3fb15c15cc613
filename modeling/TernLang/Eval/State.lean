import TernLang.Eval.Event
import TernLang.Scope.Chain
import TernLang.Scope.Name
import TernLang.Text.Split

-- The state of a run and the steps that change it. A run that fails keeps the state it has reached.

namespace TernLang

structure State where
  scopes : Chain Value
  -- What is left to read.
  input : List Char
  -- What was written.
  output : String
  trace : Array Event
  -- How many results were numbered.
  results : Nat := 0

-- A computation on a state, with a value or a failure.
abbrev Eval := EStateM Failure State

namespace Eval

def fail {α : Type} (cause : Error.Cause) : Eval α := throw (.ofCause cause)

-- Takes over the outcome of an operation on values.
def lift {α : Type} : Except Failure α → Eval α
  | .ok a => pure a
  | .error failure => throw failure

-- Takes over the result of an operation on numbers, and numbers what is new in it.
def result (outcome : Except Failure Value) : Eval Value := do
  let (value, results) := (← lift outcome).number (← get).results
  modify fun s => { s with results }
  pure value

-- An error of the computation that has no place yet gets this one.
def located {α : Type} (place : Place) (m : Eval α) : Eval α := fun s =>
  match m s with
  | .ok a s => .ok a s
  | .error failure s => .error (failure.locate place) s

-- Runs a computation in a scope of its own inside the current one, which is left whether it ends
-- well or not.
def inScope {α : Type} (frame : Frame Value) (m : Eval α) : Eval α := fun s =>
  match m { s with scopes := s.scopes.push frame } with
  | .ok a s => .ok a { s with scopes := s.scopes.pop }
  | .error failure s => .error failure { s with scopes := s.scopes.pop }

-- Reports an event, if the trace has its level.
def emit (level : Int) (event : Event) : Eval Unit :=
  if event.level ≤ level then
    match event.fault? with
    | none => modify fun s => { s with trace := s.trace.push event }
    | some f => throw (.fault f)
  else pure ()

def lookup (name : Tree) : Eval Value := do
  lift (Name.lookup (← get).scopes.lookup? name)

-- Binds a name in the current scope.
def declare (name : Tree) (value : Value) : Eval Unit := do
  let name ← lift (Name.bindable name)
  modify fun s => { s with scopes := s.scopes.declare name value }

-- Changes a variable.
def assign (name : Tree) (value : Value) : Eval Unit := do
  let scopes ← lift (Name.lookup ((← get).scopes.assign? · value) name)
  modify fun s => { s with scopes }

def write (text : String) : Eval Unit := modify fun s => { s with output := s.output ++ text }

-- Reads a line, without the line end.
def readLine : Eval String := do
  let (line, rest) := Text.firstLine (← get).input
  modify fun s => { s with input := rest }
  pure (String.ofList (Text.trimRight (fun c => c = '\r' || c = '\n') line))

end Eval

end TernLang
