import TernLang.Ast.Document
import TernLang.Eval.Invoke
import TernLang.Grammar.Statement
import TernLang.Host
import TernLang.Machine

-- Sessions: programs run one after another over the same global names, one input and one output.

namespace TernLang

structure Settings where
  -- The level of the trace; there is none at 0.
  level : Int := 0
  -- How deep calls may stand inside each other, if a number was given for it.
  depth : Option Int := some 1000

namespace Settings

-- The frames that a run may take on the stack of the machine.
def frames (depth : Int) : Int := 1000 + 16 * depth

-- The depth, if there is a stack for it. Frames are counted in 32 bits, and there has to be one at
-- least.
def checkStack (s : Settings) : Except Failure Int :=
  match s.depth with
  | none => .error (.fault .wrongData)
  | some depth =>
    if frames depth < -0x80000000 ∨ 0x80000000 ≤ frames depth then
      .error (.fault .boundlessStack)
    else if frames depth < 1 then .error (.fault .noStack)
    else .ok depth

-- Whether there is room for the levels of a statement.
def hasRoom [Machine] (depth : Int) (statement : Node) : Bool :=
  statement.nesting ≤ Machine.levels depth

end Settings

namespace Node

-- What is run of a node: the statements in its body.
def body? : Node → Option (Items Node)
  | program _ body => some body
  | function _ _ _ _ body | arm _ _ body => some body.toTree.toItems
  | _ => none

end Node

namespace Eval

-- Reports the error that a computation ends with, if it does. A text without an end exhausts the
-- stack.
def reporting {α : Type} (report : Error → Eval Unit) (m : Eval α) : Eval α := fun s =>
  match m s with
  | .ok a s => .ok a s
  | .error (.error e) s => reported e s
  | .error (.fault .endlessText) s => reported ⟨.stackExhausted, .unknown⟩ s
  | .error (.fault f) s => .error (.fault f) s
where
  reported (e : Error) : Eval α := do
    report e
    throw (.error e)

-- The statements of a program in order. The first one for which the stack has no room ends the
-- run.
def execute [Machine] (level depth : Int) (body : Items Node) : Eval Value :=
  let call := invoke level depth depth.toNat
  match body with
  | .list statements => do
    let fitting := statements.takeWhile (Settings.hasRoom depth)
    let value ← evalSequence level call .null fitting
    if fitting.length = statements.length then pure value else fail .stackExhausted
  | .other _ => evalBody level call body

-- Reports the value of a run, which has to have a text, be there a trace or not.
def finish (level : Int) (value : Value) : Eval Value :=
  if value.hasText then do
    emit level (.finished value)
    pure value
  else throw (.fault .endlessText)

-- Runs a program and reports how it goes.
def run [Machine] (settings : Settings) (program : Node) : Eval Value :=
  let level := settings.level
  match program.body?.map fun body => (body, body.size?) with
  | none => throw (.fault .missingPart)
  | some (_, none) => throw (.fault .wrongData)
  | some (body, some size) => do
    emit level (.started size)
    let depth ← lift settings.checkStack
    let value ← reporting (fun e => emit level (.failed e)) (execute level depth body)
    finish level value

end Eval

structure Session where
  settings : Settings
  state : State

namespace Session

-- The constants that every program starts with.
def seeds : Bindings Value :=
  [("null", .null), ("true", .bool true), ("false", .bool false), ("print", .builtin .print),
   ("input", .builtin .input), ("tup", .builtin .tup)]

theorem forall_seeds {P : Value → Prop} (hnull : P .null) (hbool : ∀ b, P (.bool b))
    (hbuiltin : ∀ b, P (.builtin b)) : ∀ b ∈ seeds, P b.2 := by
  simp only [seeds, List.mem_cons, List.not_mem_nil, or_false, forall_eq_or_imp, forall_eq]
  exact ⟨hnull, hbool _, hbool _, hbuiltin _, hbuiltin _, hbuiltin _⟩

def start (settings : Settings) (input : String) : Session where
  settings
  state :=
    { scopes := { current := { consts := seeds } }, input := input.toList, output := "",
      trace := #[] }

-- Runs a computation on the state of a session.
def perform {α : Type} (s : Session) (m : Eval α) : Except Failure α × Session :=
  match m s.state with
  | .ok a state => (.ok a, { s with state })
  | .error failure state => (.error failure, { s with state })

variable [Machine]

def run (s : Session) (program : Node) : Except Failure Value × Session :=
  s.perform (Eval.run s.settings program)

def runSource (s : Session) (source : String) : Except Failure Value × Session :=
  match Node.parse source with
  | .ok program => s.run program
  | .error failure => (.error failure, s)

-- Runs a program in a scope of its own.
def runInside (s : Session) (source : String) : Except Failure Value × Session :=
  match Node.parse source with
  | .ok program => s.perform (Eval.inScope .empty (Eval.run s.settings program))
  | .error failure => (.error failure, s)

-- Binds a global name.
def define (s : Session) (name : Tree) (data : Host) : Except Failure Session := do
  let value ← data.toValue
  let name ← Name.bindable name
  return { s with state := { s.state with scopes := s.state.scopes.declare name value } }

-- What was written and reported since the last time, and the session without it.
def flush (s : Session) : String × List Event × Session :=
  let emptied := { s.state with output := "", trace := #[] }
  (s.state.output, s.state.trace.toList, { s with state := emptied })

-- The global variables in the order of their names.
def vars (s : Session) : Bindings Value := s.state.scopes.current.vars.sorted

-- The global constants that a program has declared, in the order of their names.
def consts (s : Session) : Bindings Value :=
  Bindings.sorted (s.state.scopes.current.consts.filter fun b => (seeds.get? b.1).isNone)

end Session

end TernLang
