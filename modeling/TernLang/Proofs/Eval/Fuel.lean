import TernLang.Proofs.Eval.Handler

-- Evaluation with fuel. It follows no tree down: every node that is evaluated takes a unit of fuel,
-- be it a part of the node before it or the body of a function that is called. The calls that stand
-- inside each other are counted.

namespace TernLang

-- A computation that may run out of fuel; it has no value then.
abbrev Fuelled := OptionT Eval

namespace Fuelled

variable {α β : Type}

-- A step that needs no fuel.
def step (m : Eval α) : Fuelled α := OptionT.lift m

def located (place : Place) (m : Fuelled α) : Fuelled α := OptionT.mk (Eval.located place m.run)

def inScope (frame : Frame Value) (m : Fuelled α) : Fuelled α :=
  OptionT.mk (Eval.inScope frame m.run)

def reporting (report : Error → Eval Unit) (m : Fuelled α) : Fuelled α :=
  OptionT.mk (Eval.reporting report m.run)

def visit (level : Int) (node : Node) (m : Fuelled Value) : Fuelled Value :=
  match node.place? with
  | some place => do
    step (Eval.emit level (.visited node.typeName place))
    located place m
  | none => m

-- Every step is one that needs no fuel.
def handler (level : Int) : Handler Fuelled where
  level
  own _ := step
  bind way _ target value := step (Eval.bind level way target value)
  inScope
  visit := visit level

-- Calls a declared function when `depth` calls stand around this one. Its body is evaluated by
-- `eval`.
def invoke (level limit depth : Int) (eval : Node → Fuelled Value) : Handler.Caller Fuelled :=
  fun node p args =>
    (handler level).invoke node p args fun frame =>
      if limit < depth + 1 then step (Eval.fail (.callDepth limit))
      else inScope frame ((handler level).runBody eval node p.body)

def eval (level limit : Int) : (fuel : Nat) → (depth : Int) → Node → Fuelled Value
  | 0, _, _ => failure
  | fuel + 1, depth, node =>
    let h := handler level
    h.visit node <|
      h.dispatch (eval level limit fuel depth)
        (invoke level limit depth (eval level limit fuel (depth + 1))) node

-- The statements of a program, where no call stands around them.
def execute [Machine] (level depth : Int) (fuel : Nat) (program : Node) (body : Items Node) :
    Fuelled Value :=
  (handler level).execute depth (eval level depth fuel 0) program body

-- Runs a program with so much fuel.
def runProgram [Machine] (settings : Settings) (fuel : Nat) (program : Node) : Fuelled Value :=
  let level := settings.level
  (handler level).run settings
    (fun depth body =>
      reporting (fun e => Eval.emit level (.failed e)) (execute level depth fuel program body))
    program

end Fuelled

end TernLang
