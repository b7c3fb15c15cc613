import TernLang.Proofs.Eval.Handler
import TernLang.Proofs.Eval.Tally

-- Evaluation that counts the calls that stand inside each other. Beside the count the bodies are
-- kept that are being evaluated, and every node and every call that is come upon is put down with
-- both.

namespace TernLang

-- What an evaluation comes upon.
inductive Sight where
  | node (n : Node)
  | call (p : Procedure Value) (args : List Value)

-- What is come upon, with the count and the bodies then, the innermost first.
structure Sighting where
  sight : Sight
  active : Int
  bodies : List (Procedure Value)

structure Meter extends Tally where
  bodies : List (Procedure Value) := []
  -- The last one first.
  sightings : List Sighting := []

abbrev Metered := EStateM Failure Meter

namespace Metered

variable {α : Type}

-- What leaves the bodies as they are.
def counted (m : Counting α) : Metered α := fun c =>
  match m c.toTally with
  | .ok a t => .ok a { c with toTally := t }
  | .error e t => .error e { c with toTally := t }

-- What leaves the count as it is, too.
def own (m : Eval α) : Metered α := counted (Counting.uncounted m)

def see (sight : Sight) : Metered Unit := modify fun c =>
  { c with sightings := ⟨sight, c.active, c.bodies⟩ :: c.sightings }

-- Changes the meter before and after a computation, whether it ends well or not.
def between (start finish : Meter → Meter) (m : Metered α) : Metered α := fun c =>
  match m (start c) with
  | .ok a t => .ok a (finish t)
  | .error e t => .error e (finish t)

def inScope (frame : Frame Value) : Metered α → Metered α :=
  between (fun c => { c with state.scopes := c.state.scopes.push frame })
    fun t => { t with state.scopes := t.state.scopes.pop }

def executing (p : Procedure Value) : Metered α → Metered α :=
  between (fun c => { c with bodies := p :: c.bodies }) fun t => { t with bodies := t.bodies.tail }

-- Counts a call off when it is left.
def leaving : Metered α → Metered α := between id fun t => { t with active := t.active - 1 }

def located (place : Place) (m : Metered α) : Metered α := fun c =>
  match m c with
  | .ok a t => .ok a t
  | .error e t => .error (e.locate place) t

def reporting (level : Int) (m : Metered α) : Metered α := fun c =>
  match m c with
  | .ok a t => .ok a t
  | .error e t => own (Eval.reporting (fun e => Eval.emit level (.failed e)) (throw e)) t

def visit (level : Int) (node : Node) (m : Metered Value) : Metered Value := do
  see (.node node)
  match node.place? with
  | some place => do
    own (Eval.emit level (.visited node.typeName place))
    located place m
  | none => m

def handler (level : Int) : Handler Metered where
  level
  own _ := own
  bind way _ target value := own (Eval.bind level way target value)
  inScope
  visit := visit level

def eval (level : Int) (call : Handler.Caller Metered) (node : Node) : Metered Value :=
  (handler level).eval call node

-- A body inside the call that is counted for it.
def within (limit : Int) (p : Procedure Value) (frame : Frame Value) (m : Metered α) :
    Metered α := do
  counted (Counting.enter limit)
  leaving (inScope frame (executing p m))

-- Calls a declared function, whose body is evaluated by `evaluate`.
def call (level limit : Int) (evaluate : Node → Metered Value) : Handler.Caller Metered :=
  fun node p args => do
    see (.call p args)
    (handler level).invoke node p args fun frame => within limit p frame (evaluate p.body)

-- Only the count decides whether there is room for a call. How bodies are evaluated that stand more
-- than so many calls inside each other is left to `beyond`.
def invoke (level limit : Int) (beyond : Node → Metered Value) : Nat → Handler.Caller Metered
  | 0 => call level limit beyond
  | room + 1 => fun node =>
    call level limit ((handler level).runBody (eval level (invoke level limit beyond room)) node)
      node

def execute [Machine] (level depth : Int) (beyond : Node → Metered Value) (program : Node)
    (body : Items Node) : Metered Value :=
  (handler level).execute depth (eval level (invoke level depth beyond depth.toNat)) program body

-- Runs a program. The count starts anew with every run.
def run [Machine] (settings : Settings) (beyond : Node → Metered Value)
    (program : Node) : Metered Value :=
  let level := settings.level
  (handler level).run settings
    (fun depth body => do
      modify fun c => { c with active := 0 }
      reporting level (execute level depth beyond program body))
    program

end Metered

end TernLang
