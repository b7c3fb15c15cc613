import TernLang.Value.Text

-- What a run reports of itself. Every event has a level; a trace has the events up to its own
-- level.

namespace TernLang

inductive Event where
  | started (statements : Nat)
  | finished (value : Value)
  | failed (e : Error)
  | declared (name : String) (value : Value)
  | assigned (name : String) (value : Value)
  | defined (name : String) (parameters : List Tree)
  | tested (condition : Value)
  | matched (value : Value) (arm : Nat)
  | calledBuiltin (b : Builtin)
  | calledMethod (m : Method)
  | called (name : String) (args : List Value)
  | returned (name : String) (value : Value)
  | visited (type : String) (place : Place)

namespace Event

-- 1 for runs, 2 for names, 3 for decisions and calls, 4 for single nodes.
def level : Event → Nat
  | started _ | finished _ | failed _ => 1
  | declared .. | assigned .. | defined .. => 2
  | tested _ | matched .. | calledBuiltin _ | calledMethod _ | called .. | returned .. => 3
  | visited .. => 4

-- The values that an event shows.
def values : Event → List Value
  | finished v | declared _ v | assigned _ v | tested v | matched v _ | returned _ v => [v]
  | called _ args => args
  | started _ | failed _ | defined .. | calledBuiltin _ | calledMethod _ | visited .. => []

-- Why an event cannot be shown.
def fault? : Event → Option Fault
  | defined _ parameters => if parameters.all (·.text?.isSome) then none else some .wrongData
  | event => if Value.haveText event.values then none else some .endlessText

def text : Event → String
  | started statements => s!"run: {statements} statements"
  | finished value => s!"run finished: {value.debug}"
  | failed e => s!"error: {e.text}"
  | declared name value => s!"declare {name} = {value.debug}"
  | assigned name value => s!"assign {name} = {value.debug}"
  | defined name parameters =>
    s!"define function {name}({Value.commas (parameters.map Tree.shown)})"
  | tested condition => s!"if condition {condition.debug}"
  | matched value arm => s!"case {value.debug} matched arm {arm}"
  | calledBuiltin b => s!"call builtin {b.name}"
  | calledMethod m => s!"call method {m.name} on {m.kind.name}"
  | called name args => s!"call {name}({Value.commas (Value.debugAll args)})"
  | returned name value => s!"return from {name}: {value.debug}"
  | visited type place => s!"eval {type} at {place.text}"

-- The lines of a trace, each with a newline after it.
def render (events : List Event) : String := String.join (events.map (·.text ++ "\n"))

end Event

end TernLang
