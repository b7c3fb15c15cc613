import TernLang.Eval.Evaluate

-- Calls of declared functions. The body runs in a new scope inside that of the caller, in which the
-- parameters are bound to the arguments. Calls may stand inside each other up to a limit.

namespace TernLang

namespace Procedure

-- Refuses an argument that is not of the kind of its sample.
def checkArgument (p : Procedure Value) (name : Tree) (sample : Option Value) (arg : Value) :
    Except Failure Unit :=
  match sample with
  | some v => do
    let got ← arg.kind
    let expected ← v.kind
    if got = expected then .ok ()
    else .error (.ofCause (.argumentKind name.shown p.name expected got))
  | none => .ok ()

-- The scope of a body: the arguments under the names of the parameters. The first argument that is
-- not of the kind of its sample is refused.
def receive (p : Procedure Value) (frame : Frame Value) :
    List (Tree × Option Value) → List Value → Except Failure (Frame Value)
  | (name, sample) :: parameters, arg :: args => do
    p.checkArgument name sample arg
    let name ← Name.bindable name
    p.receive (frame.declare name arg) parameters args
  | _, _ => .ok frame

-- The scope of a body, if the arguments are as many and of the kinds that the parameters ask for.
def frame (p : Procedure Value) (args : List Value) : Except Failure (Frame Value) :=
  if args.length = p.parameters.length then p.receive .empty p.parameters args
  else .error (.ofCause (.argumentCount p.name p.parameters.length args.length))

-- Refuses a result that is not of the kind of its sample.
def checkResult (p : Procedure Value) (value : Value) : Except Failure Unit :=
  match p.result with
  | some v => do
    let got ← value.kind
    let expected ← v.kind
    if got = expected then .ok () else .error (.ofCause (.resultKind p.name expected got))
  | none => .ok ()

end Procedure

namespace Eval

-- The value of a function's body.
def runBody (level : Int) (call : Caller) : Node → Eval Value
  | .block _ statements => evalBody level call statements
  | _ => throw (.fault .missingPart)

-- Calls a declared function when so many more calls may stand inside each other. `limit` is the
-- number of those that may at all, for the message.
def invoke (level limit : Int) : Nat → Caller
  | 0, p, args => do
    discard <| lift (p.frame args)
    emit level (.called p.name args)
    fail (.callDepth limit)
  | room + 1, p, args => do
    let frame ← lift (p.frame args)
    emit level (.called p.name args)
    let value ← inScope frame (runBody level (invoke level limit room) p.body)
    lift (p.checkResult value)
    emit level (.returned p.name value)
    pure value

end Eval

end TernLang
