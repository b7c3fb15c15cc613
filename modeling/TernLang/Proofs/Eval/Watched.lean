import TernLang.Proofs.Eval.Handler

-- Evaluation that keeps watch of the node it is at. What a node does itself fails at this node, and
-- what the evaluation of another node fails with is passed on as it is. No place is ever attached.

namespace TernLang

-- A failure as it comes up, and the innermost node that is being evaluated then.
structure Raised where
  failure : Failure
  node : Node

abbrev Watched := EStateM Raised State

namespace Watched

variable {α : Type}

-- What a node does itself.
def own (node : Node) (m : Eval α) : Watched α := fun s =>
  match m s with
  | .ok a t => .ok a t
  | .error failure t => .error ⟨failure, node⟩ t

def inScope (frame : Frame Value) (m : Watched α) : Watched α := fun s =>
  match m { s with scopes := s.scopes.push frame } with
  | .ok a t => .ok a { t with scopes := t.scopes.pop }
  | .error raised t => .error raised { t with scopes := t.scopes.pop }

mutual

-- Binds the names of a target, for a node. A tuple that does not have the shape of its value fails
-- at the tuple.
def bind (level : Int) (way : Eval.Binding) (node : Node) : Node → Option Value → Watched Unit
  | .ident _ name, value => own node (Eval.bindName level way name (value.getD .null))
  | .tuple _ elements, none =>
    bindItems level way node elements (List.replicate (elements.size?.getD 0) none)
  | .tuple place elements, some (.tuple items) =>
    match elements.size? with
    | some names =>
      if items.length = names then bindItems level way node elements (items.map Value.given)
      else own (.tuple place elements) (Eval.fail (.tupleSize items.length names))
    | none => own node (throw (.fault .wrongData))
  | .tuple place elements, some value => do
    let kind ← own node (Eval.lift value.kind)
    own (.tuple place elements) (Eval.fail (.notDestructurable kind))
  | .stray _, _ => own node (throw (.fault .missingPart))
  | target, _ => own target (Eval.fail .unassignable)

def bindItems (level : Int) (way : Eval.Binding) (node : Node) :
    Items Node → List (Option Value) → Watched Unit
  | .list targets, values => bindAll level way node targets values
  | .other t, _ => own node (Eval.noItems .missingPart t)

def bindAll (level : Int) (way : Eval.Binding) (node : Node) :
    List Node → List (Option Value) → Watched Unit
  | target :: targets, value :: values => do
    bind level way node target value
    bindAll level way node targets values
  | _, _ => pure ()

end

def visit (level : Int) (node : Node) (m : Watched Value) : Watched Value :=
  match node.place? with
  | some place => do
    own node (Eval.emit level (.visited node.typeName place))
    m
  | none => m

-- A tuple that is bound is to blame itself, and for all else the node that is being evaluated.
def handler (level : Int) : Handler Watched where
  level
  own
  bind := bind level
  inScope
  visit := visit level

-- The checks before and after the body fail at the node that calls, and so does a call for which
-- there is no room. The body runs inside this node.
def invoke (level limit : Int) : Nat → Handler.Caller Watched
  | 0, node, p, args =>
    (handler level).invoke node p args fun _ => own node (Eval.fail (.callDepth limit))
  | room + 1, node, p, args =>
    let h := handler level
    h.invoke node p args fun frame =>
      inScope frame (h.runBody (h.eval (invoke level limit room)) node p.body)

-- Runs the statements of a program as far as the stack has room for them.
def run [Machine] (settings : Settings) : Node → Watched Value
  | .program place (.list statements) => do
    own (.program place (.list statements)) (Eval.emit settings.level (.started statements.length))
    let depth ← own (.program place (.list statements)) (Eval.lift settings.checkStack)
    Handler.evalSequence
      ((handler settings.level).eval (invoke settings.level depth depth.toNat)) .null
      (statements.takeWhile (Settings.hasRoom depth))
  | program => own program (throw (.fault .missingPart))

end Watched

end TernLang
