import TernLang.Eval.State
import TernLang.Value.Arithmetic
import TernLang.Value.Comparison
import TernLang.Value.Conversion
import TernLang.Value.Member

-- The value of a node. Everything has one: a declaration has null, a block that of its last
-- statement.
--
-- The evaluator works its way down a tree and hands the calls of declared functions to `call`; what
-- that does is said in `TernLang.Eval.Invoke`.

namespace TernLang

-- How a declared function is called with arguments.
abbrev Caller := Procedure Value → List Value → Eval Value

namespace Builtin

-- The texts of arguments, one after the other.
def textOf (args : List Value) : Except Failure String :=
  if Value.haveText args then .ok (String.join (Value.displayAll args))
  else .error (.fault .endlessText)

-- Calls a function that every program has.
def call (b : Builtin) (args : List Value) : Eval Value :=
  match b with
  | print => do
    Eval.write ((← Eval.lift (textOf args)) ++ "\n")
    pure .null
  | input => do
    Eval.write (← Eval.lift (textOf args))
    let line ← Eval.readLine
    pure (.str line)
  | tup => pure (.tuple args)

end Builtin

namespace Eval

-- Calls a value. One that cannot be called gives null.
def apply (level : Int) (call : Caller) (callee : Value) (args : List Value) : Eval Value :=
  match callee with
  | .builtin b => do
    emit level (.calledBuiltin b)
    b.call args
  | .method m receiver bound => do
    emit level (.calledMethod m)
    lift (m.call receiver (bound ++ args))
  | .function p => call p args
  | _ => pure .null

-- Goes through data in place of a list. An empty text counts as an empty list, any other text fails
-- with its first character, and all else cannot be gone through.
def noItems (first : Fault) : Tree → Eval Unit
  | .str s => if s.isEmpty then pure () else throw (.fault first)
  | _ => throw (.fault .wrongData)

-- The two ways to bind a name.
inductive Binding where
  | declare
  | assign
deriving DecidableEq

def bindName (level : Int) (way : Binding) (name : Tree) (value : Value) : Eval Unit :=
  match way with
  | .declare => do
    declare name value
    emit level (.declared name.shown value)
  | .assign => do
    assign name value
    emit level (.assigned name.shown value)

mutual

-- Binds the names of a target to the parts of a value of the same shape, from left to right.
-- Without a value they are bound to null.
def bind (level : Int) (way : Binding) : Node → Option Value → Eval Unit
  | .ident _ name, value => bindName level way name (value.getD .null)
  | .tuple _ elements, none =>
    bindItems level way elements (List.replicate (elements.size?.getD 0) none)
  | .tuple place elements, some (.tuple items) =>
    match elements.size? with
    | some names =>
      if items.length = names then bindItems level way elements (items.map Value.given)
      else located place (fail (.tupleSize items.length names))
    | none => throw (.fault .wrongData)
  | .tuple place _, some value => do
    let kind ← lift value.kind
    located place (fail (.notDestructurable kind))
  | .stray _, _ => throw (.fault .missingPart)
  | target, _ => located (target.place?.getD .unknown) (fail .unassignable)

def bindItems (level : Int) (way : Binding) : Items Node → List (Option Value) → Eval Unit
  | .list targets, values => bindAll level way targets values
  | .other t, _ => noItems .missingPart t

def bindAll (level : Int) (way : Binding) : List Node → List (Option Value) → Eval Unit
  | target :: targets, value :: values => do
    bind level way target value
    bindAll level way targets values
  | _, _ => pure ()

end

-- Whether a label is that of a value: the label null is that of every one.
def isLabelOf (label value : Value) : Except Failure Bool :=
  match label with
  | .null => .ok true
  | label => value.equal label

-- Reports a node before it is evaluated, and gives its place to an error that has none.
def visit (level : Int) (node : Node) (m : Eval Value) : Eval Value :=
  match node.place? with
  | some place => do
    emit level (.visited node.typeName place)
    located place m
  | none => m

-- The fault of evaluating what is no node. A trace of single nodes asks for its place first.
def strayFault (level : Int) (type : String) : Fault :=
  if 4 ≤ level then .missingPart else .noValue type

mutual

def eval (level : Int) (call : Caller) (node : Node) : Eval Value :=
  visit level node <|
    match node with
    | .literal _ value type => pure (if type = .str "Null" then .null else .ofTree value)
    | .ident _ name => lookup name
    | .array _ elements => do return .array (← evalItems level call elements)
    | .tuple _ elements => do return .tuple (← evalItems level call elements)
    | .compare _ op left right => do
      let a ← eval level call left
      let b ← eval level call right
      lift (a.compare op b)
    | .binary _ op left right => do
      let a ← eval level call left
      let b ← eval level call right
      result (a.binary op b)
    | .unary _ op operand => do
      let v ← eval level call operand
      result (v.unary op)
    | .call _ function args => do
      let callee ← eval level call function
      let values ← evalItems level call args
      apply level call callee values
    | .member _ target property => do
      let v ← eval level call target
      match property with
      | .ident _ name => lift (v.property name)
      | _ => pure .null
    | .index _ target index => do
      let v ← eval level call target
      let i ← eval level call index
      lift (v.index i)
    | .convert _ value type => do
      let v ← eval level call value
      match type with
      | .ident _ name => result (v.convert name)
      | _ => pure .null
    | .assign _ target value => do
      let v ← eval level call value
      bind level .assign target v.given
      pure .null
    | .declare _ target value => do
      let v ← evalSome level call value
      bind level .declare target (v.bind Value.given)
      pure .null
    | .function _ name parameters result body => do
      let samples ← evalParameterItems level call parameters
      let sample ← evalSome level call result
      let value := Value.function ⟨name.shown, samples, sample.bind Value.given, body⟩
      declare name value
      emit level (.defined name.shown (samples.map (·.1)))
      pure value
    | .conditional _ condition thenBlock elseBlock => do
      let v ← eval level call condition
      emit level (.tested v)
      match v with
      | .bool true => eval level call thenBlock
      | .bool false => do return (← evalSome level call elseBlock).getD .null
      | _ => pure .null
    | .cases _ scrutinee arms => do
      let v ← eval level call scrutinee
      evalArmItems level call v arms
    | .block _ statements => inScope .empty (evalBody level call statements)
    | .program _ body => evalBody level call body
    | .parameter .. | .arm .. => throw (.fault (.noValue node.typeName))
    | .stray t => throw (.fault (strayFault level t.typeName))

-- The values of a list of nodes, from left to right.
def evalItems (level : Int) (call : Caller) : Items Node → Eval (List Value)
  | .list nodes => evalAll level call nodes
  | .other t => do
    noItems (strayFault level t.typeName) t
    pure []

def evalAll (level : Int) (call : Caller) : List Node → Eval (List Value)
  | [] => pure []
  | node :: nodes => do
    let first ← eval level call node
    let rest ← evalAll level call nodes
    pure (first :: rest)

-- The value of a node that may be left out.
def evalSome (level : Int) (call : Caller) : Option Node → Eval (Option Value)
  | none => pure none
  | some node => do return some (← eval level call node)

-- The value of the last statement, after all before it; null if there is none.
def evalBody (level : Int) (call : Caller) : Items Node → Eval Value
  | .list statements => evalSequence level call .null statements
  | .other t => do
    noItems (strayFault level t.typeName) t
    pure .null

-- The value of the last statement, after all before it; `last` if there is none.
def evalSequence (level : Int) (call : Caller) (last : Value) : List Node → Eval Value
  | [] => pure last
  | statement :: statements => do
    let value ← eval level call statement
    evalSequence level call value statements

-- The names of parameters with the samples of their kinds.
def evalParameterItems (level : Int) (call : Caller) :
    Items Node → Eval (List (Tree × Option Value))
  | .list nodes => evalParameters level call nodes
  | .other t => do
    noItems .missingPart t
    pure []

def evalParameters (level : Int) (call : Caller) :
    List Node → Eval (List (Tree × Option Value))
  | [] => pure []
  | .parameter _ name type :: nodes => do
    let sample ← evalSome level call type
    let rest ← evalParameters level call nodes
    pure ((name, sample.bind Value.given) :: rest)
  | _ :: _ => throw (.fault .missingPart)

-- The first arm whose label is equal to the value, or null.
def evalArmItems (level : Int) (call : Caller) (value : Value) : Items Node → Eval Value
  | .list arms => evalArms level call value 0 arms
  | .other t => do
    noItems .missingPart t
    pure .null

-- As `evalArmItems`, where `position` is that of the first arm of the list.
def evalArms (level : Int) (call : Caller) (value : Value) (position : Nat) :
    List Node → Eval Value
  | [] => pure .null
  | .arm _ label body :: arms => do
    let v ← eval level call label
    if ← lift (isLabelOf v value) then
      emit level (.matched value position)
      eval level call body
    else evalArms level call value (position + 1) arms
  | _ :: _ => throw (.fault .missingPart)

end

end Eval

end TernLang
