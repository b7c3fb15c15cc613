import TernLang.Proofs.Syntax.Nesting
import TernLang.Session

-- Evaluation whose steps are carried out in other ways than by the evaluator: with fuel, or with a
-- record of what comes up. What a node does with the values of other nodes is said once for all of
-- them.

namespace TernLang

-- A way to carry out the steps of an evaluation.
structure Handler (M : Type → Type) where
  -- The level of the trace.
  level : Int
  -- What a node does itself.
  own {α : Type} (node : Node) (m : Eval α) : M α
  -- Binds a target, for a node.
  bind (way : Eval.Binding) (node target : Node) (value : Option Value) : M Unit
  inScope {α : Type} (frame : Frame Value) (m : M α) : M α
  -- What is done around the evaluation of a node.
  visit (node : Node) (m : M Value) : M Value

namespace Handler

variable {M : Type → Type} [Monad M] (h : Handler M)

-- How the node of a call calls a declared function.
abbrev Caller (M : Type → Type) := Node → Procedure Value → List Value → M Value

def apply (call : Caller M) (node : Node) (callee : Value) (args : List Value) : M Value :=
  match callee with
  | .function p => call node p args
  | callee => h.own node (Eval.apply h.level (fun _ _ => pure .null) callee args)

section Parts

-- How other nodes are evaluated.
variable (eval : Node → M Value)

def evalAll : List Node → M (List Value)
  | [] => pure []
  | n :: ns => do
    let first ← eval n
    let rest ← evalAll ns
    pure (first :: rest)

def evalItems (node : Node) : Items Node → M (List Value)
  | .list ns => evalAll eval ns
  | .other t => do
    h.own node (Eval.noItems (Eval.strayFault h.level t.typeName) t)
    pure []

def evalSome : Option Node → M (Option Value)
  | none => pure none
  | some n => do return some (← eval n)

def evalSequence (last : Value) : List Node → M Value
  | [] => pure last
  | n :: ns => do
    let value ← eval n
    evalSequence value ns

def evalBody (node : Node) : Items Node → M Value
  | .list statements => evalSequence eval .null statements
  | .other t => do
    h.own node (Eval.noItems (Eval.strayFault h.level t.typeName) t)
    pure .null

def evalParameters (node : Node) : List Node → M (List (Tree × Option Value))
  | [] => pure []
  | .parameter _ name type :: ns => do
    let sample ← evalSome eval type
    let rest ← evalParameters node ns
    pure ((name, sample.bind Value.given) :: rest)
  | _ :: _ => h.own node (throw (.fault .missingPart))

def evalParameterItems (node : Node) : Items Node → M (List (Tree × Option Value))
  | .list ns => h.evalParameters eval node ns
  | .other t => do
    h.own node (Eval.noItems .missingPart t)
    pure []

def evalArms (node : Node) (value : Value) (position : Nat) : List Node → M Value
  | [] => pure .null
  | .arm _ label body :: arms => do
    let v ← eval label
    if ← h.own node (Eval.lift (Eval.isLabelOf v value)) then
      h.own node (Eval.emit h.level (.matched value position))
      eval body
    else evalArms node value (position + 1) arms
  | _ :: _ => h.own node (throw (.fault .missingPart))

def evalArmItems (node : Node) (value : Value) : Items Node → M Value
  | .list arms => h.evalArms eval node value 0 arms
  | .other t => do
    h.own node (Eval.noItems .missingPart t)
    pure .null

-- What a node does with the values of other nodes.
def dispatch (call : Caller M) (node : Node) : M Value :=
  match node with
  | .literal _ value type => pure (if type = .str "Null" then .null else .ofTree value)
  | .ident _ name => h.own node (Eval.lookup name)
  | .array _ elements => do return .array (← h.evalItems eval node elements)
  | .tuple _ elements => do return .tuple (← h.evalItems eval node elements)
  | .compare _ op left right => do
    let a ← eval left
    let b ← eval right
    h.own node (Eval.lift (a.compare op b))
  | .binary _ op left right => do
    let a ← eval left
    let b ← eval right
    h.own node (Eval.result (a.binary op b))
  | .unary _ op operand => do
    let v ← eval operand
    h.own node (Eval.result (v.unary op))
  | .call _ function args => do
    let callee ← eval function
    let values ← h.evalItems eval node args
    h.apply call node callee values
  | .member _ target property => do
    let v ← eval target
    match property with
    | .ident _ name => h.own node (Eval.lift (v.property name))
    | _ => pure .null
  | .index _ target index => do
    let v ← eval target
    let i ← eval index
    h.own node (Eval.lift (v.index i))
  | .convert _ value type => do
    let v ← eval value
    match type with
    | .ident _ name => h.own node (Eval.result (v.convert name))
    | _ => pure .null
  | .assign _ target value => do
    let v ← eval value
    h.bind .assign node target v.given
    pure .null
  | .declare _ target value => do
    let v ← evalSome eval value
    h.bind .declare node target (v.bind Value.given)
    pure .null
  | .function _ name parameters result body => do
    let samples ← h.evalParameterItems eval node parameters
    let sample ← evalSome eval result
    let value := Value.function ⟨name.shown, samples, sample.bind Value.given, body⟩
    h.own node (Eval.declare name value)
    h.own node (Eval.emit h.level (.defined name.shown (samples.map (·.1))))
    pure value
  | .conditional _ condition thenBlock elseBlock => do
    let v ← eval condition
    h.own node (Eval.emit h.level (.tested v))
    match v with
    | .bool true => eval thenBlock
    | .bool false => do return (← evalSome eval elseBlock).getD .null
    | _ => pure .null
  | .cases _ scrutinee arms => do
    let v ← eval scrutinee
    h.evalArmItems eval node v arms
  | .block _ statements => h.inScope .empty (h.evalBody eval node statements)
  | .program _ body => h.evalBody eval node body
  | .parameter .. | .arm .. => h.own node (throw (.fault (.noValue node.typeName)))
  | .stray t => h.own node (throw (.fault (Eval.strayFault h.level t.typeName)))

-- The body of a function, which runs for the node that calls it.
def runBody (node : Node) : Node → M Value
  | .block _ statements => h.evalBody eval node statements
  | _ => h.own node (throw (.fault .missingPart))

end Parts

-- Evaluates a tree of at most so many levels.
def evalTo (call : Caller M) : Nat → Node → M Value
  | 0, node => h.own node (throw (.fault .missingPart))
  | n + 1, node => h.visit node (h.dispatch (evalTo call n) call node)

def eval (call : Caller M) (node : Node) : M Value := h.evalTo call node.nesting node

section Congr

-- What a node does depends on other nodes as far as they are evaluated for it. They are all below
-- it.
variable {eval eval' : Node → M Value} {ns : List Node} {items : Items Node}

theorem evalAll_congr (heval : ∀ n ∈ ns, eval n = eval' n) :
    evalAll eval ns = evalAll eval' ns := by
  induction ns with
  | nil => rfl
  | cons n ns ih =>
    obtain ⟨hn, hns⟩ := List.forall_mem_cons.1 heval
    rw [evalAll, evalAll, hn, ih hns]

theorem evalItems_congr (node : Node) (heval : ∀ n ∈ items.listed, eval n = eval' n) :
    h.evalItems eval node items = h.evalItems eval' node items := by
  cases items with
  | list ns => exact evalAll_congr heval
  | other t => rfl

theorem evalSome_congr {o : Option Node} (heval : ∀ n ∈ o, eval n = eval' n) :
    evalSome eval o = evalSome eval' o := by
  cases o with
  | none => rfl
  | some n => rw [evalSome, evalSome, heval n rfl]

theorem evalSequence_congr (last : Value) (heval : ∀ n ∈ ns, eval n = eval' n) :
    evalSequence eval last ns = evalSequence eval' last ns := by
  induction ns generalizing last with
  | nil => rfl
  | cons n ns ih =>
    obtain ⟨hn, hns⟩ := List.forall_mem_cons.1 heval
    simp only [evalSequence, hn, fun value => ih value hns]

theorem evalBody_congr (node : Node) (heval : ∀ n ∈ items.listed, eval n = eval' n) :
    h.evalBody eval node items = h.evalBody eval' node items := by
  cases items with
  | list ns => exact evalSequence_congr .null heval
  | other t => rfl

theorem evalParameters_congr (node : Node)
    (heval : ∀ n ∈ ns, ∀ m ∈ n.children, eval m = eval' m) :
    h.evalParameters eval node ns = h.evalParameters eval' node ns := by
  induction ns with
  | nil => rfl
  | cons n ns ih =>
    obtain ⟨hn, hns⟩ := List.forall_mem_cons.1 heval
    cases n with
    | parameter place name type =>
      have htype : evalSome eval type = evalSome eval' type :=
        evalSome_congr fun m hm => hn m (by simpa [Node.children] using hm)
      rw [evalParameters, evalParameters, htype, ih hns]
    | _ => rfl

theorem evalParameterItems_congr (node : Node)
    (heval : ∀ n ∈ items.listed, ∀ m ∈ n.children, eval m = eval' m) :
    h.evalParameterItems eval node items = h.evalParameterItems eval' node items := by
  cases items with
  | list ns => exact h.evalParameters_congr node heval
  | other t => rfl

theorem evalArms_congr (node : Node) (value : Value) (position : Nat)
    (heval : ∀ n ∈ ns, ∀ m ∈ n.children, eval m = eval' m) :
    h.evalArms eval node value position ns = h.evalArms eval' node value position ns := by
  induction ns generalizing position with
  | nil => rfl
  | cons n ns ih =>
    obtain ⟨hn, hns⟩ := List.forall_mem_cons.1 heval
    cases n with
    | arm place label body =>
      have hlabel : eval label = eval' label := hn label (by simp [Node.children])
      have hbody : eval body = eval' body := hn body (by simp [Node.children])
      simp only [evalArms, hlabel, hbody, ih (position + 1) hns]
    | _ => rfl

theorem evalArmItems_congr (node : Node) (value : Value)
    (heval : ∀ n ∈ items.listed, ∀ m ∈ n.children, eval m = eval' m) :
    h.evalArmItems eval node value items = h.evalArmItems eval' node value items := by
  cases items with
  | list ns => exact h.evalArms_congr node value 0 heval
  | other t => rfl

theorem dispatch_congr (call : Caller M) {node : Node}
    (heval : ∀ m, m.nesting < node.nesting → eval m = eval' m) :
    h.dispatch eval call node = h.dispatch eval' call node := by
  have hbelow : ∀ n ∈ node.children, eval n = eval' n :=
    fun n hn => heval n (Node.nesting_lt_of_mem_children hn)
  have hfurther : ∀ n ∈ node.children, ∀ m ∈ n.children, eval m = eval' m := fun n hn m hm =>
    heval m (Nat.lt_trans (Node.nesting_lt_of_mem_children hm) (Node.nesting_lt_of_mem_children hn))
  cases node with
  | array place elements | tuple place elements =>
    simp only [dispatch, h.evalItems_congr _ (by simpa using hbelow)]
  | compare place op left right | binary place op left right | index place left right =>
    simp only [dispatch, hbelow left (by simp [Node.children]),
      hbelow right (by simp [Node.children])]
  | unary place op operand => simp only [dispatch, hbelow operand (by simp [Node.children])]
  | call place function args =>
    simp only [Node.children_call, List.forall_mem_cons] at hbelow
    simp only [dispatch, hbelow.1, h.evalItems_congr _ hbelow.2]
  | member place value other | convert place value other =>
    simp only [dispatch, hbelow value (by simp [Node.children])]
  | assign place target value => simp only [dispatch, hbelow value (by simp [Node.children])]
  | declare place target value =>
    have hvalue : evalSome eval value = evalSome eval' value :=
      evalSome_congr fun n hn => hbelow n (by simp_all [Node.children])
    simp only [dispatch, hvalue]
  | function place name parameters result body =>
    have hresult : evalSome eval result = evalSome eval' result :=
      evalSome_congr fun n hn => hbelow n (by simp_all)
    have hparameters : ∀ n ∈ parameters.listed, ∀ m ∈ n.children, eval m = eval' m :=
      fun n hn => hfurther n (by simp [hn])
    simp only [dispatch, hresult, h.evalParameterItems_congr _ hparameters]
  | conditional place condition thenBlock elseBlock =>
    have helse : evalSome eval elseBlock = evalSome eval' elseBlock :=
      evalSome_congr fun n hn => hbelow n (by simp_all [Node.children])
    simp only [dispatch, helse, hbelow condition (by simp [Node.children]),
      hbelow thenBlock (by simp [Node.children])]
  | cases place scrutinee arms =>
    simp only [Node.children_cases, List.forall_mem_cons] at hbelow hfurther
    simp only [dispatch, hbelow.1, h.evalArmItems_congr _ _ hfurther.2]
  | block place statements | program place statements =>
    simp only [dispatch, h.evalBody_congr _ (by simpa using hbelow)]
  | _ => rfl

theorem evalTo_congr (call : Caller M) {n m : Nat} {node : Node} (hn : node.nesting ≤ n)
    (hm : node.nesting ≤ m) : h.evalTo call n node = h.evalTo call m node := by
  have hpos := node.nesting_pos
  induction n generalizing m node with
  | zero => omega
  | succ n ih =>
    obtain ⟨m, rfl⟩ : ∃ k, m = k + 1 := ⟨m - 1, by omega⟩
    have hbelow : ∀ child, child.nesting < node.nesting →
        h.evalTo call n child = h.evalTo call m child :=
      fun child hchild => ih (by omega) (by omega) child.nesting_pos
    rw [evalTo, evalTo, h.dispatch_congr call hbelow]

-- No tree has too many levels.
theorem eval_eq (call : Caller M) (node : Node) :
    h.eval call node = h.visit node (h.dispatch (h.eval call) call node) := by
  have hpos := node.nesting_pos
  obtain ⟨n, hn⟩ : ∃ n, node.nesting = n + 1 := ⟨node.nesting - 1, by omega⟩
  have hbelow : ∀ m, m.nesting < node.nesting → h.evalTo call n m = h.eval call m :=
    fun m hm => h.evalTo_congr call (by omega) (Nat.le_refl _)
  rw [eval, hn, evalTo, h.dispatch_congr call hbelow]

end Congr

-- A call, with what is done in the scope of its arguments.
def invoke (node : Node) (p : Procedure Value) (args : List Value) (body : Frame Value → M Value) :
    M Value := do
  let frame ← h.own node (Eval.lift (p.frame args))
  h.own node (Eval.emit h.level (.called p.name args))
  let value ← body frame
  h.own node (Eval.lift (p.checkResult value))
  h.own node (Eval.emit h.level (.returned p.name value))
  pure value

-- The body of a program, as far as the stack has room for it.
def execute [Machine] (depth : Int) (eval : Node → M Value) (program : Node) :
    Items Node → M Value
  | .list statements => do
    let fitting := statements.takeWhile (Settings.hasRoom depth)
    let value ← evalSequence eval .null fitting
    if fitting.length = statements.length then pure value
    else h.own program (Eval.fail .stackExhausted)
  | .other t => h.evalBody eval program (.other t)

-- Runs a program, whose body is run by `execute` for the depth that is set.
def run (settings : Settings) (execute : Int → Items Node → M Value) (program : Node) : M Value :=
  match program.body?.map fun body => (body, body.size?) with
  | none => h.own program (throw (.fault .missingPart))
  | some (_, none) => h.own program (throw (.fault .wrongData))
  | some (body, some size) => do
    h.own program (Eval.emit h.level (.started size))
    let depth ← h.own program (Eval.lift settings.checkStack)
    let value ← execute depth body
    h.own program (Eval.finish h.level value)

end Handler

end TernLang
