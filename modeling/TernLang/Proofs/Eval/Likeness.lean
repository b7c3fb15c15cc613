import TernLang.Proofs.Eval.Around
import TernLang.Proofs.Eval.Handler
import TernLang.Proofs.Scope.Contents
import TernLang.Proofs.Value.Refusals

-- Evaluation under a handler beside plain evaluation. Where every step that a node takes itself is
-- like the plain one, and so is what is done around nodes and scopes, the evaluation of whole trees
-- is.

namespace TernLang

namespace Eval

-- What a node does itself with values that are `fine`, and what holds of the outcome then. Only the
-- node of a call receives arguments and checks results.
inductive OwnStep (level : Int) (fine : Value → Prop) (node : Node) :
    {α : Type} → (α → Prop) → Eval α → Prop where
  | lookup (name : Tree) : OwnStep level fine node fine (lookup name)
  | compare (op : Tree) {a b : Value} (left : fine a) (right : fine b) :
    OwnStep level fine node fine (lift (a.compare op b))
  | binary (op : Tree) {a b : Value} (left : fine a) (right : fine b) :
    OwnStep level fine node fine (result (a.binary op b))
  | unary (op : Tree) {v : Value} (operand : fine v) :
    OwnStep level fine node fine (result (v.unary op))
  | apply {callee : Value} {args : List Value} (other : ∀ p, callee ≠ .function p)
    (function : fine callee) (given : ∀ v ∈ args, fine v) :
    OwnStep level fine node fine (apply level (fun _ _ => pure .null) callee args)
  | property (name : Tree) {v : Value} (target : fine v) :
    OwnStep level fine node fine (lift (v.property name))
  | index {v i : Value} (target : fine v) (position : fine i) :
    OwnStep level fine node fine (lift (v.index i))
  | convert (type : Tree) {v : Value} (value : fine v) :
    OwnStep level fine node fine (result (v.convert type))
  | declare (name : Tree) {v : Value} (value : fine v) :
    OwnStep level fine node (fun _ => True) (declare name v)
  | defined (name : String) (names : List Tree) :
    OwnStep level fine node (fun _ => True) (emit level (.defined name names))
  | tested {v : Value} (condition : fine v) :
    OwnStep level fine node (fun _ => True) (emit level (.tested v))
  | matched {v : Value} (value : fine v) (position : Nat) :
    OwnStep level fine node (fun _ => True) (emit level (.matched v position))
  | isLabelOf {label v : Value} (arm : fine label) (value : fine v) :
    OwnStep level fine node (fun _ => True) (lift (isLabelOf label v))
  | noItems (first : Fault) (t : Tree) :
    OwnStep level fine node (fun _ => True) (noItems first t)
  | frame (call : node.isCall) {p : Procedure Value} {args : List Value}
    (function : fine (.function p)) (given : ∀ v ∈ args, fine v) :
    OwnStep level fine node (Frame.Each fine) (lift (p.frame args))
  | called (name : String) {args : List Value} (given : ∀ v ∈ args, fine v) :
    OwnStep level fine node (fun _ => True) (emit level (.called name args))
  | checkResult (call : node.isCall) {p : Procedure Value} {v : Value}
    (function : fine (.function p)) (value : fine v) :
    OwnStep level fine node (fun _ => True) (lift (p.checkResult v))
  | returned (name : String) {v : Value} (value : fine v) :
    OwnStep level fine node (fun _ => True) (emit level (.returned name v))
  | exhausted {α : Type} {P : α → Prop} : OwnStep level fine node P (fail .stackExhausted)

-- A node has no errors but its own.
theorem OwnStep.failsBy {level : Int} {fine : Value → Prop} {node : Node} {α : Type} {P : α → Prop}
    {m : Eval α} (h : OwnStep level fine node P m) : FailsBy node m := by
  cases h with
  | lookup name => exact .lookup name
  | compare op => exact .lift (Value.failsBy_compare op _ _)
  | binary op => exact .result (Value.failsBy_binary op _ _)
  | unary op => exact .result (Value.failsBy_unary op _)
  | @apply callee args other =>
    cases callee with
    | builtin b => exact (FailsBy.emit _ _).bind fun _ => .builtinCall b args
    | method m v bound => exact (FailsBy.emit _ _).bind fun _ => .lift (m.failsBy_call v _)
    | function p => exact absurd rfl (other p)
    | _ => exact .pure _
  | property name => exact .lift (Value.failsBy_property name _)
  | index => exact .lift (Value.failsBy_index _ _)
  | convert type => exact .result (Value.failsBy_convert type _)
  | declare name => exact .declare name _
  | isLabelOf => exact .lift (Value.failsBy_isLabelOf _ _)
  | noItems first t => exact .noItems first t
  | frame call => exact .lift (Procedure.failsBy_frame call _ _)
  | checkResult call => exact .lift (Procedure.failsBy_checkResult call _ _)
  | defined | tested | matched | called | returned => exact .emit _ _
  | exhausted => exact .fail (Error.Cause.isRaisedBy_of_isPlain rfl node)

-- Nodes that are evaluated and values that come up: with a node there are those below it, and with
-- a function there is its body.
structure Domain (good : Node → Prop) (fine : Value → Prop) : Prop where
  children {n : Node} (h : good n) : ∀ m ∈ n.children, good m
  null : fine .null
  literal {place : Place} {value type : Tree} (h : good (.literal place value type)) :
    fine (.ofTree value)
  array {items : List Value} (h : ∀ v ∈ items, fine v) : fine (.array items)
  tuple {items : List Value} (h : ∀ v ∈ items, fine v) : fine (.tuple items)
  function (name : String) {samples : List (Tree × Option Value)} {sample : Option Value}
    {body : Node} (hsamples : ∀ q ∈ samples, ∀ v ∈ q.2, fine v) (hsample : ∀ v ∈ sample, fine v)
    (hbody : good body) : fine (.function ⟨name, samples, sample, body⟩)
  body {p : Procedure Value} (h : fine (.function p)) : good p.body

-- All nodes and values.
theorem Domain.all : Domain (fun _ => True) (fun _ => True) where
  children _ _ _ := trivial
  null := trivial
  literal _ := trivial
  array _ := trivial
  tuple _ := trivial
  function _ _ _ _ _ _ _ := trivial
  body _ := trivial

end Eval

namespace Handler

variable {M : Type → Type} [Monad M]

-- A way in which computations under a handler, of which there is one for each index, are like plain
-- ones. A step is taken in a context, in which certain nodes may take steps of their own.
structure Likeness (h : Handler M) (ι : Type) where
  Context : Type
  Stands : Context → Node → Prop
  good : Node → Prop
  fine : Value → Prop
  domain : Eval.Domain good fine
  Like {α : Type} (c : Context) (P : α → Prop) (x : ι → M α) (m : Eval α) : Prop
  pure {α : Type} {c : Context} {P : α → Prop} {a : α} (ha : P a) :
    Like c P (fun _ => Pure.pure a) (Pure.pure a)
  bind {α β : Type} {c : Context} {P : α → Prop} {Q : β → Prop} {x : ι → M α} {m : Eval α}
    {k : ι → α → M β} {f : α → Eval β} (hx : Like c P x m)
    (hk : ∀ a, P a → Like c Q (fun i => k i a) (f a)) :
    Like c Q (fun i => x i >>= k i) (m >>= f)
  own {α : Type} {c : Context} {P : α → Prop} {node : Node} {m : Eval α} (hnode : Stands c node)
    (hstep : Eval.OwnStep h.level fine node P m) : Like c P (fun _ => h.own node m) m
  fault {α : Type} {c : Context} {P : α → Prop} (node : Node) (f : Fault) :
    Like c P (fun _ => h.own node (throw (.fault f) : Eval α)) (throw (.fault f))
  bindTarget {c : Context} {node target : Node} {value : Option Value} (way : Eval.Binding)
    (hnode : Stands c node) (htarget : good target) (hvalue : ∀ v ∈ value, fine v) :
    Like c (fun _ => True) (fun _ => h.bind way node target value)
      (Eval.bind h.level way target value)
  inScope {α : Type} {c : Context} {P : α → Prop} {x : ι → M α} {m : Eval α} {frame : Frame Value}
    (hframe : frame.Each fine) (hx : Like c P x m) :
    Like c P (fun i => h.inScope frame (x i)) (Eval.inScope frame m)
  visit {c : Context} {node : Node} {x : ι → M Value} {m : Eval Value} (hnode : good node)
    (hx : ∀ d, (node.place?.isSome → Stands d node) → Like d fine x m) :
    Like c fine (fun i => h.visit node (x i)) (Eval.visit h.level node m)

namespace Likeness

variable {h : Handler M} {ι : Type} (L : h.Likeness ι)

-- A node is evaluated alike in every context.
def Evals (eval : ι → Node → M Value) (plain : TernLang.Caller) (n : Node) : Prop :=
  ∀ c, L.Like c L.fine (fun i => eval i n) (Eval.eval h.level plain n)

-- The nodes of calls call declared functions alike.
def Calls (call : ι → Caller M) (plain : TernLang.Caller) : Prop :=
  ∀ ⦃c node p args⦄, node.isCall → L.Stands c node → L.fine (.function p) →
    (∀ v ∈ args, L.fine v) → L.Like c L.fine (fun i => call i node p args) (plain p args)

variable {L} {eval : ι → Node → M Value} {call : ι → Caller M} {plain : TernLang.Caller}
  {c : L.Context} {node : Node}

section Lists

variable {ns : List Node} {items : Items Node} {v : Value}

theorem noItems (hnode : L.Stands c node) (first : Fault) (t : Tree) {P : α → Prop} {a : α}
    (ha : P a) :
    L.Like c P (fun _ => h.own node (Eval.noItems first t) >>= fun _ => Pure.pure a)
      (Eval.noItems first t >>= fun _ => Pure.pure a) :=
  L.bind (L.own hnode (.noItems first t)) fun _ _ => L.pure ha

theorem evalAll (hns : ∀ n ∈ ns, L.Evals eval plain n) :
    L.Like c (fun vs => ∀ v ∈ vs, L.fine v) (fun i => Handler.evalAll (eval i) ns)
      (Eval.evalAll h.level plain ns) := by
  induction ns with
  | nil =>
    rw [Eval.evalAll]
    exact L.pure (by simp)
  | cons n ns ih =>
    obtain ⟨hfirst, hrest⟩ := List.forall_mem_cons.1 hns
    rw [Eval.evalAll]
    exact L.bind (hfirst c) fun v hv => L.bind (ih hrest) fun vs hvs =>
      L.pure (List.forall_mem_cons.2 ⟨hv, hvs⟩)

theorem evalItems (hnode : L.Stands c node) (hns : ∀ n ∈ items.listed, L.Evals eval plain n) :
    L.Like c (fun vs => ∀ v ∈ vs, L.fine v) (fun i => h.evalItems (eval i) node items)
      (Eval.evalItems h.level plain items) := by
  rw [Eval.evalItems.eq_def]
  cases items with
  | list ns => exact evalAll hns
  | other t => exact noItems hnode _ t (by simp)

theorem evalSome {o : Option Node} (ho : ∀ n ∈ o, L.Evals eval plain n) :
    L.Like c (fun v => ∀ w ∈ v, L.fine w) (fun i => Handler.evalSome (eval i) o)
      (Eval.evalSome h.level plain o) := by
  rw [Eval.evalSome.eq_def]
  cases o with
  | none => exact L.pure (by simp)
  | some n => exact L.bind (ho n rfl c) fun v hv => L.pure (by simpa using hv)

theorem evalSequence (hv : L.fine v) (hns : ∀ n ∈ ns, L.Evals eval plain n) :
    L.Like c L.fine (fun i => Handler.evalSequence (eval i) v ns)
      (Eval.evalSequence h.level plain v ns) := by
  induction ns generalizing v with
  | nil =>
    rw [Eval.evalSequence]
    exact L.pure hv
  | cons n ns ih =>
    obtain ⟨hfirst, hrest⟩ := List.forall_mem_cons.1 hns
    rw [Eval.evalSequence]
    exact L.bind (hfirst c) fun w hw => ih hw hrest

theorem evalBody (hnode : L.Stands c node) (hns : ∀ n ∈ items.listed, L.Evals eval plain n) :
    L.Like c L.fine (fun i => h.evalBody (eval i) node items)
      (Eval.evalBody h.level plain items) := by
  rw [Eval.evalBody.eq_def]
  cases items with
  | list ns => exact evalSequence L.domain.null hns
  | other t => exact noItems hnode _ t L.domain.null

theorem evalParameters (hns : ∀ n ∈ ns, ∀ m ∈ n.children, L.Evals eval plain m) :
    L.Like c (fun samples => ∀ q ∈ samples, ∀ v ∈ q.2, L.fine v)
      (fun i => h.evalParameters (eval i) node ns) (Eval.evalParameters h.level plain ns) := by
  induction ns with
  | nil =>
    rw [Eval.evalParameters]
    exact L.pure (by simp)
  | cons n ns ih =>
    obtain ⟨hfirst, hrest⟩ := List.forall_mem_cons.1 hns
    rw [Eval.evalParameters.eq_def]
    cases n with
    | parameter place name type =>
      have htype : ∀ m ∈ type, L.Evals eval plain m :=
        fun m hm => hfirst m (by simpa [Node.children] using hm)
      exact L.bind (evalSome htype) fun sample hsample => L.bind (ih hrest) fun samples hsamples =>
        L.pure (List.forall_mem_cons.2 ⟨Value.forall_mem_bind_given hsample, hsamples⟩)
    | _ => exact L.fault node _

theorem evalParameterItems (hnode : L.Stands c node)
    (hns : ∀ n ∈ items.listed, ∀ m ∈ n.children, L.Evals eval plain m) :
    L.Like c (fun samples => ∀ q ∈ samples, ∀ v ∈ q.2, L.fine v)
      (fun i => h.evalParameterItems (eval i) node items)
      (Eval.evalParameterItems h.level plain items) := by
  rw [Eval.evalParameterItems.eq_def]
  cases items with
  | list ns => exact evalParameters hns
  | other t => exact noItems hnode _ t (by simp)

theorem evalArms (hnode : L.Stands c node) (hv : L.fine v) (position : Nat)
    (hns : ∀ n ∈ ns, ∀ m ∈ n.children, L.Evals eval plain m) :
    L.Like c L.fine (fun i => h.evalArms (eval i) node v position ns)
      (Eval.evalArms h.level plain v position ns) := by
  induction ns generalizing position with
  | nil =>
    rw [Eval.evalArms]
    exact L.pure L.domain.null
  | cons n ns ih =>
    obtain ⟨hfirst, hrest⟩ := List.forall_mem_cons.1 hns
    rw [Eval.evalArms.eq_def]
    cases n with
    | arm place label body =>
      have hlabel : L.Evals eval plain label := hfirst label (by simp [Node.children])
      have hbody : L.Evals eval plain body := hfirst body (by simp [Node.children])
      refine L.bind (hlabel c) fun w hw => L.bind (L.own hnode (.isLabelOf hw hv)) fun hit _ => ?_
      cases hit with
      | true => exact L.bind (L.own hnode (.matched hv position)) fun _ _ => hbody c
      | false => exact ih (position + 1) hrest
    | _ => exact L.fault node _

theorem evalArmItems (hnode : L.Stands c node) (hv : L.fine v)
    (hns : ∀ n ∈ items.listed, ∀ m ∈ n.children, L.Evals eval plain m) :
    L.Like c L.fine (fun i => h.evalArmItems (eval i) node v items)
      (Eval.evalArmItems h.level plain v items) := by
  rw [Eval.evalArmItems.eq_def]
  cases items with
  | list ns => exact evalArms hnode hv 0 hns
  | other t => exact noItems hnode _ t L.domain.null

end Lists

theorem apply (hcall : L.Calls call plain) (hisCall : node.isCall) (hnode : L.Stands c node)
    {callee : Value} (hcallee : L.fine callee) {args : List Value} (hargs : ∀ v ∈ args, L.fine v) :
    L.Like c L.fine (fun i => h.apply (call i) node callee args)
      (Eval.apply h.level plain callee args) := by
  cases callee with
  | function p => exact hcall hisCall hnode hcallee hargs
  | _ => exact L.own hnode (.apply (by simp) hcallee hargs)

-- A node is evaluated alike if those below it are.
theorem visit_dispatch (hcall : L.Calls call plain) (hgood : L.good node)
    (hbelow : ∀ m, m.nesting < node.nesting → L.good m → L.Evals eval plain m) :
    L.Like c L.fine (fun i => h.visit node (h.dispatch (eval i) (call i) node))
      (Eval.eval h.level plain node) := by
  have hchild : ∀ n ∈ node.children, L.Evals eval plain n := fun n hn =>
    hbelow n (Node.nesting_lt_of_mem_children hn) (L.domain.children hgood n hn)
  have hpart : ∀ n ∈ node.children, ∀ m ∈ n.children, L.Evals eval plain m := by
    intro n hn m hm
    have hsize := Node.nesting_lt_of_mem_children hn
    exact hbelow m (Nat.lt_trans (Node.nesting_lt_of_mem_children hm) hsize)
      (L.domain.children (L.domain.children hgood n hn) m hm)
  rw [Eval.eval.eq_def]
  refine L.visit hgood fun d hstands => ?_
  cases node with
  | literal place value type =>
    refine L.pure ?_
    split
    · exact L.domain.null
    · exact L.domain.literal hgood
  | ident place name => exact L.own (hstands rfl) (.lookup name)
  | array place elements =>
    exact L.bind (evalItems (hstands rfl) (by simpa using hchild)) fun _ hvs =>
      L.pure (L.domain.array hvs)
  | tuple place elements =>
    exact L.bind (evalItems (hstands rfl) (by simpa using hchild)) fun _ hvs =>
      L.pure (L.domain.tuple hvs)
  | compare place op left right =>
    exact L.bind (hchild left (by simp [Node.children]) d) fun _ hv =>
      L.bind (hchild right (by simp [Node.children]) d) fun _ hw =>
        L.own (hstands rfl) (.compare op hv hw)
  | binary place op left right =>
    exact L.bind (hchild left (by simp [Node.children]) d) fun _ hv =>
      L.bind (hchild right (by simp [Node.children]) d) fun _ hw =>
        L.own (hstands rfl) (.binary op hv hw)
  | unary place op operand =>
    exact L.bind (hchild operand (by simp [Node.children]) d) fun _ hv =>
      L.own (hstands rfl) (.unary op hv)
  | call place function args =>
    exact L.bind (hchild function (by simp) d) fun _ hv =>
      L.bind (evalItems (hstands rfl) fun n hn => hchild n (by simp [hn])) fun _ hvs =>
        apply hcall rfl (hstands rfl) hv hvs
  | member place target property =>
    refine L.bind (hchild target (by simp [Node.children]) d) fun _ hv => ?_
    cases property with
    | ident _ name => exact L.own (hstands rfl) (.property name hv)
    | _ => exact L.pure L.domain.null
  | index place target index =>
    exact L.bind (hchild target (by simp [Node.children]) d) fun _ hv =>
      L.bind (hchild index (by simp [Node.children]) d) fun _ hw =>
        L.own (hstands rfl) (.index hv hw)
  | convert place value type =>
    refine L.bind (hchild value (by simp [Node.children]) d) fun _ hv => ?_
    cases type with
    | ident _ name => exact L.own (hstands rfl) (.convert name hv)
    | _ => exact L.pure L.domain.null
  | assign place target value =>
    have htarget := L.domain.children hgood target (by simp [Node.children])
    exact L.bind (hchild value (by simp [Node.children]) d) fun _ hv =>
      L.bind (L.bindTarget .assign (hstands rfl) htarget (Value.forall_mem_given hv)) fun _ _ =>
        L.pure L.domain.null
  | declare place target value =>
    have htarget := L.domain.children hgood target (by simp [Node.children])
    have hvalue : ∀ n ∈ value, L.Evals eval plain n :=
      fun n hn => hchild n (by simp_all [Node.children])
    exact L.bind (evalSome hvalue) fun _ hv =>
      have hgiven := Value.forall_mem_bind_given hv
      L.bind (L.bindTarget .declare (hstands rfl) htarget hgiven) fun _ _ => L.pure L.domain.null
  | function place name parameters result body =>
    have hparameters : ∀ n ∈ parameters.listed, ∀ m ∈ n.children, L.Evals eval plain m :=
      fun n hn => hpart n (by simp [hn])
    have hresult : ∀ n ∈ result, L.Evals eval plain n := fun n hn => hchild n (by simp_all)
    have hbody := L.domain.children hgood body (by simp)
    refine L.bind (evalParameterItems (hstands rfl) hparameters) fun samples hsamples =>
      L.bind (evalSome hresult) fun sample hsample => ?_
    have hvalue := L.domain.function name.shown hsamples (Value.forall_mem_bind_given hsample) hbody
    exact L.bind (L.own (hstands rfl) (.declare name hvalue)) fun _ _ =>
      L.bind (L.own (hstands rfl) (.defined name.shown _)) fun _ _ => L.pure hvalue
  | conditional place condition thenBlock elseBlock =>
    refine L.bind (hchild condition (by simp [Node.children]) d) fun v hv =>
      L.bind (L.own (hstands rfl) (.tested hv)) fun _ _ => ?_
    have helse : ∀ n ∈ elseBlock, L.Evals eval plain n :=
      fun n hn => hchild n (by simp_all [Node.children])
    cases v with
    | bool b =>
      cases b with
      | true => exact hchild thenBlock (by simp [Node.children]) d
      | false =>
        refine L.bind (evalSome helse) fun w hw => L.pure ?_
        cases w with
        | none => exact L.domain.null
        | some w => exact hw w rfl
    | _ => exact L.pure L.domain.null
  | cases place scrutinee arms =>
    exact L.bind (hchild scrutinee (by simp) d) fun _ hv =>
      evalArmItems (hstands rfl) hv fun n hn => hpart n (by simp [hn])
  | block place statements =>
    exact L.inScope .empty (evalBody (hstands rfl) (by simpa using hchild))
  | program place body => exact evalBody (hstands rfl) (by simpa using hchild)
  | parameter place name type => exact L.fault _ _
  | arm place label body => exact L.fault _ _
  | stray t => exact L.fault _ _

-- Where evaluation comes to what a node does with the values of others, all nodes are evaluated
-- alike.
theorem evals (hcall : L.Calls call plain)
    (hknot : ∀ {c node m},
      L.Like c L.fine (fun i => h.visit node (h.dispatch (eval i) (call i) node)) m →
        L.Like c L.fine (fun i => eval i node) m) (hgood : L.good node) :
    L.Evals eval plain node := by
  induction hsize : node.nesting using Nat.strong_induction_on generalizing node with
  | h size ih =>
    subst hsize
    exact fun c => hknot (visit_dispatch hcall hgood fun m hm hgoodm => ih _ hm hgoodm rfl)

theorem evals_eval (hcall : L.Calls call plain) (hgood : L.good node) :
    L.Evals (fun i => h.eval (call i)) plain node := by
  refine evals hcall (fun {c node m} hlike => ?_) hgood
  simp only [h.eval_eq]
  exact hlike

theorem runBody (hnode : L.Stands c node) {body : Node} (hbody : L.good body)
    (heval : ∀ n, L.good n → L.Evals eval plain n) :
    L.Like c L.fine (fun i => h.runBody (eval i) node body)
      (Eval.runBody h.level plain body) := by
  have hchild : ∀ n ∈ body.children, L.Evals eval plain n :=
    fun n hn => heval n (L.domain.children hbody n hn)
  cases body with
  | block place statements => exact evalBody hnode (by simpa using hchild)
  | _ => exact L.fault node _

-- A call is like the plain one if what is done in the scope of its arguments is.
theorem invoke (hisCall : node.isCall) (hnode : L.Stands c node) {p : Procedure Value}
    (hp : L.fine (.function p)) {args : List Value} (hargs : ∀ v ∈ args, L.fine v)
    {body : ι → Frame Value → M Value} {plainBody : Frame Value → Eval Value}
    (hbody : ∀ frame, frame.Each L.fine →
      L.Like c L.fine (fun i => body i frame) (plainBody frame)) :
    L.Like c L.fine (fun i => h.invoke node p args (body i))
      (Eval.calling h.level p args plainBody) :=
  L.bind (L.own hnode (.frame hisCall hp hargs)) fun frame hframe =>
    L.bind (L.own hnode (.called p.name hargs)) fun _ _ =>
      L.bind (hbody frame hframe) fun _ hv =>
        L.bind (L.own hnode (.checkResult hisCall hp hv)) fun _ _ =>
          L.bind (L.own hnode (.returned p.name hv)) fun _ _ => L.pure hv

-- The statements of a program, and a stack that has no room for all of them.
theorem execute [Machine] (hnode : L.Stands c node) (depth : Int) (body : Items Node)
    (heval : ∀ n ∈ body.listed, L.Evals eval (Eval.invoke h.level depth depth.toNat) n) :
    L.Like c L.fine (fun i => h.execute depth (eval i) node body)
      (Eval.execute h.level depth body) := by
  cases body with
  | list statements =>
    have hfitting : ∀ n ∈ statements.takeWhile (Settings.hasRoom depth), _ :=
      fun n hn => heval n ((List.takeWhile_prefix _).subset hn)
    refine L.bind (evalSequence L.domain.null hfitting) fun value hvalue => ?_
    split
    · exact L.pure hvalue
    · exact L.own hnode .exhausted
  | other t => exact evalBody hnode heval

end Likeness

-- A likeness of all computations, whatever values come up.
structure Uniform (h : Handler M) (ι : Type) where
  Like {α : Type} (x : ι → M α) (m : Eval α) : Prop
  pure {α : Type} (a : α) : Like (fun _ => Pure.pure a) (Pure.pure a)
  bind {α β : Type} {x : ι → M α} {m : Eval α} {k : ι → α → M β} {f : α → Eval β} (hx : Like x m)
    (hk : ∀ a s t, m s = .ok a t → Like (fun i => k i a) (f a)) :
    Like (fun i => x i >>= k i) (m >>= f)
  own {α : Type} {P : α → Prop} {node : Node} {m : Eval α}
    (hstep : Eval.OwnStep h.level (fun _ => True) node P m) : Like (fun _ => h.own node m) m
  fault {α : Type} (node : Node) (f : Fault) :
    Like (fun _ => h.own node (throw (.fault f) : Eval α)) (throw (.fault f))
  bindTarget (way : Eval.Binding) (node target : Node) (value : Option Value) :
    Like (fun _ => h.bind way node target value) (Eval.bind h.level way target value)
  inScope {α : Type} {x : ι → M α} {m : Eval α} (frame : Frame Value) (hx : Like x m) :
    Like (fun i => h.inScope frame (x i)) (Eval.inScope frame m)
  visit {x : ι → M Value} {m : Eval Value} (node : Node) (hx : Like x m) :
    Like (fun i => h.visit node (x i)) (Eval.visit h.level node m)

namespace Uniform

variable {h : Handler M} {ι : Type}

-- What is known of the values is known of the outcomes of the plain computation.
def likeness (U : h.Uniform ι) : h.Likeness ι where
  Context := Unit
  Stands _ _ := True
  good _ := True
  fine _ := True
  domain := .all
  Like _ P x m := U.Like x m ∧ ∀ s a t, m s = .ok a t → P a
  pure ha := ⟨U.pure _, fun _ _ _ hok => by cases hok; exact ha⟩
  bind hx hk := by
    refine ⟨U.bind hx.1 fun a s t hok => (hk a (hx.2 s a t hok)).1, fun s b u hok => ?_⟩
    obtain ⟨a, t, hfirst, hrest⟩ := Eval.exists_of_bind hok
    exact (hk a (hx.2 s a t hfirst)).2 t b u hrest
  own _ hstep := by
    refine ⟨U.own hstep, fun _ a _ hok => ?_⟩
    cases hstep with
    | frame => exact ⟨fun _ _ => trivial, fun _ _ => trivial⟩
    | exhausted => cases hok
    | _ => trivial
  fault node f := ⟨U.fault node f, fun _ _ _ hok => by cases hok⟩
  bindTarget way _ _ _ := ⟨U.bindTarget way _ _ _, fun _ _ _ _ => trivial⟩
  inScope _ hx := by
    refine ⟨U.inScope _ hx.1, fun s a t hok => ?_⟩
    rw [Eval.inScope_eq_around] at hok
    obtain ⟨u, hinner⟩ := Eval.exists_of_around_ok hok
    exact hx.2 _ a u hinner
  visit _ hx := ⟨U.visit _ (hx () fun _ => trivial).1, fun _ _ _ _ => trivial⟩

theorem like (U : h.Uniform ι) {α : Type} {x : ι → M α} {m : Eval α} (hx : U.Like x m) :
    U.likeness.Like () (fun _ => True) x m := ⟨hx, fun _ _ _ _ => trivial⟩

theorem evals_eval (U : h.Uniform ι) {call : ι → Caller M} {plain : TernLang.Caller}
    (hcall : U.likeness.Calls call plain) (node : Node) :
    U.likeness.Evals (fun i => h.eval (call i)) plain node := Likeness.evals_eval hcall trivial

theorem runBody (U : h.Uniform ι) (node body : Node) {eval : ι → Node → M Value}
    {plain : TernLang.Caller} (heval : ∀ n, U.likeness.Evals eval plain n) :
    U.Like (fun i => h.runBody (eval i) node body) (Eval.runBody h.level plain body) := by
  have hnode : U.likeness.Stands () node := trivial
  exact (Likeness.runBody hnode trivial fun n _ => heval n).1

theorem invoke (U : h.Uniform ι) {node : Node} (hnode : node.isCall) (p : Procedure Value)
    (args : List Value) (body : ι → Frame Value → M Value) {plainBody : Frame Value → Eval Value}
    (hbody : ∀ frame, U.Like (fun i => body i frame) (plainBody frame)) :
    U.Like (fun i => h.invoke node p args (body i)) (Eval.calling h.level p args plainBody) := by
  have hargs : ∀ v ∈ args, U.likeness.fine v := fun _ _ => trivial
  have hinvoke := Likeness.invoke (c := ()) hnode trivial (p := p) trivial hargs
    fun frame _ => U.like (hbody frame)
  exact hinvoke.1

theorem execute [Machine] (U : h.Uniform ι) (program : Node) (depth : Int) (body : Items Node)
    {eval : ι → Node → M Value}
    (heval : ∀ n, U.likeness.Evals eval (Eval.invoke h.level depth depth.toNat) n) :
    U.Like (fun i => h.execute depth (eval i) program body) (Eval.execute h.level depth body) := by
  have hprogram : U.likeness.Stands () program := trivial
  exact (Likeness.execute hprogram depth body fun n _ => heval n).1

end Uniform

end Handler

end TernLang
