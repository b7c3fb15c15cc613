import Mathlib.Tactic.Common
import TernLang.Eval.Invoke

-- How operations on values fail: with an error that has no place yet, and that the node which
-- makes use of them can have. Only a call has the errors of calls, and only a tuple that is bound
-- those of its shape.

namespace TernLang

namespace Node

def isCall : Node → Bool
  | call .. => true
  | _ => false

def isTuple : Node → Bool
  | tuple .. => true
  | _ => false

end Node

namespace Error.Cause

def isOfCall : Cause → Bool
  | argumentCount .. | argumentKind .. | resultKind .. | callDepth _ => true
  | _ => false

def isOfShape : Cause → Bool
  | tupleSize .. | notDestructurable _ => true
  | _ => false

-- The errors that evaluation can have at a node.
structure IsRaisedBy (cause : Cause) (node : Node) : Prop where
  lexical : cause.cls ≠ .lexical
  parse : cause.cls ≠ .parse
  call : cause.isOfCall → node.isCall
  shape : cause.isOfShape → node.isTuple

-- The errors that evaluation can have at any node.
def isPlain (cause : Cause) : Bool :=
  cause.cls ≠ .lexical && cause.cls ≠ .parse && !cause.isOfCall && !cause.isOfShape

theorem isRaisedBy_of_isPlain {cause : Cause} (h : cause.isPlain) (node : Node) :
    cause.IsRaisedBy node := by
  simp only [isPlain, Bool.and_eq_true, decide_eq_true_eq, Bool.not_eq_true'] at h
  obtain ⟨⟨⟨hlexical, hparse⟩, hcall⟩, hshape⟩ := h
  exact ⟨hlexical, hparse, by simp [hcall], by simp [hshape]⟩

theorem isRaisedBy_of_isOfCall {cause : Cause} (h : cause.isOfCall) {node : Node}
    (hnode : node.isCall) : cause.IsRaisedBy node := by
  cases cause with
  | argumentCount | argumentKind | resultKind | callDepth =>
    exact ⟨by simp [cls], by simp [cls], fun _ => hnode, by simp [isOfShape]⟩
  | _ => simp [isOfCall] at h

theorem isRaisedBy_of_isOfShape {cause : Cause} (h : cause.isOfShape) {node : Node}
    (hnode : node.isTuple) : cause.IsRaisedBy node := by
  cases cause with
  | tupleSize | notDestructurable =>
    exact ⟨by simp [cls], by simp [cls], by simp [isOfCall], fun _ => hnode⟩
  | _ => simp [isOfShape] at h

end Error.Cause

-- A failure at a node that has no place yet.
inductive Failure.IsRaisedBy (node : Node) : Failure → Prop where
  | error {cause : Error.Cause} (raised : cause.IsRaisedBy node) : IsRaisedBy node (.ofCause cause)
  | fault (f : Fault) : IsRaisedBy node (.fault f)

-- An operation that fails, if it does, as this node can.
inductive Outcome.FailsBy (node : Node) {α : Type} : Except Failure α → Prop where
  | ok (a : α) : FailsBy node (.ok a)
  | error {failure : Failure} (raised : failure.IsRaisedBy node) : FailsBy node (.error failure)

namespace Outcome.FailsBy

variable {node : Node} {α β : Type}

theorem plain {cause : Error.Cause} (h : cause.isPlain) :
    FailsBy node (.error (.ofCause cause) : Except Failure α) :=
  .error (.error (Error.Cause.isRaisedBy_of_isPlain h node))

theorem fault (f : Fault) : FailsBy node (.error (.fault f) : Except Failure α) :=
  .error (.fault f)

theorem bind {x : Except Failure α} {f : α → Except Failure β} (hx : FailsBy node x)
    (hf : ∀ a, FailsBy node (f a)) : FailsBy node (x >>= f) := by
  cases hx with
  | ok a => exact hf a
  | error raised => exact .error raised

theorem discard {x : Except Failure α} (hx : FailsBy node x) : FailsBy node (discard x) := by
  cases hx with
  | ok a => exact .ok ()
  | error raised => exact .error raised

end Outcome.FailsBy

open Outcome (FailsBy)

variable {node : Node}

namespace Value

theorem failsBy_kind (v : Value) : FailsBy node v.kind := by
  cases v with
  | alien t => exact .plain rfl
  | _ => exact .ok _

theorem failsBy_equalLeaf (v w : Value) : FailsBy node (v.equalLeaf w) :=
  (failsBy_kind v).discard.bind fun _ => (failsBy_kind w).discard.bind fun _ => .ok _

mutual

theorem failsBy_equal (v w : Value) : FailsBy node (v.equal w) := by
  have hleaf : FailsBy node (v.equalLeaf w) := failsBy_equalLeaf v w
  cases v with
  | array xs =>
    cases w with
    | array ys =>
      rw [equal]
      split
      · exact failsBy_equalAll xs ys
      · exact .ok _
    | _ => simpa only [equal] using hleaf
  | tuple xs =>
    cases w with
    | tuple ys =>
      rw [equal]
      split
      · exact failsBy_equalAll xs ys
      · exact .ok _
    | _ => simpa only [equal] using hleaf
  | object fields =>
    cases w with
    | object others =>
      rw [equal]
      split
      · exact failsBy_equalFields fields others
      · exact .ok _
    | _ => simpa only [equal] using hleaf
  | function p =>
    cases w with
    | function q =>
      rw [equal]
      exact .ok _
    | _ => simpa only [equal] using hleaf
  | method m v bound =>
    cases w with
    | method m' w bound' =>
      rw [equal]
      split
      · exact failsBy_equal v w
      · exact .ok _
    | _ => simpa only [equal] using hleaf
  | _ => cases w <;> simpa only [equal] using hleaf

theorem failsBy_equalAll (vs ws : List Value) : FailsBy node (equalAll vs ws) := by
  cases vs with
  | nil =>
    rw [equalAll.eq_def]
    exact .ok _
  | cons v vs =>
    cases ws with
    | nil =>
      rw [equalAll.eq_def]
      exact .ok _
    | cons w ws =>
      rw [equalAll]
      refine (failsBy_equal v w).bind fun same => ?_
      cases same with
      | true => exact failsBy_equalAll vs ws
      | false => exact .ok _

theorem failsBy_equalFields (fields others : List (String × Value)) :
    FailsBy node (equalFields fields others) := by
  cases fields with
  | nil =>
    rw [equalFields]
    exact .ok _
  | cons field fields =>
    obtain ⟨name, v⟩ := field
    rw [equalFields]
    cases field? name others with
    | none => exact .ok _
    | some w =>
      refine (failsBy_equal v w).bind fun same => ?_
      cases same with
      | true => exact failsBy_equalFields fields others
      | false => exact .ok _

end

theorem failsBy_isLabelOf (label value : Value) : FailsBy node (Eval.isLabelOf label value) := by
  cases label with
  | null => exact .ok _
  | _ => exact failsBy_equal _ _

theorem failsBy_holds (c : Comparison) (v w : Value) : FailsBy node (c.holds v w) := by
  have hcontents {same : Except Failure Bool} (h : FailsBy node same) (a b : Nat) :
      FailsBy node (c.contents same a b) := by
    cases c with
    | equal => exact h
    | notEqual => exact h.bind fun _ => .ok _
    | _ => exact .ok _
  unfold Comparison.holds
  split
  case h_7 => exact hcontents (failsBy_equal _ _) _ _
  case h_8 => exact hcontents (failsBy_equal _ _) _ _
  all_goals exact .ok _

theorem failsBy_compare (op : Tree) (v w : Value) : FailsBy node (v.compare op w) := by
  unfold compare
  split
  · exact (failsBy_kind _).discard.bind fun _ => (failsBy_kind _).discard.bind fun _ =>
      (failsBy_holds _ _ _).bind fun _ => .ok _
  · exact .fault _

theorem failsBy_simple (op : Arithmetic) (v w : Value) : FailsBy node (op.simple v w) := by
  have hints (a b : Int) : FailsBy node (op.ints a b) := by
    cases op with
    | rem =>
      simp only [Arithmetic.ints]
      split
      · exact .plain rfl
      · exact .ok _
    | _ => exact .ok _
  unfold Arithmetic.simple
  split
  case h_1 => exact hints _ _
  all_goals exact .ok _

theorem failsBy_binaryLeaf (op : Tree) (v w : Value) : FailsBy node (v.binaryLeaf op w) := by
  refine (failsBy_kind v).discard.bind fun _ => (failsBy_kind w).discard.bind fun _ => ?_
  split
  · exact failsBy_simple _ v w
  · exact .ok _

mutual

theorem failsBy_binary (op : Tree) (v w : Value) : FailsBy node (v.binary op w) := by
  have hleaf : FailsBy node (v.binaryLeaf op w) := failsBy_binaryLeaf op v w
  cases v with
  | tuple xs =>
    cases w with
    | tuple ys =>
      rw [binary]
      exact (failsBy_binaryAll op xs ys).bind fun _ => .ok _
    | _ => simpa only [binary] using hleaf
  | _ => simpa only [binary] using hleaf

theorem failsBy_binaryAll (op : Tree) (vs ws : List Value) :
    FailsBy node (binaryAll op vs ws) := by
  cases vs with
  | nil =>
    rw [binaryAll.eq_def]
    exact .ok _
  | cons v vs =>
    cases ws with
    | nil =>
      rw [binaryAll.eq_def]
      exact .ok _
    | cons w ws =>
      rw [binaryAll]
      exact (failsBy_binary op v w).bind fun _ => (failsBy_binaryAll op vs ws).bind fun _ => .ok _

end

theorem failsBy_unary (op : Tree) (v : Value) : FailsBy node (v.unary op) := by
  unfold unary
  split
  · exact .ok _
  split
  case h_4 => exact (failsBy_kind _).bind fun _ => .plain rfl
  all_goals exact .ok _

theorem failsBy_property (name : Tree) (v : Value) : FailsBy node (v.property name) := by
  refine (failsBy_kind v).bind fun kind => ?_
  split
  · exact .ok _
  split
  · split
    · exact .ok _
    · split
      · exact .ok _
      · exact .plain rfl
    · exact .plain rfl
  · exact .fault _

theorem failsBy_index (v w : Value) : FailsBy node (v.index w) := by
  unfold index
  split
  · exact failsBy_property _ _
  · exact .ok _
  · exact .ok _
  · exact (failsBy_kind _).discard.bind fun _ => .ok _

theorem failsBy_textToInteger (s : String) : FailsBy node (textToInteger s) := by
  unfold textToInteger
  split
  · split
    · exact .ok _
    · exact .plain rfl
  · exact .fault _
  · exact .plain rfl

theorem failsBy_textToReal (s : String) : FailsBy node (textToReal s) := by
  simp only [textToReal]
  split
  · split
    · exact .ok _
    · exact .plain rfl
  · exact .plain rfl

theorem failsBy_convert (target : Tree) (v : Value) : FailsBy node (v.convert target) := by
  refine (failsBy_kind v).discard.bind fun _ => ?_
  split
  · cases v with
    | str s => exact failsBy_textToInteger s
    | _ => exact .ok _
  · cases v with
    | str s => exact failsBy_textToReal s
    | _ => exact .ok _
  · exact .ok _
  · exact .ok _
  · exact .ok _

end Value

theorem Method.failsBy_split (s : String) (args : List Value) : FailsBy node (split s args) := by
  unfold split
  split
  · exact .ok _
  · exact .ok _
  · split
    · exact .ok _
    · exact .ok _
  · exact (Value.failsBy_kind _).bind fun _ => .plain rfl

theorem Method.failsBy_call (m : Method) (v : Value) (args : List Value) :
    FailsBy node (m.call v args) := by
  unfold call
  split
  case h_3 => exact failsBy_split _ _
  all_goals exact .ok _

theorem Builtin.failsBy_textOf (args : List Value) : FailsBy node (textOf args) := by
  unfold textOf
  split
  · exact .ok _
  · exact .fault _

namespace Name

theorem failsBy_lookup {α : Type} (find : String → Option α) (name : Tree) :
    FailsBy node (lookup find name) := by
  unfold lookup
  split
  · split
    · exact .ok _
    · exact .plain rfl
  · exact .fault _

theorem failsBy_bindable (name : Tree) : FailsBy node (bindable name) := by
  have hcapitals (items : List Tree) : FailsBy node (areCapitals items) := by
    induction items with
    | nil => exact .ok _
    | cons item items ih =>
      cases item with
      | str s =>
        rw [areCapitals]
        split
        · exact ih
        · exact .ok _
      | _ => exact .fault _
  cases name with
  | str s => exact .ok _
  | list items => exact (hcapitals items).discard.bind fun _ => .fault _
  | _ => exact .fault _

end Name

-- The checks around the body of a function are made by the node that calls it.
namespace Procedure

variable (hcall : node.isCall)

include hcall

theorem failsBy_checkArgument (p : Procedure Value) (name : Tree) (sample : Option Value)
    (arg : Value) : FailsBy node (p.checkArgument name sample arg) := by
  unfold checkArgument
  split
  · refine (Value.failsBy_kind _).bind fun got => (Value.failsBy_kind _).bind fun expected => ?_
    split
    · exact .ok _
    · exact .error (.error (Error.Cause.isRaisedBy_of_isOfCall rfl hcall))
  · exact .ok _

theorem failsBy_receive (p : Procedure Value) (frame : Frame Value)
    (parameters : List (Tree × Option Value)) (args : List Value) :
    FailsBy node (p.receive frame parameters args) := by
  induction parameters generalizing frame args with
  | nil =>
    rw [receive.eq_def]
    exact .ok _
  | cons parameter parameters ih =>
    obtain ⟨name, sample⟩ := parameter
    cases args with
    | nil =>
      rw [receive.eq_def]
      exact .ok _
    | cons arg args =>
      rw [receive]
      exact (failsBy_checkArgument hcall p name sample arg).bind fun _ =>
        (Name.failsBy_bindable name).bind fun _ => ih _ args

theorem failsBy_frame (p : Procedure Value) (args : List Value) : FailsBy node (p.frame args) := by
  unfold frame
  split
  · exact failsBy_receive hcall p .empty _ args
  · exact .error (.error (Error.Cause.isRaisedBy_of_isOfCall rfl hcall))

theorem failsBy_checkResult (p : Procedure Value) (v : Value) :
    FailsBy node (p.checkResult v) := by
  unfold checkResult
  split
  · refine (Value.failsBy_kind _).bind fun got => (Value.failsBy_kind _).bind fun expected => ?_
    split
    · exact .ok _
    · exact .error (.error (Error.Cause.isRaisedBy_of_isOfCall rfl hcall))
  · exact .ok _

end Procedure

namespace Eval

variable {α β : Type}

-- A computation that fails, if it does, as this node can.
def FailsBy (node : Node) (m : Eval α) : Prop :=
  ∀ s f t, m s = .error f t → f.IsRaisedBy node

namespace FailsBy

theorem pure (a : α) : FailsBy node (Pure.pure a : Eval α) := by
  intro s f t h
  cases h

theorem throw {failure : Failure} (h : failure.IsRaisedBy node) :
    FailsBy node (MonadExcept.throw failure : Eval α) := by
  intro s f t heq
  cases heq
  exact h

theorem fault (f : Fault) : FailsBy node (MonadExcept.throw (.fault f) : Eval α) :=
  throw (.fault f)

theorem fail {cause : Error.Cause} (h : cause.IsRaisedBy node) :
    FailsBy node (Eval.fail cause : Eval α) :=
  throw (.error h)

theorem lift {x : Except Failure α} (h : Outcome.FailsBy node x) : FailsBy node (Eval.lift x) := by
  cases h with
  | ok a => exact pure a
  | error raised => exact throw raised

theorem ofModify (change : State → State) : FailsBy node (modify change : Eval Unit) := by
  intro s f t h
  cases h

theorem bind {m : Eval α} {k : α → Eval β} (hm : FailsBy node m) (hk : ∀ a, FailsBy node (k a)) :
    FailsBy node (m >>= k) := by
  intro s f t h
  simp only [Bind.bind, EStateM.bind] at h
  cases hfirst : m s with
  | ok a u =>
    rw [hfirst] at h
    exact hk a u f t h
  | error e u =>
    rw [hfirst] at h
    cases h
    exact hm s f t hfirst

theorem emit (level : Int) (event : Event) : FailsBy node (Eval.emit level event) := by
  unfold Eval.emit
  split
  · split
    · exact ofModify _
    · exact fault _
  · exact pure _

-- What is read from the state can be anything.
theorem get : FailsBy node (MonadState.get : Eval State) := by
  intro s f t h
  cases h

theorem result {x : Except Failure Value} (h : Outcome.FailsBy node x) :
    FailsBy node (Eval.result x) :=
  (lift h).bind fun _ => get.bind fun _ => (ofModify _).bind fun _ => pure _

theorem lookup (name : Tree) : FailsBy node (Eval.lookup name) :=
  get.bind fun _ => lift (Name.failsBy_lookup _ name)

theorem declare (name : Tree) (v : Value) : FailsBy node (Eval.declare name v) :=
  (lift (Name.failsBy_bindable name)).bind fun _ => ofModify _

theorem assign (name : Tree) (v : Value) : FailsBy node (Eval.assign name v) :=
  get.bind fun _ => (lift (Name.failsBy_lookup _ name)).bind fun _ => ofModify _

theorem bindName (level : Int) (way : Binding) (name : Tree) (v : Value) :
    FailsBy node (Eval.bindName level way name v) := by
  cases way with
  | declare => exact (declare name v).bind fun _ => emit _ _
  | assign => exact (assign name v).bind fun _ => emit _ _

theorem noItems (first : Fault) (t : Tree) : FailsBy node (Eval.noItems first t) := by
  cases t with
  | str s =>
    simp only [Eval.noItems]
    split
    · exact pure _
    · exact fault _
  | _ => exact fault _

theorem builtinCall (b : Builtin) (args : List Value) : FailsBy node (b.call args) := by
  have htext : FailsBy node (Eval.lift (Builtin.textOf args)) := lift (Builtin.failsBy_textOf args)
  cases b with
  | print => exact htext.bind fun _ => (ofModify _).bind fun _ => pure _
  | input =>
    exact htext.bind fun _ => (ofModify _).bind fun _ =>
      (get.bind fun _ => (ofModify _).bind fun _ => pure _).bind fun _ => pure _
  | tup => exact pure _

end FailsBy

end Eval

end TernLang
