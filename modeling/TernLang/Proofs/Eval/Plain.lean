import TernLang.Proofs.Eval.Scoping
import TernLang.Proofs.Value.Refusals

-- The steps of a run that are no calls. It is nothing to them what was written before, and none of
-- them fails because calls stand too deep inside each other.

namespace TernLang

-- The failure of a call that stands too deep.
def Failure.IsDeep (limit : Int) (e : Failure) : Prop :=
  ∃ place, e = .error ⟨.callDepth limit, place⟩

-- The same state when this was written and reported before.
def State.onto (s : State) (output : String) (trace : Array Event) : State :=
  { s with output := output ++ s.output, trace := trace ++ s.trace }

namespace Failure

variable {limit : Int} {e : Failure}

theorem not_isDeep_fault (f : Fault) : ¬IsDeep limit (.fault f) := by
  rintro ⟨place, h⟩
  cases h

theorem isDeep_callDepth (limit : Int) : IsDeep limit (.ofCause (.callDepth limit)) := ⟨_, rfl⟩

theorem not_isDeep_ofCause {cause : Error.Cause} (h : cause ≠ .callDepth limit) :
    ¬IsDeep limit (.ofCause cause) := by
  rintro ⟨place, heq⟩
  exact h (congrArg Error.cause (Failure.error.inj heq))

theorem isDeep_error {e : Error} : IsDeep limit (.error e) ↔ e.cause = .callDepth limit := by
  constructor
  · rintro ⟨place, h⟩
    rw [Failure.error.inj h]
  · intro h
    exact ⟨e.place, by rw [← h]⟩

instance (limit : Int) (e : Failure) : Decidable (e.IsDeep limit) :=
  match e with
  | .error _ => decidable_of_iff _ isDeep_error.symm
  | .fault f => .isFalse (not_isDeep_fault f)

-- A failure that is given a place keeps its cause.
theorem isDeep_locate (place : Place) : IsDeep limit (e.locate place) ↔ IsDeep limit e := by
  cases e with
  | error e => rw [locate, isDeep_error, isDeep_error, Error.cause_locate]
  | fault f => rw [locate]

theorem IsRaisedBy.not_isDeep {node : Node} (hnode : ¬node.isCall) (h : e.IsRaisedBy node) :
    ¬IsDeep limit e := by
  cases h with
  | error raised => exact not_isDeep_ofCause fun hcause => hnode (raised.call (hcause ▸ rfl))
  | fault f => exact not_isDeep_fault f

end Failure

-- An operation that does not fail as a call does that stands too deep.
def Outcome.Shallow {α : Type} (x : Except Failure α) : Prop :=
  ∀ e, x = .error e → ∀ limit, ¬e.IsDeep limit

namespace Outcome.Shallow

variable {α β : Type} {x : Except Failure α}

theorem ok (a : α) : Shallow (.ok a) := by
  intro e h
  cases h

theorem ofCause {cause : Error.Cause} (h : ∀ limit, cause ≠ .callDepth limit) :
    Shallow (.error (.ofCause cause) : Except Failure α) := by
  intro e he limit
  cases he
  exact Failure.not_isDeep_ofCause (h limit)

theorem fault (f : Fault) : Shallow (.error (.fault f) : Except Failure α) := by
  intro e he limit
  cases he
  exact Failure.not_isDeep_fault f

-- What can fail at every node does not fail in this way, which is that of calls.
theorem of_failsBy (h : ∀ node, FailsBy node x) : Shallow x := by
  intro e he limit
  cases h (.stray .null) with
  | ok a => cases he
  | error raised =>
    cases he
    exact raised.not_isDeep (by simp [Node.isCall])

theorem bind {f : α → Except Failure β} (hx : Shallow x) (hf : ∀ a, Shallow (f a)) :
    Shallow (x >>= f) := by
  cases x with
  | ok a => exact hf a
  | error e =>
    intro e' he
    cases he
    exact hx e rfl

theorem checkArgument (p : Procedure Value) (name : Tree) (sample : Option Value) (arg : Value) :
    Shallow (p.checkArgument name sample arg) := by
  unfold Procedure.checkArgument
  split
  · refine (of_failsBy fun _ => Value.failsBy_kind _).bind fun got =>
      (of_failsBy fun _ => Value.failsBy_kind _).bind fun expected => ?_
    split
    · exact ok _
    · exact ofCause fun limit h => by cases h
  · exact ok _

theorem receive (p : Procedure Value) (frame : Frame Value)
    (parameters : List (Tree × Option Value)) (args : List Value) :
    Shallow (p.receive frame parameters args) := by
  induction parameters generalizing frame args with
  | nil =>
    rw [Procedure.receive.eq_def]
    exact ok _
  | cons parameter parameters ih =>
    obtain ⟨name, sample⟩ := parameter
    cases args with
    | nil =>
      rw [Procedure.receive.eq_def]
      exact ok _
    | cons arg args =>
      rw [Procedure.receive]
      exact (checkArgument p name sample arg).bind fun _ =>
        (of_failsBy fun _ => Name.failsBy_bindable name).bind fun _ => ih _ args

theorem frame (p : Procedure Value) (args : List Value) : Shallow (p.frame args) := by
  unfold Procedure.frame
  split
  · exact receive p .empty _ args
  · exact ofCause fun limit h => by cases h

theorem checkResult (p : Procedure Value) (value : Value) : Shallow (p.checkResult value) := by
  unfold Procedure.checkResult
  split
  · refine (of_failsBy fun _ => Value.failsBy_kind _).bind fun got =>
      (of_failsBy fun _ => Value.failsBy_kind _).bind fun expected => ?_
    split
    · exact ok _
    · exact ofCause fun limit h => by cases h
  · exact ok _

end Outcome.Shallow

namespace Eval

variable {α β : Type}

-- A computation to which it is nothing what was written before.
def Steady (m : Eval α) : Prop :=
  ∀ output trace s, m (s.onto output trace) = mapState (·.onto output trace) (m s)

structure Plain (m : Eval α) : Prop where
  steady : Steady m
  shallow : ∀ s e t, m s = .error e t → ∀ limit, ¬e.IsDeep limit

namespace Steady

theorem pure (a : α) : Steady (Pure.pure a : Eval α) := fun _ _ _ => rfl

theorem throw (e : Failure) : Steady (MonadExcept.throw e : Eval α) := fun _ _ _ => rfl

theorem lift (x : Except Failure α) : Steady (Eval.lift x) := by
  cases x with
  | ok a => exact pure a
  | error e => exact throw e

theorem bind {m : Eval α} {k : α → Eval β} (hm : Steady m) (hk : ∀ a, Steady (k a)) :
    Steady (m >>= k) := by
  intro output trace s
  have hfirst := hm output trace s
  simp only [Bind.bind, EStateM.bind, hfirst]
  cases m s with
  | ok a t => exact hk a output trace t
  | error e t => rfl

theorem emit (level : Int) (event : Event) : Steady (Eval.emit level event) := by
  unfold Eval.emit
  split
  · split
    · intro output trace s
      exact congrArg
        (fun events => EStateM.Result.ok () { s.onto output trace with trace := events })
        Array.append_push.symm
    · exact throw _
  · exact pure _

theorem write (text : String) : Steady (Eval.write text) := by
  intro output trace s
  have hwritten : output ++ s.output ++ text = output ++ (s.output ++ text) := String.append_assoc
  exact congrArg
    (fun written => EStateM.Result.ok () { s.onto output trace with output := written }) hwritten

theorem readLine : Steady Eval.readLine := fun _ _ _ => rfl

theorem result (outcome : Except Failure Value) : Steady (Eval.result outcome) := by
  cases outcome <;> exact fun _ _ _ => rfl

theorem lookup (name : Tree) : Steady (Eval.lookup name) := by
  intro output trace s
  have hscopes : (s.onto output trace).scopes = s.scopes := rfl
  rw [lookup_eq, lookup_eq, hscopes]
  cases Name.lookup s.scopes.lookup? name <;> rfl

theorem declare (name : Tree) (value : Value) : Steady (Eval.declare name value) :=
  (lift (Name.bindable name)).bind fun _ _ _ _ => rfl

theorem assign (name : Tree) (value : Value) : Steady (Eval.assign name value) := by
  intro output trace s
  have hscopes : (s.onto output trace).scopes = s.scopes := rfl
  rw [assign_eq, assign_eq, hscopes]
  cases Name.lookup (s.scopes.assign? · value) name <;> rfl

theorem noItems (first : Fault) (t : Tree) : Steady (Eval.noItems first t) := by
  cases t with
  | str s =>
    rw [Eval.noItems]
    split
    · exact pure ()
    · exact throw _
  | _ => exact throw _

theorem builtinCall (b : Builtin) (args : List Value) : Steady (b.call args) := by
  cases b with
  | print => exact (lift _).bind fun _ => (write _).bind fun _ => pure _
  | input => exact (lift _).bind fun _ => (write _).bind fun _ => readLine.bind fun _ => pure _
  | tup => exact pure _

theorem bindName (level : Int) (way : Binding) (name : Tree) (value : Value) :
    Steady (Eval.bindName level way name value) := by
  cases way with
  | declare => exact (declare name value).bind fun _ => emit _ _
  | assign => exact (assign name value).bind fun _ => emit _ _

end Steady

namespace Plain

variable {m : Eval α}

-- What can fail at every node is no call.
theorem of_failsBy (hsteady : Steady m) (h : ∀ node, FailsBy node m) : Plain m where
  steady := hsteady
  shallow s e t he _ := (h (.stray .null) s e t he).not_isDeep (by simp [Node.isCall])

theorem pure (a : α) : Plain (Pure.pure a : Eval α) := .of_failsBy (.pure a) fun _ => .pure a

theorem fault (f : Fault) : Plain (MonadExcept.throw (.fault f) : Eval α) :=
  .of_failsBy (.throw _) fun _ => .fault f

theorem lift {x : Except Failure α} (h : Outcome.Shallow x) : Plain (Eval.lift x) where
  steady := .lift x
  shallow s e t he := by
    cases x with
    | ok a => cases he
    | error e' =>
      cases he
      exact h _ rfl

theorem fail {cause : Error.Cause} (h : ∀ limit, cause ≠ .callDepth limit) :
    Plain (Eval.fail cause : Eval α) :=
  lift (Outcome.Shallow.ofCause h)

theorem bind {k : α → Eval β} (hm : Plain m) (hk : ∀ a, Plain (k a)) : Plain (m >>= k) where
  steady := hm.steady.bind fun a => (hk a).steady
  shallow s e t he := by
    simp only [Bind.bind, EStateM.bind] at he
    cases hrun : m s with
    | ok a u =>
      rw [hrun] at he
      exact (hk a).shallow u e t he
    | error e' u =>
      rw [hrun] at he
      cases he
      exact hm.shallow s e t hrun

theorem located (place : Place) (hm : Plain m) : Plain (Eval.located place m) where
  steady output trace s := by
    have hinner := hm.steady output trace s
    simp only [Eval.located, hinner]
    cases m s <;> rfl
  shallow s e t he limit := by
    rw [Eval.located] at he
    cases hrun : m s with
    | ok a u =>
      rw [hrun] at he
      cases he
    | error e' u =>
      rw [hrun] at he
      cases he
      exact fun hdeep => hm.shallow s _ t hrun limit ((Failure.isDeep_locate place).1 hdeep)

theorem emit (level : Int) (event : Event) : Plain (Eval.emit level event) :=
  .of_failsBy (.emit level event) fun _ => .emit level event

theorem lookup (name : Tree) : Plain (Eval.lookup name) :=
  .of_failsBy (.lookup name) fun _ => .lookup name

theorem declare (name : Tree) (value : Value) : Plain (Eval.declare name value) :=
  .of_failsBy (.declare name value) fun _ => .declare name value

theorem result {x : Except Failure Value} (h : ∀ node, Outcome.FailsBy node x) :
    Plain (Eval.result x) :=
  .of_failsBy (.result x) fun node => .result (h node)

theorem noItems (first : Fault) (t : Tree) : Plain (Eval.noItems first t) :=
  .of_failsBy (.noItems first t) fun _ => .noItems first t

theorem bindName (level : Int) (way : Binding) (name : Tree) (value : Value) :
    Plain (Eval.bindName level way name value) :=
  .of_failsBy (.bindName level way name value) fun _ => .bindName level way name value

theorem builtinCall (b : Builtin) (args : List Value) : Plain (b.call args) :=
  .of_failsBy (.builtinCall b args) fun _ => .builtinCall b args

-- Calls a value that is no declared function.
theorem apply (level : Int) {call : Caller} (hcall : ∀ p args, Plain (call p args)) (callee : Value)
    (args : List Value) : Plain (Eval.apply level call callee args) := by
  cases callee with
  | builtin b => exact (emit _ _).bind fun _ => builtinCall b args
  | method m receiver bound =>
    exact (emit _ _).bind fun _ => lift (.of_failsBy fun _ => Method.failsBy_call m _ _)
  | function p => exact hcall p args
  | _ => exact pure _

mutual

theorem bindTarget (level : Int) (way : Binding) (target : Node) (value : Option Value) :
    Plain (Eval.bind level way target value) := by
  rw [bind.eq_def]
  split
  · exact bindName level way _ _
  · exact bindItems level way _ _
  · split
    · split
      · exact bindItems level way _ _
      · exact (fail fun _ h => by cases h).located _
    · exact fault _
  · exact (lift (.of_failsBy fun _ => Value.failsBy_kind _)).bind fun _ =>
      (fail fun _ h => by cases h).located _
  · exact fault _
  · exact (fail fun _ h => by cases h).located _

theorem bindItems (level : Int) (way : Binding) (targets : Items Node)
    (values : List (Option Value)) : Plain (Eval.bindItems level way targets values) := by
  cases targets with
  | list targets =>
    rw [Eval.bindItems]
    exact bindAll level way targets values
  | other t =>
    rw [Eval.bindItems]
    exact noItems _ t

theorem bindAll (level : Int) (way : Binding) (targets : List Node)
    (values : List (Option Value)) : Plain (Eval.bindAll level way targets values) := by
  cases targets with
  | nil =>
    rw [bindAll.eq_def]
    exact pure ()
  | cons target targets =>
    cases values with
    | nil =>
      rw [bindAll.eq_def]
      exact pure ()
    | cons value values =>
      rw [Eval.bindAll]
      exact (bindTarget level way target value).bind fun _ => bindAll level way targets values

end

end Plain

end Eval

end TernLang
