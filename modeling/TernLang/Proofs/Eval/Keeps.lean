import TernLang.Proofs.Eval.Around
import TernLang.Proofs.Scope.Contents
import TernLang.Proofs.Value.Proper

-- Computations that keep every name bound to a proper value, whether they end well or not.

namespace TernLang

-- All names of a scope are bound to proper values.
structure Frame.Proper (f : Frame Value) : Prop where
  vars : ∀ b ∈ f.vars, b.2.Proper
  consts : ∀ b ∈ f.consts, b.2.Proper

theorem Frame.proper_iff_each {f : Frame Value} : f.Proper ↔ f.Each Value.Proper :=
  ⟨fun h => ⟨h.vars, h.consts⟩, fun h => ⟨h.vars, h.consts⟩⟩

namespace Frame.Proper

variable {f : Frame Value} {v : Value} {name : String}

theorem empty : (Frame.empty : Frame Value).Proper := Frame.proper_iff_each.2 .empty

theorem declare (h : f.Proper) (hv : v.Proper) : (f.declare name v).Proper :=
  Frame.proper_iff_each.2 ((Frame.proper_iff_each.1 h).declare hv)

end Frame.Proper

-- All names of all scopes are bound to proper values.
def Chain.Proper (c : Chain Value) : Prop := ∀ f ∈ c.frames, f.Proper

theorem Chain.proper_iff_each {c : Chain Value} : c.Proper ↔ c.Each Value.Proper :=
  forall₂_congr fun _ _ => Frame.proper_iff_each

namespace Chain.Proper

variable {c d : Chain Value} {v : Value} {name : String}

theorem push (h : c.Proper) {f : Frame Value} (hf : f.Proper) : (c.push f).Proper :=
  List.forall_mem_cons.2 ⟨hf, h⟩

theorem pop (h : c.Proper) : c.pop.Proper :=
  Chain.proper_iff_each.2 (Chain.proper_iff_each.1 h).pop

theorem declare (h : c.Proper) (hv : v.Proper) : (c.declare name v).Proper :=
  Chain.proper_iff_each.2 ((Chain.proper_iff_each.1 h).declare hv)

theorem of_lookup? (h : c.Proper) (hv : c.lookup? name = some v) : v.Proper :=
  (Chain.proper_iff_each.1 h).of_lookup? hv

theorem of_assign? (h : c.Proper) (hv : v.Proper) (hd : c.assign? name v = some d) : d.Proper :=
  Chain.proper_iff_each.2 ((Chain.proper_iff_each.1 h).of_assign? hv hd)

end Chain.Proper

namespace Eval

-- The end of a computation that started with proper values.
def IsSettled {α : Type} (P : α → Prop) : EStateM.Result Failure State α → Prop
  | .ok a t => P a ∧ t.scopes.Proper
  | .error failure t => failure.IsExpected ∧ t.scopes.Proper

-- A computation gives something that `P` holds of, or fails as a program can, and keeps all names
-- bound to proper values.
def Keeps {α : Type} (P : α → Prop) (m : Eval α) : Prop :=
  ∀ s : State, s.scopes.Proper → IsSettled P (m s)

namespace Keeps

variable {α β : Type} {P : α → Prop} {Q : β → Prop} {m : Eval α}

theorem pure {a : α} (h : P a) : Keeps P (Pure.pure a) := fun _ hs => ⟨h, hs⟩

theorem bind {f : α → Eval β} (hm : Keeps P m) (hf : ∀ a, P a → Keeps Q (f a)) :
    Keeps Q (m >>= f) := by
  intro s hs
  have hfirst := hm s hs
  simp only [Bind.bind, EStateM.bind]
  cases hrun : m s with
  | ok a t =>
    rw [hrun] at hfirst
    exact hf a hfirst.1 t hfirst.2
  | error failure t =>
    rw [hrun] at hfirst
    exact hfirst

theorem isExpected (hm : Keeps P m) {s t : State} (hs : s.scopes.Proper) {e : Failure}
    (h : m s = .error e t) : e.IsExpected := by
  have hend := hm s hs
  rw [h] at hend
  exact hend.1

theorem lift {x : Except Failure α} (h : EndsWell P x) : Keeps P (Eval.lift x) := by
  intro s hs
  cases x with
  | ok a => exact ⟨h, hs⟩
  | error failure => exact ⟨h, hs⟩

theorem fail {cause : Error.Cause} (hbound : cause ≠ .unassignable)
    (hvalue : ∀ type, cause ≠ .notAValue type) : Keeps P (Eval.fail cause : Eval α) :=
  fun _ hs => ⟨⟨hbound, hvalue⟩, hs⟩

-- A change of what is no scope.
theorem ofModify {f : State → State} (h : ∀ s, (f s).scopes = s.scopes) :
    Keeps (fun _ => True) (modify f : Eval Unit) := by
  intro s hs
  exact ⟨trivial, show (f s).scopes.Proper by rw [h]; exact hs⟩

theorem around {start finish : State → State} {handle : Failure → State → Failure × State}
    (hm : Keeps P m) (hstart : ∀ s, s.scopes.Proper → (start s).scopes.Proper)
    (hfinish : ∀ s, s.scopes.Proper → (finish s).scopes.Proper)
    (hhandle : ∀ e s, e.IsExpected → s.scopes.Proper →
      (handle e s).1.IsExpected ∧ (handle e s).2.scopes.Proper) :
    Keeps P (Eval.around start finish handle m) := by
  intro s hs
  have hinner := hm (start s) (hstart s hs)
  cases hrun : m (start s) with
  | ok a t =>
    rw [hrun] at hinner
    rw [around_of_ok hrun]
    exact ⟨hinner.1, hfinish t hinner.2⟩
  | error e t =>
    rw [hrun] at hinner
    rw [around_of_error hrun]
    exact hhandle e t hinner.1 hinner.2

theorem located (place : Place) (hm : Keeps P m) : Keeps P (Eval.located place m) := by
  rw [located_eq_around]
  refine hm.around (fun _ hs => hs) (fun _ hs => hs) fun e s he hs => ⟨?_, hs⟩
  cases e with
  | error e => simpa [Failure.locate, Failure.IsExpected] using he
  | fault f => exact he

theorem inScope {frame : Frame Value} (hframe : frame.Proper) (hm : Keeps P m) :
    Keeps P (Eval.inScope frame m) := by
  rw [inScope_eq_around]
  exact hm.around (fun _ hs => hs.push hframe) (fun _ hs => hs.pop) fun _ _ he hs => ⟨he, hs.pop⟩

theorem emit {event : Event} (h : event.fault? = none) (level : Int) :
    Keeps (fun _ => True) (Eval.emit level event) := by
  unfold Eval.emit
  split
  · rw [h]
    exact ofModify fun _ => rfl
  · exact pure trivial

-- An event that shows proper values can be shown.
theorem emitValues {event : Event} (hevent : ∀ name parameters, event ≠ .defined name parameters)
    (h : ∀ v ∈ event.values, v.Proper) (level : Int) :
    Keeps (fun _ => True) (Eval.emit level event) := by
  have htext := Value.haveText_eq_true fun v hv => (h v hv).hasText
  refine emit ?_ level
  cases event with
  | defined name parameters => exact absurd rfl (hevent name parameters)
  | _ => simp only [Event.fault?, htext, if_true]

theorem reporting {level : Int} (hm : Keeps P m) :
    Keeps P (Eval.reporting (fun e => Eval.emit level (.failed e)) m) := by
  have hreport (e : Error) (s : State) (he : (Failure.error e).IsExpected) (hs : s.scopes.Proper) :
      (reportedFailure (fun e => Eval.emit level (.failed e)) e s).1.IsExpected ∧
        (reportedFailure (fun e => Eval.emit level (.failed e)) e s).2.scopes.Proper := by
    have hemit : IsSettled (fun _ => True) (Eval.emit level (.failed e) s) :=
      emitValues (by simp) (by simp [Event.values]) level s hs
    simp only [reportedFailure]
    cases hrun : Eval.emit level (.failed e) s with
    | ok a t =>
      rw [hrun] at hemit
      exact ⟨he, hemit.2⟩
    | error failure t =>
      rw [hrun] at hemit
      exact hemit
  rw [reporting_eq_around]
  refine hm.around (fun _ hs => hs) (fun _ hs => hs) fun e s he hs => ?_
  cases e with
  | error e => exact hreport e s he hs
  | fault f =>
    cases f with
    | endlessText => exact hreport _ s ⟨by simp, by simp⟩ hs
    | _ => exact ⟨he, hs⟩

theorem endsWell_lookup {find : String → Option α} {name : String}
    (h : ∀ a, find name = some a → P a) : EndsWell P (Name.lookup find (.str name)) := by
  cases hfound : find name with
  | some a =>
    rw [Name.lookup_str_of_some hfound]
    exact h a hfound
  | none =>
    rw [Name.lookup_str_of_none hfound]
    exact .ofCause (by simp) (by simp)

theorem lookup (name : String) : Keeps Value.Proper (Eval.lookup (.str name)) :=
  fun s hs => lift (endsWell_lookup fun _ => hs.of_lookup?) s hs

theorem declare (name : String) {v : Value} (hv : v.Proper) :
    Keeps (fun _ => True) (Eval.declare (.str name) v) :=
  fun _ hs => ⟨trivial, hs.declare hv⟩

theorem assign (name : String) {v : Value} (hv : v.Proper) :
    Keeps (fun _ => True) (Eval.assign (.str name) v) := by
  intro s hs
  have hchain : EndsWell Chain.Proper (Name.lookup (s.scopes.assign? · v) (.str name)) :=
    endsWell_lookup fun _ => hs.of_assign? hv
  have hchange (c : Chain Value) (hc : c.Proper) :
      Keeps (fun _ => True) (modify fun t => { t with scopes := c } : Eval Unit) :=
    fun _ _ => ⟨trivial, hc⟩
  exact (lift hchain).bind hchange s hs

theorem write (text : String) : Keeps (fun _ => True) (Eval.write text) := ofModify fun _ => rfl

theorem readLine : Keeps (fun _ => True) Eval.readLine := fun _ hs => ⟨trivial, hs⟩

theorem result {outcome : Except Failure Value} (h : EndsWell Value.Proper outcome) :
    Keeps Value.Proper (Eval.result outcome) := by
  refine (lift h).bind fun v hv s hs => ?_
  exact ⟨hv.number s.results, hs⟩

theorem visit (level : Int) (node : Node) {m : Eval Value} (hm : Keeps Value.Proper m) :
    Keeps Value.Proper (Eval.visit level node m) := by
  unfold Eval.visit
  split
  · rename_i place _
    exact (emitValues (by simp) (by simp [Event.values]) level).bind fun _ _ => hm.located place
  · exact hm

theorem builtinCall (b : Builtin) {args : List Value} (h : ∀ v ∈ args, v.Proper) :
    Keeps Value.Proper (b.call args) := by
  have htext : EndsWell (fun _ => True) (Builtin.textOf args) := by
    simp only [Builtin.textOf, Value.haveText_eq_true fun v hv => (h v hv).hasText, if_true]
    trivial
  cases b with
  | print => exact (lift htext).bind fun _ _ => (write _).bind fun _ _ => pure .null
  | input =>
    exact (lift htext).bind fun _ _ => (write _).bind fun _ _ =>
      readLine.bind fun _ _ => pure (.str _)
  | tup => exact pure (.tuple h)

end Keeps

-- What a caller does with proper values.
def CallsKeep (call : Caller) : Prop :=
  ∀ p args, (Value.function p).Proper → (∀ v ∈ args, v.Proper) → Keeps Value.Proper (call p args)

theorem Keeps.apply {call : Caller} (hcall : CallsKeep call) (level : Int) {callee : Value}
    (hcallee : callee.Proper) {args : List Value} (hargs : ∀ v ∈ args, v.Proper) :
    Keeps Value.Proper (Eval.apply level call callee args) := by
  cases hcallee with
  | builtin b =>
    exact (Keeps.emitValues (by simp) (by simp [Event.values]) level).bind fun _ _ =>
      .builtinCall b hargs
  | method hkind hreceiver hbound =>
    refine (Keeps.emitValues (by simp) (by simp [Event.values]) level).bind fun _ _ => .lift ?_
    refine Value.endsWell_call _ _ fun v hv => ?_
    rcases List.mem_append.1 hv with hv | hv
    · exact hbound v hv
    · exact hargs v hv
  | function hnames hsamples hresult hbody =>
    exact hcall _ args (.function hnames hsamples hresult hbody) hargs
  | _ => exact .pure .null

end Eval

end TernLang
