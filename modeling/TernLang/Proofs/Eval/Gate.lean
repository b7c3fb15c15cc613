import TernLang.Proofs.Eval.Framing
import TernLang.Proofs.Eval.Progress
import TernLang.Proofs.Eval.Tally
import TernLang.Proofs.Scope.Paths

-- When a call of a declared function gets as far as the body, and what the names in the body stand
-- for. A call that does not get that far has done nothing but report itself.

namespace TernLang

namespace Procedure

variable {p : Procedure Value} {args : List Value}

-- The function is the value of a declaration.
inductive Declared (p : Procedure Value) : Prop where
  | intro {level limit : Int} {room : Nat} {place : Place} {name : Tree} {parameters : Items Node}
    {result : Option Node} {body : Node} {s t : State}
    (isPart : (Node.function place name parameters result body).IsPart .any .statement)
    (proper : s.scopes.Proper)
    (value : Eval.eval level (Eval.invoke level limit room)
      (.function place name parameters result body) s = .ok (.function p) t)

theorem Declared.proper (h : p.Declared) : (Value.function p).Proper := by
  cases h with
  | @intro level limit room _ _ _ _ _ _ _ hpart hproper hvalue =>
    have hcalls : Eval.CallsKeep (Eval.invoke level limit room) :=
      Eval.callsKeep_invoke limit room
    have hkeeps : Eval.PartKeeps level _ .statement _ := Eval.partKeeps_of_isPart hcalls hpart
    have hend := hkeeps _ hproper
    rw [hvalue] at hend
    exact hend.1

-- The argument is of the kind of the sample, if the parameter has one.
def Admits (parameter : Tree × Option Value) (arg : Value) : Prop :=
  ∀ sample ∈ parameter.2, arg.kind = sample.kind

-- Why the first argument that is not admitted is refused.
inductive Misfit (p : Procedure Value) :
    List (Tree × Option Value) → List Value → Error.Cause → Prop where
  | first {name : Tree} {sample arg : Value} {parameters : List (Tree × Option Value)}
    {args : List Value} {expected got : Kind} (sampled : sample.kind = .ok expected)
    (given : arg.kind = .ok got) (apart : got ≠ expected) :
    Misfit p ((name, some sample) :: parameters) (arg :: args)
      (.argumentKind name.shown p.name expected got)
  | later {parameter : Tree × Option Value} {arg : Value}
    {parameters : List (Tree × Option Value)} {args : List Value} {cause : Error.Cause}
    (admitted : Admits parameter arg) (rest : Misfit p parameters args cause) :
    Misfit p (parameter :: parameters) (arg :: args) cause

-- An argument that is refused is not admitted.
theorem Misfit.not_forall {parameters : List (Tree × Option Value)} {cause : Error.Cause}
    (h : p.Misfit parameters args cause) :
    ¬∀ pair ∈ parameters.zip args, Admits pair.1 pair.2 := by
  induction h with
  | first sampled given apart =>
    intro hall
    have hkind := hall _ List.mem_cons_self _ rfl
    rw [given, sampled] at hkind
    exact apart (Except.ok.inj hkind)
  | later admitted rest ih =>
    rw [List.zip_cons_cons, List.forall_mem_cons]
    exact fun hall => ih hall.2

-- A call is let through to the body while so many calls are active.
structure Accepts (p : Procedure Value) (args : List Value) (active limit : Int) : Prop where
  count : args.length = p.parameters.length
  admitted : ∀ pair ∈ p.parameters.zip args, Admits pair.1 pair.2
  room : active < limit

-- Why a call is not let through. Their number is looked at before the kinds of the arguments, and
-- the active calls are counted last.
inductive Refuses (p : Procedure Value) (args : List Value) (active limit : Int) :
    Error.Cause → Prop where
  | count (apart : args.length ≠ p.parameters.length) :
    Refuses p args active limit (.argumentCount p.name p.parameters.length args.length)
  | kind {cause : Error.Cause} (count : args.length = p.parameters.length)
    (misfit : p.Misfit p.parameters args cause) : Refuses p args active limit cause
  | depth (count : args.length = p.parameters.length)
    (admitted : ∀ pair ∈ p.parameters.zip args, Admits pair.1 pair.2) (full : limit ≤ active) :
    Refuses p args active limit (.callDepth limit)

-- What a name stands for in the body: the argument of the last parameter of that name.
def argument? (parameters : List (Tree × Option Value)) (args : List Value) (name : String) :
    Option Value :=
  ((parameters.zip args).reverse.find? fun pair => pair.1.1 = .str name).map (·.2)

theorem argument?_cons (parameter : Tree × Option Value)
    (parameters : List (Tree × Option Value)) (arg : Value) (args : List Value) (name : String) :
    argument? (parameter :: parameters) (arg :: args) name =
      (argument? parameters args name).or (if parameter.1 = .str name then some arg else none) := by
  rw [argument?, List.zip_cons_cons, List.reverse_cons, List.find?_append, Option.map_or,
    List.find?_singleton, argument?]
  by_cases h : parameter.1 = .str name <;> simp [h]

theorem checkArgument_of_admits {parameter : Tree × Option Value} {arg : Value}
    (harg : arg.Proper) (h : Admits parameter arg) :
    p.checkArgument parameter.1 parameter.2 arg = .ok () := by
  obtain ⟨got, hgot⟩ := harg.exists_kind
  cases hsample : parameter.2 with
  | none => rfl
  | some sample =>
    have hkind := h sample hsample
    rw [checkArgument, ← hkind, hgot]
    exact if_pos rfl

-- The arguments are bound if all of them are admitted; the first that is not is refused.
theorem receive_cases {parameters : List (Tree × Option Value)}
    (hnames : ∀ q ∈ parameters, ∃ s, q.1 = .str s)
    (hsamples : ∀ q ∈ parameters, ∀ v ∈ q.2, v.Proper) (hargs : ∀ v ∈ args, v.Proper)
    (f : Frame Value) :
    ((∀ pair ∈ parameters.zip args, Admits pair.1 pair.2) ∧
      ∃ g, p.receive f parameters args = .ok g) ∨
    ∃ cause, p.Misfit parameters args cause ∧
      p.receive f parameters args = .error (.ofCause cause) := by
  induction parameters generalizing args f with
  | nil => exact .inl ⟨by simp, f, by rw [receive.eq_def]⟩
  | cons parameter parameters ih =>
    cases args with
    | nil => exact .inl ⟨by simp, f, by rw [receive.eq_def]⟩
    | cons arg args =>
      rw [List.forall_mem_cons] at hnames hsamples hargs
      obtain ⟨name, sample⟩ := parameter
      obtain ⟨⟨s, rfl⟩, hnames⟩ := hnames
      by_cases hadmits : Admits (.str s, sample) arg
      · have hreceive : p.receive f ((.str s, sample) :: parameters) (arg :: args) =
            p.receive (f.declare s arg) parameters args := by
          rw [receive, checkArgument_of_admits hargs.1 hadmits]
          rfl
        rw [hreceive, List.zip_cons_cons, List.forall_mem_cons]
        refine (ih hnames hsamples.2 hargs.2 (f.declare s arg)).imp (fun h => ?_) fun h => ?_
        · exact ⟨⟨hadmits, h.1⟩, h.2⟩
        · obtain ⟨cause, hmisfit, herror⟩ := h
          exact ⟨cause, .later hadmits hmisfit, herror⟩
      · obtain ⟨v, rfl, hkind⟩ : ∃ v, sample = some v ∧ arg.kind ≠ v.kind := by
          simpa [Admits] using hadmits
        obtain ⟨got, hgot⟩ := hargs.1.exists_kind
        obtain ⟨expected, hexpected⟩ := (hsamples.1 v rfl).exists_kind
        have hne : got ≠ expected := by
          rintro rfl
          exact hkind (hgot.trans hexpected.symm)
        refine .inr ⟨_, .first hexpected hgot hne, ?_⟩
        simp only [receive, checkArgument, hgot, hexpected]
        change (if got = expected then _ else _) >>= _ = _
        rw [if_neg hne]
        rfl

-- Only a text can be bound.
theorem eq_str_of_bindable {name : Tree} {s : String} (h : Name.bindable name = .ok s) :
    name = .str s := by
  unfold Name.bindable at h
  split at h
  · exact congrArg Tree.str (Except.ok.inj h)
  · cases hname : Name.isConstant name with
    | ok constant =>
      rw [hname] at h
      cases h
    | error e =>
      rw [hname] at h
      cases h

theorem get?_of_receive {parameters : List (Tree × Option Value)} {f g : Frame Value}
    (hf : f.Tidy) (h : p.receive f parameters args = .ok g) (name : String) :
    g.get? name = (argument? parameters args name).or (f.get? name) := by
  induction parameters generalizing f args with
  | nil =>
    rw [receive.eq_def] at h
    rw [← Except.ok.inj h]
    rfl
  | cons parameter parameters ih =>
    cases args with
    | nil =>
      rw [receive.eq_def] at h
      rw [← Except.ok.inj h]
      rfl
    | cons arg args =>
      obtain ⟨bound, hbound, hrest⟩ := exists_of_receive h
      have hname := eq_str_of_bindable hbound
      rw [ih (hf.declare bound arg) hrest, hf.get?_declare, argument?_cons, hname, Option.or_assoc]
      by_cases heq : bound = name <;> simp [heq]

theorem get?_of_frame {f : Frame Value} (h : p.frame args = .ok f) (name : String) :
    f.get? name = argument? p.parameters args name := by
  unfold frame at h
  split at h
  · rw [get?_of_receive Frame.tidy_empty h]
    exact Option.or_none
  · cases h

-- A returned value is of the kind of the sample, if the function has one.
theorem kind_of_checkResult {value : Value} (h : p.checkResult value = .ok ()) :
    ∀ sample ∈ p.result, value.kind = sample.kind := by
  intro sample hsample
  rw [checkResult, hsample] at h
  dsimp only at h
  cases hgot : value.kind with
  | error e =>
    rw [hgot] at h
    cases h
  | ok got =>
    cases hexpected : sample.kind with
    | error e =>
      rw [hgot, hexpected] at h
      cases h
    | ok expected =>
      rw [hgot, hexpected] at h
      change (if got = expected then _ else _) = _ at h
      split at h
      case isTrue heq => rw [heq]
      case isFalse => cases h

end Procedure

theorem Chain.lookup?_push {α : Type} (c : Chain α) (f : Frame α) (name : String) :
    (c.push f).lookup? name = (f.get? name).or (c.lookup? name) := by
  rw [lookup?, frames_push, List.findSome?_cons]
  cases f.get? name <;> rfl

namespace Counting

open Eval

variable {level limit : Int} {p : Procedure Value} {args : List Value} {c d : Tally}
  {evaluate : Node → Counting Value}

-- The call comes down to the evaluation of the body, which starts with `d`.
def Starts (level limit : Int) (p : Procedure Value) (args : List Value) (c d : Tally) : Prop :=
  ∀ evaluate, call level limit evaluate p args c = finish level p (evaluate p.body) d

-- The call was reported.
def reported (level : Int) (p : Procedure Value) (args : List Value) (c : Tally) : Tally :=
  { c with state := emitted level (.called p.name args) c.state }

theorem agrees_reported (level : Int) (p : Procedure Value) (args : List Value) (c : Tally) :
    c.state.Agrees (reported level p args c).state := by
  unfold reported emitted
  split <;> exact ⟨rfl, rfl, rfl⟩

theorem call_of_error {e : Failure} (h : p.frame args = .error e) :
    call level limit evaluate p args c = .error e c := by
  rw [call, h]
  rfl

theorem call_of_ok {f : Frame Value} (h : p.frame args = .ok f)
    (htext : (Event.called p.name args).fault? = none) :
    call level limit evaluate p args c =
      (do
        enter limit
        modify (opened f)
        finish level p (evaluate p.body)) (reported level p args c) := by
  rw [call, h, emit_eq_modify htext]
  rfl

theorem starts_of_lt {f : Frame Value} (h : p.frame args = .ok f)
    (htext : (Event.called p.name args).fault? = none) (hroom : c.active < limit) :
    Starts level limit p args c
      (opened f { reported level p args c with active := c.active + 1 }) := by
  intro evaluate
  rw [call_of_ok h htext, bind_eq_of_ok (enter_of_lt (c := reported level p args c) hroom)]
  rfl

theorem call_of_le {f : Frame Value} (h : p.frame args = .ok f)
    (htext : (Event.called p.name args).fault? = none) (hfull : limit ≤ c.active) :
    call level limit evaluate p args c =
      .error (.ofCause (.callDepth limit)) (reported level p args c) := by
  rw [call_of_ok h htext, bind_eq_of_error (enter_of_le (c := reported level p args c) hfull)]

-- A call that fails whatever its body would do has no part in that.
theorem not_starts {cause : Error.Cause} {c' : Tally}
    (h : ∀ evaluate, call level limit evaluate p args c = .error (.ofCause cause) c') :
    ¬Starts level limit p args c d := by
  intro hstarts
  -- A body that ends with a fault would make the call end with it.
  have hfails := (h fun _ => throw (.fault .noStack)).symm.trans (hstarts _)
  cases hfails

theorem kind_of_call {value : Value} (h : call level limit evaluate p args c = .ok value d) :
    ∀ sample ∈ p.result, value.kind = sample.kind := by
  obtain ⟨frame, c₁, -, h⟩ := exists_of_bind h
  obtain ⟨_, c₂, -, h⟩ := exists_of_bind h
  obtain ⟨_, c₃, -, h⟩ := exists_of_bind h
  obtain ⟨_, c₄, -, h⟩ := exists_of_bind h
  obtain ⟨result, c₅, -, h⟩ := exists_of_bind h
  obtain ⟨_, c₆, hcheck, h⟩ := exists_of_bind h
  obtain ⟨_, c₇, -, h⟩ := exists_of_bind h
  obtain rfl : result = value := by
    cases h
    rfl
  refine Procedure.kind_of_checkResult ?_
  cases hresult : p.checkResult result with
  | ok _ => rfl
  | error e =>
    rw [hresult] at hcheck
    cases hcheck

theorem fault?_called (name : String) (hargs : ∀ v ∈ args, v.Proper) :
    (Event.called name args).fault? = none := by
  have htext : Value.haveText (Event.called name args).values :=
    Value.haveText_eq_true fun v hv => (hargs v hv).hasText
  simp only [Event.fault?, htext, if_true]

-- A call gets to the body, in which the parameters are bound inside the scopes of the caller, or it
-- is refused and leaves all as it was.
theorem starts_or_refuses (hp : (Value.function p).Proper) (hargs : ∀ v ∈ args, v.Proper)
    (level limit : Int) (c : Tally) :
    (p.Accepts args c.active limit ∧ ∃ d, Starts level limit p args c d ∧
      d.active = c.active + 1 ∧ d.state.input = c.state.input ∧ d.state.output = c.state.output ∧
      ∀ name, d.state.scopes.lookup? name =
        (Procedure.argument? p.parameters args name).or (c.state.scopes.lookup? name)) ∨
    (¬p.Accepts args c.active limit ∧ ∃ cause d, p.Refuses args c.active limit cause ∧
      d.active = c.active ∧ c.state.Agrees d.state ∧
      ∀ evaluate, call level limit evaluate p args c = .error (.ofCause cause) d) := by
  cases hp with
  | function hnames hsamples hresult hbody =>
    by_cases hcount : args.length = p.parameters.length
    · have hframe : p.frame args = p.receive .empty p.parameters args := if_pos hcount
      have htext := fault?_called p.name hargs
      have hagrees := agrees_reported level p args c
      rcases p.receive_cases hnames hsamples hargs .empty with
        ⟨hadmitted, f, hreceive⟩ | ⟨cause, hmisfit, herror⟩
      · have hok := hframe.trans hreceive
        by_cases hroom : c.active < limit
        · refine .inl ⟨⟨hcount, hadmitted, hroom⟩, _, starts_of_lt hok htext hroom, rfl,
            hagrees.input, hagrees.output, fun name => ?_⟩
          rw [← Procedure.get?_of_frame hok name, ← hagrees.scopes]
          exact Chain.lookup?_push _ f name
        · have hfull : limit ≤ c.active := by omega
          exact .inr ⟨fun h => hroom h.room, _, reported level p args c,
            .depth hcount hadmitted hfull, rfl, hagrees, fun evaluate => call_of_le hok htext hfull⟩
      · refine .inr ⟨fun h => ?_, cause, c, .kind hcount hmisfit, rfl, ⟨rfl, rfl, rfl⟩,
          fun evaluate => call_of_error (hframe.trans herror)⟩
        exact hmisfit.not_forall h.admitted
    · have hframe : p.frame args =
          .error (.ofCause (.argumentCount p.name p.parameters.length args.length)) := if_neg hcount
      exact .inr ⟨fun h => hcount h.count, _, c, .count hcount, rfl, ⟨rfl, rfl, rfl⟩,
        fun evaluate => call_of_error hframe⟩

-- The calls of a declared function. The body is started if there are as many arguments as
-- parameters, each of the kind of its sample, and fewer calls are active than may be. Otherwise the
-- call fails, for the first of these that is wrong, and changes neither scopes nor input nor output
-- nor the count. In the body a parameter stands for its argument, and every other name for what it
-- stands for where the function is called. What is returned is of the kind of the sample. The calls
-- of the evaluator are these calls.
theorem call_gated (hp : p.Declared) (hargs : ∀ v ∈ args, v.Proper) (level limit : Int)
    (c : Tally) :
    ((∃ d, Starts level limit p args c d) ↔ p.Accepts args c.active limit) ∧
    (¬p.Accepts args c.active limit → ∃ cause d, p.Refuses args c.active limit cause ∧
      d.active = c.active ∧ c.state.Agrees d.state ∧
      ∀ evaluate, call level limit evaluate p args c = .error (.ofCause cause) d) ∧
    (p.Accepts args c.active limit → ∃ d, Starts level limit p args c d ∧
      d.active = c.active + 1 ∧ d.state.input = c.state.input ∧ d.state.output = c.state.output ∧
      ∀ name, d.state.scopes.lookup? name =
        (Procedure.argument? p.parameters args name).or (c.state.scopes.lookup? name)) ∧
    (∀ evaluate value d, call level limit evaluate p args c = .ok value d →
      ∀ sample ∈ p.result, value.kind = sample.kind) ∧
    call level limit (bodies level limit) p args c =
      uncounted (invoke level limit (limit - c.active).toNat p args) c := by
  have hends := starts_or_refuses hp.proper hargs level limit c
  have haccept (h : p.Accepts args c.active limit) := (hends.resolve_right fun hr => hr.1 h).2
  refine ⟨⟨?only, fun h => ?start⟩, fun hnot => (hends.resolve_left fun hl => hnot hl.1).2, haccept,
    fun _ _ _ h => kind_of_call h, call_bodies level limit p args c⟩
  case only =>
    rintro ⟨d, hstarts⟩
    rcases hends with ⟨haccepts, -⟩ | ⟨-, cause, d', -, -, -, hfails⟩
    · exact haccepts
    · exact absurd hstarts (not_starts hfails)
  case start =>
    obtain ⟨d, hstarts, -⟩ := haccept h
    exact ⟨d, hstarts⟩

-- A function that takes and returns an integer, called with one and with null.
theorem call_gated_integer :
    let body : Node := .block .start (.list [.ident .start (.str "a")])
    let p : Procedure Value := ⟨"f", [(.str "a", some (.int 1))], some (.int 1), body⟩
    let c : Tally := ⟨(Session.start {} "").state, 0⟩
    (∃ d, Starts 0 1 p [.int 7] c d ∧ d.state.scopes.lookup? "a" = some (.int 7)) ∧
    ∃ cause d, p.Refuses [.null] 0 1 cause ∧
      call 0 1 (bodies 0 1) p [.null] c = .error (.ofCause cause) d := by
  intro body p c
  let sample : Node := .literal .start (.int 1) (.str "Integer")
  have hpart : (Node.function .start (.str "f") (.list [.parameter .start (.str "a") (some sample)])
      (some sample) body).IsPart .any .statement := by
    have hsample : ∀ n ∈ some sample, n.IsExpression .any := by
      rintro n ⟨⟩
      exact .literal trivial (.integer 1 (by decide) (by decide))
    have hbody : body.IsPart .any .block := .block trivial fun n hn => by
      rw [List.mem_singleton.1 hn]
      exact .ofExpression (.ident trivial trivial)
    refine .function trivial trivial (fun n hn => ?_) hsample hbody
    rw [List.mem_singleton.1 hn]
    exact .parameter trivial trivial hsample
  have hp : p.Declared := .intro hpart (Session.proper_start {} "")
    (show eval 0 (invoke 0 1 1) _ _ = _ from rfl)
  have haccepts : p.Accepts [.int 7] 0 1 := by
    refine ⟨rfl, ?_, by decide⟩
    intro pair hpair
    rw [List.mem_singleton.1 hpair]
    rintro _ ⟨⟩
    rfl
  have hnot : ¬p.Accepts [.null] 0 1 := by
    intro h
    have hkind := h.admitted ((.str "a", some (.int 1)), .null) (List.mem_singleton.2 rfl) _ rfl
    cases hkind
  have hseven : ∀ v ∈ [Value.int 7], v.Proper := by simp [Value.Proper.int]
  have hnull : ∀ v ∈ [Value.null], v.Proper := by simp [Value.Proper.null]
  obtain ⟨-, -, hstarts, -⟩ := call_gated hp hseven 0 1 c
  obtain ⟨-, hrefuses, -⟩ := call_gated hp hnull 0 1 c
  obtain ⟨d, hd, -, -, -, hlookup⟩ := hstarts haccepts
  obtain ⟨cause, d', hcause, -, -, hfails⟩ := hrefuses hnot
  exact ⟨⟨d, hd, hlookup "a"⟩, cause, d', hcause, hfails _⟩

end Counting

end TernLang
