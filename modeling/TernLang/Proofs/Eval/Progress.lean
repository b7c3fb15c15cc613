import TernLang.Proofs.Eval.Around
import TernLang.Proofs.Eval.Keeps
import TernLang.Proofs.Syntax.Lexemes
import TernLang.Proofs.Value.Guarded

-- Progress: a program that was parsed ends in a proper value or fails as a program can.

namespace TernLang

namespace Eval

open Node

variable {l : Leaves} {level : Int}

theorem keeps_bindName (way : Binding) (name : String) {v : Value} (hv : v.Proper) :
    Keeps (fun _ => True) (bindName level way (.str name) v) := by
  cases way with
  | declare =>
    exact (Keeps.declare name hv).bind fun _ _ =>
      .emitValues (by simp) (by simpa [Event.values] using hv) level
  | assign =>
    exact (Keeps.assign name hv).bind fun _ _ =>
      .emitValues (by simp) (by simpa [Event.values] using hv) level

theorem keeps_bindAll {way : Binding} {targets : List Node}
    (h : ∀ n ∈ targets, ∀ value : Option Value, (∀ v ∈ value, v.Proper) →
      Keeps (fun _ => True) (bind level way n value))
    {values : List (Option Value)} (hvalues : ∀ value ∈ values, ∀ v ∈ value, v.Proper) :
    Keeps (fun _ => True) (bindAll level way targets values) := by
  induction targets generalizing values with
  | nil =>
    rw [bindAll.eq_def]
    exact .pure trivial
  | cons n targets ih =>
    cases values with
    | nil =>
      rw [bindAll.eq_def]
      exact .pure trivial
    | cons value values =>
      rw [List.forall_mem_cons] at h hvalues
      rw [bindAll]
      exact (h.1 value hvalues.1).bind fun _ _ => ih h.2 hvalues.2

theorem isTarget_of_mem {elements : List Node} (h : areTargets elements) :
    ∀ n ∈ elements, n.isTarget := by
  induction elements with
  | nil => simp
  | cons n elements ih =>
    simp only [areTargets, Bool.and_eq_true] at h
    exact List.forall_mem_cons.2 ⟨h.1, ih h.2⟩

-- Names and tuples of names are bound, or the value is not of their shape.
theorem keeps_bind (way : Binding) {target : Node} (h : target.IsExpression l)
    (hbound : target.isTarget) {value : Option Value} (hvalue : ∀ v ∈ value, v.Proper) :
    Keeps (fun _ => True) (bind level way target value) := by
  induction h generalizing value with
  | @ident place name =>
    rw [bind]
    refine keeps_bindName way name ?_
    cases value with
    | none => exact .null
    | some v => exact hvalue v rfl
  | @tuple place elements hplace hnonempty helements ih =>
    have hparts (values : List (Option Value)) (hvalues : ∀ value ∈ values, ∀ v ∈ value, v.Proper) :
        Keeps (fun _ => True) (bindItems level way (.list elements) values) := by
      rw [bindItems]
      exact keeps_bindAll
        (fun n hn value hvalue => ih n hn (isTarget_of_mem hbound n hn) hvalue) hvalues
    cases value with
    | none =>
      rw [bind]
      exact hparts _ fun value hmem v hv => by
        rw [List.eq_of_mem_replicate hmem] at hv
        exact absurd hv (by simp)
    | some v =>
      have hv : v.Proper := hvalue v rfl
      obtain ⟨k, hk⟩ := hv.exists_kind
      have hrefused : Keeps (fun _ => True)
          (lift v.kind >>= fun kind =>
            located place (fail (.notDestructurable kind)) : Eval Unit) :=
        .bind (P := fun _ => True) (.lift (by rw [hk]; trivial)) fun _ _ =>
          .located place (.fail (by simp) (by simp))
      cases hv with
      | tuple hitems =>
        simp only [bind, Items.size?]
        split
        · refine hparts _ fun value hmem v hv => ?_
          obtain ⟨item, hitem, rfl⟩ := List.mem_map.1 hmem
          rw [(hitems item hitem).given] at hv
          exact Option.some.inj hv ▸ hitems item hitem
        · exact .located place (.fail (by simp) (by simp))
      | _ => simpa only [bind] using hrefused
  | _ => simp [isTarget] at hbound

section Nodes

variable {call : Caller}

theorem keeps_evalAll {nodes : List Node}
    (h : ∀ n ∈ nodes, Keeps Value.Proper (eval level call n)) :
    Keeps (fun vs => ∀ v ∈ vs, v.Proper) (evalAll level call nodes) := by
  induction nodes with
  | nil =>
    rw [evalAll]
    exact .pure (by simp)
  | cons n nodes ih =>
    rw [List.forall_mem_cons] at h
    rw [evalAll]
    exact h.1.bind fun v hv => (ih h.2).bind fun vs hvs =>
      .pure (List.forall_mem_cons.2 ⟨hv, hvs⟩)

theorem keeps_evalSome {node : Option Node}
    (h : ∀ n ∈ node, Keeps Value.Proper (eval level call n)) :
    Keeps (fun value => ∀ v ∈ value, v.Proper) (evalSome level call node) := by
  cases node with
  | none =>
    rw [evalSome]
    exact .pure (by simp)
  | some n =>
    rw [evalSome]
    exact (h n rfl).bind fun v hv => .pure (by simpa using hv)

theorem keeps_evalSequence {statements : List Node}
    (h : ∀ n ∈ statements, Keeps Value.Proper (eval level call n)) {last : Value}
    (hlast : last.Proper) : Keeps Value.Proper (evalSequence level call last statements) := by
  induction statements generalizing last with
  | nil =>
    rw [evalSequence]
    exact .pure hlast
  | cons n statements ih =>
    rw [List.forall_mem_cons] at h
    rw [evalSequence]
    exact h.1.bind fun v hv => ih h.2 hv

theorem keeps_evalItems {nodes : List Node}
    (h : ∀ n ∈ nodes, Keeps Value.Proper (eval level call n)) :
    Keeps (fun vs => ∀ v ∈ vs, v.Proper) (evalItems level call (.list nodes)) := by
  rw [evalItems]
  exact keeps_evalAll h

theorem keeps_eval {node : Node} {m : Eval Value}
    (heval : eval level call node = visit level node m) (hm : Keeps Value.Proper m) :
    Keeps Value.Proper (eval level call node) := by
  rw [heval]
  exact hm.visit level node

theorem keeps_eval_expression (hcall : CallsKeep call) {node : Node} (h : node.IsExpression l) :
    Keeps Value.Proper (eval level call node) := by
  induction h with
  | literal hplace hvalue => exact keeps_eval (eval.eq_def ..) (.pure (Value.proper_literal hvalue))
  | ident hplace hname => exact keeps_eval (eval.eq_def ..) (.lookup _)
  | array hplace helements ih =>
    refine keeps_eval (eval.eq_def ..) ?_
    exact (keeps_evalItems ih).bind fun vs hvs => .pure (.array hvs)
  | tuple hplace hnonempty helements ih =>
    refine keeps_eval (eval.eq_def ..) ?_
    exact (keeps_evalItems ih).bind fun vs hvs => .pure (.tuple hvs)
  | compare c hplace hleft hright ihleft ihright =>
    refine keeps_eval (eval.eq_def ..) ?_
    exact ihleft.bind fun a ha => ihright.bind fun b hb => .lift (Value.endsWell_compare c ha hb)
  | binary c hplace hleft hright ihleft ihright =>
    refine keeps_eval (eval.eq_def ..) ?_
    exact ihleft.bind fun a ha => ihright.bind fun b hb => .result (Value.endsWell_binary _ ha hb)
  | unary hplace hsign hoperand ih =>
    refine keeps_eval (eval.eq_def ..) ?_
    exact ih.bind fun v hv => .result (Value.endsWell_unary _ hv)
  | assign hplace hbound htarget hvalue _ ih =>
    refine keeps_eval (eval.eq_def ..) ?_
    refine ih.bind fun v hv => (keeps_bind .assign htarget hbound ?_).bind fun _ _ => .pure .null
    simpa [hv.given] using hv
  | @member place target property hplace htarget hproperty ih _ =>
    refine keeps_eval (eval.eq_def ..) (ih.bind fun v hv => ?_)
    cases hproperty with
    | ident _ _ => exact .lift (Value.endsWell_property _ hv)
    | _ => exact .pure .null
  | index hplace htarget hindex ihtarget ihindex =>
    refine keeps_eval (eval.eq_def ..) ?_
    exact ihtarget.bind fun v hv => ihindex.bind fun i hi => .lift (Value.endsWell_index hv hi)
  | @convert place value type hplace hvalue htype ih _ =>
    refine keeps_eval (eval.eq_def ..) (ih.bind fun v hv => ?_)
    cases htype with
    | ident _ _ => exact .result (Value.endsWell_convert _ hv)
    | _ => exact .pure .null
  | call hplace hfunction harguments ihfunction iharguments =>
    refine keeps_eval (eval.eq_def ..) ?_
    exact ihfunction.bind fun callee hcallee => (keeps_evalItems iharguments).bind fun args hargs =>
      .apply hcall level hcallee hargs

-- What evaluation does with the parts of a program.
def PartKeeps (level : Int) (call : Caller) : Part → Node → Prop
  | .parameter, n => ∃ place name type, n = .parameter place (.str name) type ∧
    ∀ t ∈ type, Keeps Value.Proper (eval level call t)
  | .arm, n => ∃ place label body, n = .arm place label body ∧
    Keeps Value.Proper (eval level call label) ∧ Keeps Value.Proper (eval level call body)
  | .block, n | .statement, n => Keeps Value.Proper (eval level call n)

theorem keeps_evalParameters {nodes : List Node}
    (h : ∀ n ∈ nodes, PartKeeps level call .parameter n) :
    Keeps (fun ps => ∀ q ∈ ps, (∃ s, q.1 = .str s) ∧ ∀ v ∈ q.2, v.Proper)
      (evalParameters level call nodes) := by
  induction nodes with
  | nil =>
    rw [evalParameters]
    exact .pure (by simp)
  | cons n nodes ih =>
    rw [List.forall_mem_cons] at h
    obtain ⟨⟨place, name, type, rfl, htype⟩, hnodes⟩ := h
    rw [evalParameters]
    refine (keeps_evalSome htype).bind fun sample hsample => (ih hnodes).bind fun rest hrest => ?_
    have hgiven := Value.forall_mem_bind_given hsample
    exact .pure (List.forall_mem_cons.2 ⟨⟨⟨name, rfl⟩, hgiven⟩, hrest⟩)

theorem keeps_evalParameterItems {nodes : List Node}
    (h : ∀ n ∈ nodes, PartKeeps level call .parameter n) :
    Keeps (fun ps => ∀ q ∈ ps, (∃ s, q.1 = .str s) ∧ ∀ v ∈ q.2, v.Proper)
      (evalParameterItems level call (.list nodes)) := by
  rw [evalParameterItems]
  exact keeps_evalParameters h

theorem keeps_evalArms {value : Value} (hvalue : value.Proper) {arms : List Node}
    (h : ∀ n ∈ arms, PartKeeps level call .arm n) (position : Nat) :
    Keeps Value.Proper (evalArms level call value position arms) := by
  induction arms generalizing position with
  | nil =>
    rw [evalArms]
    exact .pure .null
  | cons n arms ih =>
    rw [List.forall_mem_cons] at h
    obtain ⟨⟨place, label, body, rfl, hlabel, hbody⟩, harms⟩ := h
    rw [evalArms]
    refine hlabel.bind fun v hv => (Keeps.lift (Value.endsWell_isLabelOf hv hvalue)).bind
      fun hit _ => ?_
    cases hit with
    | true =>
      exact (Keeps.emitValues (by simp) (by simpa [Event.values] using hvalue) level).bind
        fun _ _ => hbody
    | false => exact ih harms (position + 1)

theorem partKeeps_of_isPart (hcall : CallsKeep call) {part : Part} {n : Node}
    (h : n.IsPart .any part) : PartKeeps level call part n := by
  have hexpression {e : Node} (he : e.IsExpression .any) : Keeps Value.Proper (eval level call e) :=
    keeps_eval_expression hcall he
  induction h with
  | parameter hplace hname htype => exact ⟨_, _, _, rfl, fun t ht => hexpression (htype t ht)⟩
  | arm hplace hlabel hbody ih => exact ⟨_, _, _, rfl, hexpression hlabel, ih⟩
  | block hplace hstatements ih =>
    refine keeps_eval (eval.eq_def ..) (.inScope .empty ?_)
    rw [evalBody]
    exact keeps_evalSequence ih .null
  | declare hplace hbound htarget hvalue =>
    refine keeps_eval (eval.eq_def ..) ?_
    exact (keeps_evalSome fun n hn => hexpression (hvalue n hn)).bind fun v hv =>
      (keeps_bind .declare htarget hbound (Value.forall_mem_bind_given hv)).bind fun _ _ =>
        .pure .null
  | @function place name parameters result body hplace hname hparameters hresult hbody ih _ =>
    refine keeps_eval (eval.eq_def ..) ?_
    refine (keeps_evalParameterItems ih).bind fun samples hsamples =>
      (keeps_evalSome fun n hn => hexpression (hresult n hn)).bind fun sample hsample => ?_
    have hvalue : (Value.function ⟨name, samples, sample.bind Value.given, body⟩).Proper :=
      .function (fun q hq => (hsamples q hq).1) (fun q hq => (hsamples q hq).2)
        (Value.forall_mem_bind_given hsample) hbody
    have hevent : (Event.defined name (samples.map (·.1))).fault? = none := by
      have hall : (samples.map (·.1)).all (·.text?.isSome) := by
        simp only [List.all_map, List.all_eq_true]
        intro q hq
        obtain ⟨s, hs⟩ := (hsamples q hq).1
        simp [hs, Tree.text?]
      simp only [Event.fault?, hall, if_true]
    exact (Keeps.declare name hvalue).bind fun _ _ => (Keeps.emit hevent level).bind fun _ _ =>
      .pure hvalue
  | conditional hplace hcondition hthen helse ihthen ihelse =>
    refine keeps_eval (eval.eq_def ..) ?_
    refine (hexpression hcondition).bind fun v hv =>
      (Keeps.emitValues (by simp) (by simpa [Event.values] using hv) level).bind fun _ _ => ?_
    split
    · exact ihthen
    · refine (keeps_evalSome ihelse).bind fun value hvalue => .pure ?_
      cases value with
      | none => exact .null
      | some v => exact hvalue v rfl
    · exact .pure .null
  | cases hplace hscrutinee harms ih =>
    refine keeps_eval (eval.eq_def ..) ((hexpression hscrutinee).bind fun v hv => ?_)
    rw [evalArmItems]
    exact keeps_evalArms hv ih 0
  | ofBlock _ ih => exact ih
  | ofExpression he => exact hexpression he

theorem keeps_runBody (hcall : CallsKeep call) {body : Node} (h : body.IsPart .any .block) :
    Keeps Value.Proper (runBody level call body) := by
  cases h with
  | block hplace hstatements =>
    rw [runBody, evalBody]
    exact keeps_evalSequence (fun n hn => partKeeps_of_isPart hcall (hstatements n hn)) .null

end Nodes

section Calls

variable {p : Procedure Value}

theorem endsWell_checkArgument {name : Tree} {sample : Option Value} {arg : Value}
    (hsample : ∀ v ∈ sample, v.Proper) (harg : arg.Proper) :
    EndsWell (fun _ => True) (p.checkArgument name sample arg) := by
  obtain ⟨got, hgot⟩ := harg.exists_kind
  cases sample with
  | none => trivial
  | some v =>
    obtain ⟨expected, hexpected⟩ := (hsample v rfl).exists_kind
    simp only [Procedure.checkArgument, hgot, hexpected]
    change EndsWell _ (if got = expected then _ else _)
    split
    · trivial
    · exact .ofCause (by simp) (by simp)

theorem endsWell_checkResult {value : Value} (hresult : ∀ v ∈ p.result, v.Proper)
    (hvalue : value.Proper) : EndsWell (fun _ => True) (p.checkResult value) := by
  obtain ⟨got, hgot⟩ := hvalue.exists_kind
  unfold Procedure.checkResult
  split
  · rename_i v hv
    obtain ⟨expected, hexpected⟩ := (hresult v hv).exists_kind
    simp only [hgot, hexpected]
    change EndsWell _ (if got = expected then _ else _)
    split
    · trivial
    · exact .ofCause (by simp) (by simp)
  · trivial

theorem endsWell_receive {parameters : List (Tree × Option Value)} {args : List Value}
    (hnames : ∀ q ∈ parameters, ∃ s, q.1 = .str s)
    (hsamples : ∀ q ∈ parameters, ∀ v ∈ q.2, v.Proper) (hargs : ∀ v ∈ args, v.Proper)
    {frame : Frame Value} (hframe : frame.Proper) :
    EndsWell Frame.Proper (p.receive frame parameters args) := by
  induction parameters generalizing args frame with
  | nil =>
    rw [Procedure.receive.eq_def]
    exact hframe
  | cons q parameters ih =>
    cases args with
    | nil =>
      rw [Procedure.receive.eq_def]
      exact hframe
    | cons arg args =>
      obtain ⟨name, sample⟩ := q
      rw [List.forall_mem_cons] at hnames hsamples hargs
      obtain ⟨⟨s, rfl⟩, hnames⟩ := hnames
      rw [Procedure.receive]
      exact (endsWell_checkArgument hsamples.1 hargs.1).bind fun _ _ =>
        ih hnames hsamples.2 hargs.2 (hframe.declare hargs.1)

theorem endsWell_frame (hp : (Value.function p).Proper) {args : List Value}
    (hargs : ∀ v ∈ args, v.Proper) : EndsWell Frame.Proper (p.frame args) := by
  cases hp with
  | function hnames hsamples hresult hbody =>
    unfold Procedure.frame
    split
    · exact endsWell_receive hnames hsamples hargs .empty
    · exact .ofCause (by simp) (by simp)

theorem keeps_calling {p : Procedure Value} {args : List Value} {body : Frame Value → Eval Value}
    (hp : (Value.function p).Proper) (hargs : ∀ v ∈ args, v.Proper)
    (hbody : ∀ frame, frame.Proper → Keeps Value.Proper (body frame)) :
    Keeps Value.Proper (calling level p args body) := by
  have hcalled : Keeps (fun _ => True) (emit level (.called p.name args)) :=
    .emitValues (by simp) (by simpa [Event.values] using hargs) level
  refine (Keeps.lift (endsWell_frame hp hargs)).bind fun frame hframe =>
    hcalled.bind fun _ _ => (hbody frame hframe).bind fun v hv => ?_
  cases hp with
  | function hnames hsamples hresult _ =>
    exact (Keeps.lift (endsWell_checkResult hresult hv)).bind fun _ _ =>
      (Keeps.emitValues (by simp) (by simpa [Event.values] using hv) level).bind fun _ _ =>
        .pure hv

-- The calls inside a body have less room than the call itself.
theorem callsKeep_invoke (limit : Int) (room : Nat) : CallsKeep (invoke level limit room) := by
  induction room with
  | zero =>
    intro p args hp hargs
    rw [invoke_zero_eq]
    exact keeps_calling hp hargs fun _ _ => .fail (by simp) (by simp)
  | succ room ih =>
    intro p args hp hargs
    rw [invoke_succ_eq]
    refine keeps_calling hp hargs fun frame hframe => ?_
    cases hp with
    | function _ _ _ hbody => exact .inScope hframe (keeps_runBody ih hbody)

end Calls

-- The statements of a program, up to the one for which the stack has no room.
theorem keeps_execute [Machine] (depth : Int) {statements : List Node}
    (h : ∀ n ∈ statements, n.IsPart .any .statement) :
    Keeps Value.Proper (execute level depth (.list statements)) := by
  have hall : ∀ n ∈ statements.takeWhile (Settings.hasRoom depth),
      Keeps Value.Proper (eval level (invoke level depth depth.toNat) n) :=
    fun n hn => partKeeps_of_isPart (callsKeep_invoke depth _)
      (h n ((List.takeWhile_prefix _).subset hn))
  refine (keeps_evalSequence hall .null).bind fun v hv => ?_
  split
  · exact .pure hv
  · exact .fail (by simp) (by simp)

-- A program whose stack can be made.
theorem keeps_run [Machine] {settings : Settings} {depth : Int}
    (hdepth : settings.checkStack = .ok depth)
    {program : Node} (h : program.IsProgram .any) :
    Keeps Value.Proper (run settings program) := by
  cases h with
  | @program place statements hplace hstatements =>
    have hsize : (Node.program place (.list statements)).body?.map
        (fun body => (body, body.size?)) = some (.list statements, some statements.length) := rfl
    simp only [run, hsize, hdepth]
    refine (Keeps.emitValues (by simp) (by simp [Event.values]) _).bind fun _ _ =>
      Keeps.bind (P := (· = depth)) (.pure rfl) fun d hd => ?_
    subst hd
    refine (Keeps.reporting (keeps_execute d hstatements)).bind (P := Value.Proper) fun v hv => ?_
    simp only [finish, hv.hasText, if_true]
    exact (Keeps.emitValues (by simp) (by simpa [Event.values] using hv) _).bind fun _ _ =>
      .pure hv

end Eval

namespace Session

-- What a host does with a session.
inductive Step where
  | run (source : String)
  | define (name : String) (data : Host)

-- A step hands over nothing but proper values. As everywhere in the language, the integers in them
-- are words.
def Step.IsProper : Step → Prop
  | run _ => True
  | define _ data => ∃ v, data.toValue = .ok v ∧ v.Proper ∧ v.Fits

-- The session after a step; what a program fails with does not end it.
def step [Machine] (s : Session) : Step → Session
  | .run source => (s.runSource source).2
  | .define name data =>
    match s.define (.str name) data with
    | .ok t => t
    | .error _ => s

def steps [Machine] (s : Session) (list : List Step) : Session := list.foldl step s

-- Nothing but what every program starts with is bound at the start.
theorem each_start {P : Value → Prop} (h : ∀ b ∈ seeds, P b.2) (settings : Settings)
    (input : String) : (start settings input).state.scopes.Each P :=
  List.forall_mem_singleton.2 ⟨by simp [start], h⟩

theorem proper_start (settings : Settings) (input : String) :
    (start settings input).state.scopes.Proper :=
  Chain.proper_iff_each.2 (each_start (forall_seeds .null .bool .builtin) settings input)

variable {s : Session}

theorem runSource_of_parse [Machine] {source : String} {program : Node}
    (h : Node.parse source = .ok program) :
    s.runSource source = s.perform (Eval.run s.settings program) := by
  rw [runSource, h]
  rfl

@[simp]
theorem settings_perform {α : Type} (s : Session) (m : Eval α) :
    (s.perform m).2.settings = s.settings := by
  unfold perform
  split <;> rfl

theorem perform_of_keeps {α : Type} {P : α → Prop} {m : Eval α} (hm : Eval.Keeps P m)
    (hs : s.state.scopes.Proper) :
    EndsWell P (s.perform m).1 ∧ (s.perform m).2.state.scopes.Proper := by
  have hend := hm s.state hs
  unfold perform
  split
  · rename_i a t hrun
    rw [hrun] at hend
    exact hend
  · rename_i failure t hrun
    rw [hrun] at hend
    exact hend

-- Without a stack a program is not even started.
theorem perform_of_checkStack [Machine] {failure : Failure}
    (hstack : s.settings.checkStack = .error failure)
    {program : Node} (h : program.IsProgram .any) :
    (s.perform (Eval.run s.settings program)).1 = .error failure ∧
      (s.perform (Eval.run s.settings program)).2.state.scopes = s.state.scopes := by
  cases h with
  | @program place statements hplace hstatements =>
    obtain ⟨t, hemit, hscopes⟩ : ∃ t,
        Eval.emit s.settings.level (.started statements.length) s.state = .ok () t ∧
          t.scopes = s.state.scopes := by
      unfold Eval.emit
      split
      · exact ⟨_, rfl, rfl⟩
      · exact ⟨_, rfl, rfl⟩
    have hrun : Eval.run s.settings (.program place (.list statements)) s.state =
        .error failure t := by
      simp only [Eval.run, Node.body?, Option.map_some, Items.size?, Bind.bind, EStateM.bind, hemit,
        hstack]
      rfl
    rw [perform, hrun]
    exact ⟨rfl, hscopes⟩

theorem settings_step [Machine] (s : Session) (st : Step) : (s.step st).settings = s.settings := by
  cases st with
  | run source =>
    simp only [step, runSource]
    split
    · exact settings_perform s _
    · rfl
  | define name data =>
    simp only [step, define]
    cases data.toValue <;> rfl

theorem proper_step [Machine] (hs : s.state.scopes.Proper) {st : Step} (hst : st.IsProper) :
    (s.step st).state.scopes.Proper := by
  cases st with
  | run source =>
    rw [step]
    cases hparse : Node.parse source with
    | error failure =>
      rw [runSource, hparse]
      exact hs
    | ok program =>
      have hprogram := Node.isProgram_of_parse hparse
      rw [runSource_of_parse hparse]
      cases hstack : s.settings.checkStack with
      | ok depth => exact (perform_of_keeps (Eval.keeps_run hstack hprogram) hs).2
      | error failure =>
        rw [(perform_of_checkStack hstack hprogram).2]
        exact hs
  | define name data =>
    obtain ⟨v, hdata, hv, -⟩ := hst
    rw [step, define, hdata]
    exact hs.declare hv

-- After any steps all names are bound to proper values.
theorem proper_steps [Machine] (hs : s.state.scopes.Proper) {list : List Step}
    (h : ∀ st ∈ list, st.IsProper) :
    (s.steps list).state.scopes.Proper ∧ (s.steps list).settings = s.settings := by
  induction list generalizing s with
  | nil => exact ⟨hs, rfl⟩
  | cons st list ih =>
    rw [List.forall_mem_cons] at h
    obtain ⟨hproper, hsettings⟩ := ih (proper_step hs h.1) h.2
    exact ⟨hproper, hsettings.trans (settings_step s st)⟩

end Session

-- The only fault that a program can have.
theorem Failure.eq_unreadableNumber {f : Fault} (h : (Failure.fault f).IsExpected) :
    f = .unreadableNumber := by
  obtain ⟨s, -, hconvert⟩ := h
  have htext : (Value.str s).convert (.str "integer") = Value.textToInteger s := rfl
  rw [htext, Value.textToInteger] at hconvert
  split at hconvert
  · split at hconvert
    · exact absurd hconvert (by simp)
    · exact absurd hconvert (by simp [Value.refuseText, Failure.ofCause])
  · simpa [eq_comm] using hconvert
  · exact absurd hconvert (by simp [Value.refuseText, Failure.ofCause])

namespace Settings

-- The depths for which there is a stack.
def HasStack (depth : Int) : Prop := 1 ≤ frames depth ∧ frames depth < 0x80000000

theorem checkStack_of_hasStack (level : Int) {depth : Int} (h : HasStack depth) :
    checkStack ⟨level, some depth⟩ = .ok depth := by
  obtain ⟨hlow, hhigh⟩ := h
  simp only [checkStack]
  rw [if_neg (by omega), if_neg (by omega)]

theorem checkStack_of_not_hasStack (level : Int) {depth : Int} (h : ¬HasStack depth) :
    ∃ f, (f = .noStack ∨ f = .boundlessStack) ∧
      checkStack ⟨level, some depth⟩ = .error (.fault f) := by
  simp only [checkStack]
  by_cases hrange : frames depth < -0x80000000 ∨ 0x80000000 ≤ frames depth
  · exact ⟨_, .inr rfl, by rw [if_pos hrange]⟩
  · refine ⟨_, .inl rfl, ?_⟩
    rw [if_neg hrange, if_pos]
    unfold HasStack at h
    omega

end Settings

namespace Session

-- In a session of programs and definitions all names stay bound to proper values, also while a
-- statement is evaluated, in whatever scopes it stands. A program that parses ends in a proper
-- value or fails as a program can, if there is a stack for it; if there is none, that is how it
-- fails.
theorem runSource_of_steps [Machine] (level depth : Int) (input : String) {list : List Step}
    (hlist : ∀ st ∈ list, st.IsProper) :
    ((start ⟨level, some depth⟩ input).steps list).state.scopes.Proper ∧
      (∀ room n, n.IsPart .any .statement →
        Eval.Keeps Value.Proper (Eval.eval level (Eval.invoke level depth room) n)) ∧
      ∀ source program, Node.parse source = .ok program →
        (Settings.HasStack depth → EndsWell Value.Proper
          (((start ⟨level, some depth⟩ input).steps list).runSource source).1) ∧
        (¬Settings.HasStack depth → ∃ f, (f = .noStack ∨ f = .boundlessStack) ∧
          (((start ⟨level, some depth⟩ input).steps list).runSource source).1 =
            .error (.fault f)) := by
  obtain ⟨hproper, hsettings⟩ := proper_steps (proper_start ⟨level, some depth⟩ input) hlist
  refine ⟨hproper, fun room n hn => Eval.partKeeps_of_isPart (Eval.callsKeep_invoke depth room) hn,
    fun source program hparse => ?_⟩
  have hprogram := Node.isProgram_of_parse hparse
  rw [runSource_of_parse hparse]
  constructor
  · intro hstack
    have hdepth :
        ((start ⟨level, some depth⟩ input).steps list).settings.checkStack = .ok depth := by
      rw [hsettings]
      exact Settings.checkStack_of_hasStack level hstack
    exact (perform_of_keeps (Eval.keeps_run hdepth hprogram) hproper).1
  · intro hstack
    obtain ⟨f, hf, hfault⟩ := Settings.checkStack_of_not_hasStack level hstack
    refine ⟨f, hf, (perform_of_checkStack ?_ hprogram).1⟩
    rw [hsettings]
    exact hfault

section

attribute [local instance] Machine.usual

theorem runSource_of_steps_number :
    (∀ st ∈ [Step.define "limit" (.int 9), .run "1"], st.IsProper) ∧
      EndsWell Value.Proper
        (((start ⟨0, some 20⟩ "").steps [.define "limit" (.int 9), .run "1"]).runSource "1").1 := by
  have hsteps : ∀ st ∈ [Step.define "limit" (.int 9), .run "1"], st.IsProper := by
    have hfits : Word.Fits 9 := by decide
    simp only [List.mem_cons, List.not_mem_nil, or_false, forall_eq_or_imp, forall_eq]
    exact ⟨⟨.int 9, rfl, .int 9, .int hfits⟩, trivial⟩
  exact ⟨hsteps, ((runSource_of_steps 0 20 "" hsteps).2.2 "1" _ rfl).1 ⟨by decide, by decide⟩⟩

-- Not every depth has a stack: the program `1` has no value at the depth -100.
theorem not_endsWell_runSource : ¬∀ (level depth : Int) (input : String) (list : List Step),
    (∀ st ∈ list, st.IsProper) → ∀ source program, Node.parse source = .ok program →
      EndsWell Value.Proper
        (((start ⟨level, some depth⟩ input).steps list).runSource source).1 := by
  intro h
  have hparse : Node.parse "1" =
      .ok (.program .start (.list [.literal .start (.int 1) (.str "Integer")])) := rfl
  have hstack : Settings.checkStack ⟨0, some (-100)⟩ = .error (.fault .noStack) := by decide
  have hends := h 0 (-100) "" [] (by simp) "1" _ hparse
  rw [runSource_of_parse hparse,
    (perform_of_checkStack hstack (Node.isProgram_of_parse hparse)).1] at hends
  exact absurd (Failure.eq_unreadableNumber hends) (by simp)

end

end Session

end TernLang
