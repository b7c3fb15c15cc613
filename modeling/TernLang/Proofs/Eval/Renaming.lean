import Mathlib.Logic.Equiv.Basic
import TernLang.Proofs.Eval.Renamed
import TernLang.Proofs.Eval.Scoping

-- Programs under other names. A program in which the variables have other names does what the
-- program itself does, if different variables stay different, constants stay constants, and the
-- names that every program starts with and those of its functions stay.

namespace TernLang

namespace Eval

variable {ρ : Renaming} {level : Int} {call : Caller}

section Binding

theorem renames_bindName (way : Binding) (name : Tree) {v : Value} (hv : v.Kept ρ) :
    RenamesSteps ρ (bindName level way name v)
      (bindName level way (Name.rename ρ name) (v.rename ρ)) := by
  cases way with
  | declare => exact (renames_declare name hv).bind fun _ _ => renames_emit level (.declared ..)
  | assign => exact (renames_assign name hv).bind fun _ _ => renames_emit level (.assigned ..)

theorem map_given_renameAll (items : List Value) :
    (Value.renameAll ρ items).map Value.given =
      (items.map Value.given).map (Value.renameSome ρ) := by
  induction items with
  | nil => rfl
  | cons v items ih =>
    rw [Value.renameAll, List.map_cons, List.map_cons, List.map_cons, ih, Value.given_rename,
      Value.renameSome_eq_map]

mutual

theorem renames_bind (way : Binding) (target : Node) (value : Option Value)
    (hvalue : ∀ v ∈ value, v.Kept ρ) :
    RenamesSteps ρ (bind level way target value)
      (bind level way (target.rename ρ) (Value.renameSome ρ value)) := by
  cases target with
  | ident place name =>
    rw [bind, Node.rename, bind]
    cases value with
    | none => exact renames_bindName way name .null
    | some v => exact renames_bindName way name (hvalue v rfl)
  | tuple place elements =>
    cases value with
    | none =>
      rw [bind, Node.rename, Value.renameSome, bind, Node.size?_renameItems]
      have hparts := renames_bindItems way elements _
        (Value.forall_mem_replicate_none (k := elements.size?.getD 0))
      rwa [List.map_replicate] at hparts
    | some v =>
      have hv := hvalue v rfl
      have hrefused : RenamesSteps ρ
          (lift v.kind >>= fun kind => located place (fail (.notDestructurable kind)))
          (lift (v.rename ρ).kind >>= fun kind =>
            located place (fail (.notDestructurable kind))) := by
        rw [Value.kind_rename]
        exact (Renames.lift (.refl _)).bind fun kind _ => (Renames.fail _).located place
      cases hv with
      | @tuple items hitems =>
        rw [bind, Node.rename, Value.renameSome, Value.rename, bind, Node.size?_renameItems,
          Value.length_renameAll]
        cases elements.size? with
        | none => exact .throw (.fault _)
        | some names =>
          simp only
          by_cases hsize : items.length = names
          · rw [if_pos hsize, if_pos hsize, map_given_renameAll]
            exact renames_bindItems way elements _ (Value.forall_mem_map_given hitems)
          · rw [if_neg hsize, if_neg hsize]
            exact (Renames.fail _).located place
      | _ => exact hrefused
  | stray t => exact .throw (.fault _)
  | member place a b =>
    rw [Node.rename_member]
    exact (Renames.fail _).located place
  | convert place a b =>
    rw [Node.rename_convert]
    exact (Renames.fail _).located place
  | _ => exact (Renames.fail _).located _

theorem renames_bindItems (way : Binding) (targets : Items Node) (values : List (Option Value))
    (hvalues : ∀ w ∈ values, ∀ v ∈ w, v.Kept ρ) :
    RenamesSteps ρ (bindItems level way targets values)
      (bindItems level way (Node.renameItems ρ targets) (values.map (Value.renameSome ρ))) := by
  cases targets with
  | list targets =>
    rw [bindItems, Node.renameItems, bindItems]
    exact renames_bindAll way targets values hvalues
  | other t =>
    rw [bindItems, Node.renameItems, bindItems]
    exact renames_noItems _ t

theorem renames_bindAll (way : Binding) (targets : List Node) (values : List (Option Value))
    (hvalues : ∀ w ∈ values, ∀ v ∈ w, v.Kept ρ) :
    RenamesSteps ρ (bindAll level way targets values)
      (bindAll level way (Node.renameAll ρ targets) (values.map (Value.renameSome ρ))) := by
  cases targets with
  | nil =>
    rw [Node.renameAll, bindAll.eq_def, bindAll.eq_def]
    exact .pure trivial
  | cons target targets =>
    cases values with
    | nil =>
      rw [bindAll.eq_def, bindAll.eq_def]
      exact .pure trivial
    | cons value values =>
      rw [List.forall_mem_cons] at hvalues
      rw [bindAll, Node.renameAll, List.map_cons, bindAll]
      exact (renames_bind way target value hvalues.1).bind fun _ _ =>
        renames_bindAll way targets values hvalues.2

end

end Binding

-- A caller calls a function under other names as it calls the function itself.
def CallsRename (ρ : Renaming) (call : Caller) : Prop :=
  ∀ p args, (Value.function p).Kept ρ → (∀ v ∈ args, v.Kept ρ) →
    RenamesValue ρ (call p args) (call (p.rename ρ) (Value.renameAll ρ args))

section Nodes

theorem renames_apply (hcall : CallsRename ρ call) {callee : Value} (hcallee : callee.Kept ρ)
    {args : List Value} (hargs : ∀ v ∈ args, v.Kept ρ) :
    RenamesValue ρ (apply level call callee args)
      (apply level call (callee.rename ρ) (Value.renameAll ρ args)) := by
  cases hcallee with
  | builtin b =>
    exact (renames_emit level (.calledBuiltin b)).bind fun _ _ => renames_builtinCall b hargs
  | @method m receiver bound hreceiver hbound =>
    refine (renames_emit level (.calledMethod m)).bind fun _ _ => ?_
    have happended : Value.renameAll ρ bound ++ Value.renameAll ρ args =
        Value.renameAll ρ (bound ++ args) := by
      simp only [Value.renameAll_eq_map, List.map_append]
    rw [happended, Value.call_rename]
    exact .lift (.of_grants (Value.grants_call (fun _ _ => trivial) _))
  | @function p hsamples hresult hbody =>
    exact hcall p args (.function hsamples hresult hbody) hargs
  | _ => exact .pure .null

-- Evaluation of a node under other names.
def EvalRenames (ρ : Renaming) (level : Int) (call : Caller) (node : Node) : Prop :=
  RenamesValue ρ (eval level call node) (eval level call (node.rename ρ))

-- What the induction on a tree says of a node. A parameter or an arm is never evaluated itself, and
-- this is said of its parts.
def PartsRename (ρ : Renaming) (level : Int) (call : Caller) : Node → Prop
  | .parameter _ _ type => ∀ n ∈ type, EvalRenames ρ level call n
  | .arm _ label body => EvalRenames ρ level call label ∧ EvalRenames ρ level call body
  | n => EvalRenames ρ level call n

theorem evalRenames_of_visit {node : Node} {m n : Eval Value}
    (hplain : eval level call node = visit level node m)
    (hrenamed : eval level call (node.rename ρ) = visit level (node.rename ρ) n)
    (h : RenamesValue ρ m n) : EvalRenames ρ level call node := by
  unfold EvalRenames
  rw [hplain, hrenamed]
  exact renames_visit level node h

theorem evalRenames_of_partsRename {node : Node} (h : PartsRename ρ level call node) :
    EvalRenames ρ level call node := by
  cases node with
  | parameter | arm =>
    exact evalRenames_of_visit (eval.eq_def ..) (eval.eq_def ..) (.throw (.fault _))
  | _ => exact h

theorem renames_evalAll {nodes : List Node} (h : ∀ n ∈ nodes, EvalRenames ρ level call n) :
    Renames ρ (fun vs => ∀ v ∈ vs, v.Kept ρ) (Value.renameAll ρ) (evalAll level call nodes)
      (evalAll level call (Node.renameAll ρ nodes)) := by
  induction nodes with
  | nil =>
    rw [Node.renameAll, evalAll]
    exact .pure (by simp)
  | cons n nodes ih =>
    rw [List.forall_mem_cons] at h
    rw [Node.renameAll, evalAll, evalAll]
    refine Renames.bind h.1 fun v hv => (ih h.2).bind fun vs hvs => ?_
    exact .pure (List.forall_mem_cons.2 ⟨hv, hvs⟩)

theorem renames_evalSequence {nodes : List Node} (h : ∀ n ∈ nodes, EvalRenames ρ level call n)
    {last : Value} (hlast : last.Kept ρ) :
    RenamesValue ρ (evalSequence level call last nodes)
      (evalSequence level call (last.rename ρ) (Node.renameAll ρ nodes)) := by
  induction nodes generalizing last with
  | nil =>
    rw [Node.renameAll, evalSequence, evalSequence]
    exact .pure hlast
  | cons n nodes ih =>
    rw [List.forall_mem_cons] at h
    rw [Node.renameAll, evalSequence, evalSequence]
    exact Renames.bind h.1 fun v hv => ih h.2 hv

theorem renames_evalSome {node : Option Node} (h : ∀ n ∈ node, EvalRenames ρ level call n) :
    Renames ρ (fun o => ∀ v ∈ o, v.Kept ρ) (Value.renameSome ρ) (evalSome level call node)
      (evalSome level call (Node.renameSome ρ node)) := by
  cases node with
  | none =>
    rw [Node.renameSome, evalSome]
    exact .pure (by simp)
  | some n =>
    rw [Node.renameSome, evalSome, evalSome]
    exact Renames.bind (h n rfl) fun v hv => .pure (by simpa using hv)

theorem renames_evalParameters {nodes : List Node} (h : ∀ n ∈ nodes, PartsRename ρ level call n) :
    Renames ρ (fun ps => ∀ q ∈ ps, ∀ v ∈ q.2, v.Kept ρ) (Value.renameParameters ρ)
      (evalParameters level call nodes)
      (evalParameters level call (Node.renameAll ρ nodes)) := by
  induction nodes with
  | nil =>
    rw [Node.renameAll, evalParameters]
    exact .pure (by simp)
  | cons n nodes ih =>
    rw [List.forall_mem_cons] at h
    rw [Node.renameAll]
    cases n with
    | parameter place name type =>
      rw [Node.rename, evalParameters, evalParameters]
      refine (renames_evalSome h.1).bind fun sample hsample => (ih h.2).bind fun ps hps => ?_
      rw [Value.bind_given_renameSome]
      exact .pure (List.forall_mem_cons.2 ⟨Value.forall_mem_bind_given hsample, hps⟩)
    | member | convert =>
      simp only [Node.rename_member, Node.rename_convert]
      rw [evalParameters.eq_def, evalParameters.eq_def]
      exact .throw (.fault _)
    | _ =>
      rw [evalParameters.eq_def, evalParameters.eq_def]
      exact .throw (.fault _)

theorem renames_evalArms {nodes : List Node} (h : ∀ n ∈ nodes, PartsRename ρ level call n)
    (value : Value) (position : Nat) :
    RenamesValue ρ (evalArms level call value position nodes)
      (evalArms level call (value.rename ρ) position (Node.renameAll ρ nodes)) := by
  induction nodes generalizing position with
  | nil =>
    rw [Node.renameAll, evalArms, evalArms]
    exact .pure .null
  | cons n nodes ih =>
    rw [List.forall_mem_cons] at h
    rw [Node.renameAll]
    cases n with
    | arm place label body =>
      rw [Node.rename, evalArms, evalArms]
      refine Renames.bind h.1.1 fun v _ => ?_
      rw [Value.isLabelOf_rename]
      refine (Renames.lift (.refl _)).bind fun hit _ => ?_
      cases hit with
      | true => exact (renames_emit level (.matched value position)).bind fun _ _ => h.1.2
      | false => exact ih h.2 (position + 1)
    | member | convert =>
      simp only [Node.rename_member, Node.rename_convert]
      rw [evalArms.eq_def, evalArms.eq_def]
      exact .throw (.fault _)
    | _ =>
      rw [evalArms.eq_def, evalArms.eq_def]
      exact .throw (.fault _)

theorem renames_evalItems {items : Items Node}
    (h : ∀ nodes, items = .list nodes → ∀ n ∈ nodes, EvalRenames ρ level call n) :
    Renames ρ (fun vs => ∀ v ∈ vs, v.Kept ρ) (Value.renameAll ρ) (evalItems level call items)
      (evalItems level call (Node.renameItems ρ items)) := by
  cases items with
  | list nodes =>
    rw [Node.renameItems, evalItems, evalItems]
    exact renames_evalAll (h nodes rfl)
  | other t =>
    rw [Node.renameItems, evalItems]
    exact (renames_noItems _ t).bind fun _ _ => .pure (by simp)

theorem renames_evalBody {items : Items Node}
    (h : ∀ nodes, items = .list nodes → ∀ n ∈ nodes, EvalRenames ρ level call n) :
    RenamesValue ρ (evalBody level call items)
      (evalBody level call (Node.renameItems ρ items)) := by
  cases items with
  | list nodes =>
    rw [Node.renameItems, evalBody, evalBody]
    exact renames_evalSequence (h nodes rfl) .null
  | other t =>
    rw [Node.renameItems, evalBody]
    exact (renames_noItems _ t).bind fun _ _ => .pure .null

theorem renames_evalParameterItems {items : Items Node}
    (h : ∀ nodes, items = .list nodes → ∀ n ∈ nodes, PartsRename ρ level call n) :
    Renames ρ (fun ps => ∀ q ∈ ps, ∀ v ∈ q.2, v.Kept ρ) (Value.renameParameters ρ)
      (evalParameterItems level call items)
      (evalParameterItems level call (Node.renameItems ρ items)) := by
  cases items with
  | list nodes =>
    rw [Node.renameItems, evalParameterItems, evalParameterItems]
    exact renames_evalParameters (h nodes rfl)
  | other t =>
    rw [Node.renameItems, evalParameterItems]
    exact (renames_noItems _ t).bind fun _ _ => .pure (by simp)

theorem renames_evalArmItems {items : Items Node}
    (h : ∀ nodes, items = .list nodes → ∀ n ∈ nodes, PartsRename ρ level call n)
    (value : Value) :
    RenamesValue ρ (evalArmItems level call value items)
      (evalArmItems level call (value.rename ρ) (Node.renameItems ρ items)) := by
  cases items with
  | list nodes =>
    rw [Node.renameItems, evalArmItems, evalArmItems]
    exact renames_evalArms (h nodes rfl) value 0
  | other t =>
    rw [Node.renameItems, evalArmItems, evalArmItems]
    exact (renames_noItems _ t).bind fun _ _ => .pure .null

theorem renames_function (name : Tree) {parameters : Items Node} {result : Option Node}
    {body : Node} (hname : Name.rename ρ name = name)
    (hbody : body.Everywhere (Node.KeepsName ρ))
    (hparameters : Renames ρ (fun ps => ∀ q ∈ ps, ∀ v ∈ q.2, v.Kept ρ) (Value.renameParameters ρ)
      (evalParameterItems level call parameters)
      (evalParameterItems level call (Node.renameItems ρ parameters)))
    (hresult : Renames ρ (fun o => ∀ v ∈ o, v.Kept ρ) (Value.renameSome ρ)
      (evalSome level call result) (evalSome level call (Node.renameSome ρ result))) :
    RenamesValue ρ
      (do
        let samples ← evalParameterItems level call parameters
        let sample ← evalSome level call result
        let value := Value.function ⟨name.shown, samples, sample.bind Value.given, body⟩
        declare name value
        emit level (.defined name.shown (samples.map (·.1)))
        pure value)
      (do
        let samples ← evalParameterItems level call (Node.renameItems ρ parameters)
        let sample ← evalSome level call (Node.renameSome ρ result)
        let value := Value.function ⟨name.shown, samples, sample.bind Value.given, body.rename ρ⟩
        declare name value
        emit level (.defined name.shown (samples.map (·.1)))
        pure value) := by
  refine hparameters.bind fun samples hsamples => hresult.bind fun sample hsample => ?_
  have hvalue : (Value.function ⟨name.shown, samples, sample.bind Value.given, body⟩).Kept ρ :=
    .function hsamples (Value.forall_mem_bind_given hsample) hbody
  have hdeclare := renames_declare name hvalue
  rw [hname, Value.rename_function] at hdeclare
  have hnames : (Value.renameParameters ρ samples).map (·.1) =
      (samples.map (·.1)).map (Name.rename ρ) := by
    rw [Value.renameParameters_eq_map, List.map_map, List.map_map]
    rfl
  simp only [Value.bind_given_renameSome, hnames]
  refine hdeclare.bind fun _ _ => (renames_emit level (.defined _ _)).bind fun _ _ => ?_
  exact .pure hvalue

theorem renames_branch (v : Value) {thenBlock : Node} {elseBlock : Option Node}
    (hthen : EvalRenames ρ level call thenBlock)
    (helse : ∀ n ∈ elseBlock, EvalRenames ρ level call n) :
    RenamesValue ρ
      (match v with
        | .bool true => eval level call thenBlock
        | .bool false => do return (← evalSome level call elseBlock).getD .null
        | _ => pure .null)
      (match v.rename ρ with
        | .bool true => eval level call (thenBlock.rename ρ)
        | .bool false => do return (← evalSome level call (Node.renameSome ρ elseBlock)).getD .null
        | _ => pure .null) := by
  cases v with
  | bool b =>
    cases b with
    | true => exact hthen
    | false =>
      refine (renames_evalSome helse).bind fun o ho => ?_
      cases o with
      | none => exact .pure .null
      | some v => exact .pure (ho v rfl)
  | _ => exact .pure .null

theorem kept_literal (value type : Tree) :
    (if type = .str "Null" then .null else Value.ofTree value : Value).Kept ρ := by
  split
  · exact .null
  · exact Value.guarded_ofTree fun _ _ => trivial

theorem rename_literal (value type : Tree) :
    Value.rename ρ (if type = .str "Null" then .null else .ofTree value) =
      if type = .str "Null" then .null else .ofTree value := by
  split
  · rfl
  · cases value <;> rfl

-- What stands after a dot, or for the type of a conversion, counts if it is a name.
theorem renames_ofName {node : Node} {k l : Tree → Eval Value}
    (h : ∀ name, RenamesValue ρ (k name) (l name)) :
    RenamesValue ρ
      (match node with
        | .ident _ name => k name
        | _ => pure .null)
      (match node.renameUnlessName ρ with
        | .ident _ name => l name
        | _ => pure .null) := by
  rcases Node.renameUnlessName_eq ρ node with ⟨place, name, rfl⟩ | ⟨hother, hrename⟩
  · exact h name
  · have hrenamed (place : Place) (name : Tree) : node.rename ρ ≠ .ident place name := by
      intro heq
      refine hother place name ?_
      rw [← Node.ctorIdx_rename ρ, heq]
    rw [hrename]
    -- by `hrenamed` the second match is at its last case, whatever the first one is at
    split
    · exact absurd rfl (hother _ _)
    · exact .pure .null

-- A node is evaluated under other names as it is itself, if those right below it are.
theorem partsRename_of_children (hcall : CallsRename ρ call) {node : Node}
    (hnode : node.Everywhere (Node.KeepsName ρ))
    (h : ∀ n ∈ node.children, PartsRename ρ level call n) : PartsRename ρ level call node := by
  have hparts : ∀ n ∈ node.children, EvalRenames ρ level call n :=
    fun n hn => evalRenames_of_partsRename (h n hn)
  cases node with
  | literal place value type =>
    refine evalRenames_of_visit (eval.eq_def ..) (eval.eq_def ..) ?_
    have hpure : RenamesValue ρ _ _ := Renames.pure (kept_literal value type)
    rwa [rename_literal] at hpure
  | ident place name =>
    exact evalRenames_of_visit (eval.eq_def ..) (eval.eq_def ..) (renames_lookup name)
  | array place elements =>
    refine evalRenames_of_visit (eval.eq_def ..) (eval.eq_def ..)
      (.bind (renames_evalItems ?_) fun _ hvs => .pure (.array hvs))
    rintro nodes rfl
    exact hparts
  | tuple place elements =>
    refine evalRenames_of_visit (eval.eq_def ..) (eval.eq_def ..)
      (.bind (renames_evalItems ?_) fun _ hvs => .pure (.tuple hvs))
    rintro nodes rfl
    exact hparts
  | compare place op left right =>
    simp only [Node.children, List.forall_mem_cons] at hparts
    refine evalRenames_of_visit (eval.eq_def ..) (eval.eq_def ..)
      (Renames.bind hparts.1 fun a _ => Renames.bind hparts.2.1 fun b _ => ?_)
    rw [Value.compare_rename]
    exact .lift (.of_grants (Value.grants_compare op a b))
  | binary place op left right =>
    simp only [Node.children, List.forall_mem_cons] at hparts
    refine evalRenames_of_visit (eval.eq_def ..) (eval.eq_def ..)
      (Renames.bind hparts.1 fun a ha => Renames.bind hparts.2.1 fun b hb => ?_)
    rw [Value.binary_rename]
    exact renames_result (Value.grants_binary op ha hb)
  | unary place op operand =>
    simp only [Node.children, List.forall_mem_cons] at hparts
    refine evalRenames_of_visit (eval.eq_def ..) (eval.eq_def ..)
      (Renames.bind hparts.1 fun v hv => ?_)
    rw [Value.unary_rename]
    exact renames_result (Value.grants_unary op hv)
  | call place function args =>
    have hfunction : EvalRenames ρ level call function :=
      hparts function (by cases args <;> exact List.mem_cons_self)
    refine evalRenames_of_visit (eval.eq_def ..) (eval.eq_def ..)
      (Renames.bind hfunction fun callee hcallee => (renames_evalItems ?_).bind
        fun values hvalues => renames_apply hcall hcallee hvalues)
    rintro nodes rfl n hn
    exact hparts n (List.mem_cons_of_mem _ hn)
  | member place target property =>
    simp only [Node.children, List.forall_mem_cons] at hparts
    refine evalRenames_of_visit (eval.eq_def ..) (by rw [Node.rename_member]; exact eval.eq_def ..)
      (Renames.bind hparts.1 fun v hv => renames_ofName fun name => ?_)
    rw [Value.property_rename]
    exact .lift (.of_grants (Value.grants_property name hv))
  | index place target index =>
    simp only [Node.children, List.forall_mem_cons] at hparts
    refine evalRenames_of_visit (eval.eq_def ..) (eval.eq_def ..)
      (Renames.bind hparts.1 fun v hv => Renames.bind hparts.2.1 fun i _ => ?_)
    rw [Value.index_rename]
    exact .lift (.of_grants (Value.grants_index hv i))
  | convert place value type =>
    simp only [Node.children, List.forall_mem_cons] at hparts
    refine evalRenames_of_visit (eval.eq_def ..) (by rw [Node.rename_convert]; exact eval.eq_def ..)
      (Renames.bind hparts.1 fun v hv => renames_ofName fun name => ?_)
    rw [Value.convert_rename]
    exact renames_result (Value.grants_convert name hv)
  | assign place target value =>
    simp only [Node.children, List.forall_mem_cons] at hparts
    refine evalRenames_of_visit (eval.eq_def ..) (eval.eq_def ..)
      (Renames.bind hparts.2.1 fun v hv => ?_)
    rw [Value.given_rename, ← Value.renameSome_eq_map]
    exact (renames_bind .assign target _ (Value.forall_mem_given hv)).bind fun _ _ => .pure .null
  | declare place target value =>
    refine evalRenames_of_visit (eval.eq_def ..) (eval.eq_def ..)
      ((renames_evalSome fun n hn => ?_).bind fun o ho => ?_)
    · exact hparts n (List.mem_cons_of_mem _ (Option.mem_toList.2 hn))
    · rw [Value.bind_given_renameSome]
      exact (renames_bind .declare target _ (Value.forall_mem_bind_given ho)).bind fun _ _ =>
        .pure .null
  | function place name parameters result body =>
    refine evalRenames_of_visit (eval.eq_def ..) (eval.eq_def ..)
      (renames_function name (Node.rename_eq_of_keepsName hnode.root) ?_
        (renames_evalParameterItems ?_) (renames_evalSome fun n hn => hparts n ?_))
    · exact hnode.below body (by cases parameters <;> simp [Node.children])
    · rintro nodes rfl n hn
      exact h n (by simp [Node.children, hn])
    · cases parameters <;> simp [Node.children, Option.mem_def.1 hn]
  | conditional place condition thenBlock elseBlock =>
    simp only [Node.children, List.cons_append, List.nil_append, List.forall_mem_cons,
      Option.mem_toList] at hparts
    obtain ⟨hcondition, hthen, helse⟩ := hparts
    exact evalRenames_of_visit (eval.eq_def ..) (eval.eq_def ..)
      (Renames.bind hcondition fun v _ => (renames_emit level (.tested v)).bind fun _ _ =>
        renames_branch v hthen helse)
  | cases place scrutinee arms =>
    have hscrutinee : EvalRenames ρ level call scrutinee :=
      hparts scrutinee (by cases arms <;> exact List.mem_cons_self)
    refine evalRenames_of_visit (eval.eq_def ..) (eval.eq_def ..)
      (Renames.bind hscrutinee fun v _ => renames_evalArmItems ?_ v)
    rintro nodes rfl n hn
    exact h n (List.mem_cons_of_mem _ hn)
  | block place statements =>
    refine evalRenames_of_visit (eval.eq_def ..) (eval.eq_def ..)
      (Renames.inScope .empty (renames_evalBody ?_))
    rintro nodes rfl
    exact hparts
  | program place body =>
    refine evalRenames_of_visit (eval.eq_def ..) (eval.eq_def ..) (renames_evalBody ?_)
    rintro nodes rfl
    exact hparts
  | parameter place name type => exact fun n hn => hparts n (by simpa [Node.children] using hn)
  | arm place label body =>
    simp only [Node.children, List.forall_mem_cons] at hparts
    exact ⟨hparts.1, hparts.2.1⟩
  | stray t => exact evalRenames_of_visit (eval.eq_def ..) (eval.eq_def ..) (.throw (.fault _))

theorem partsRename (level : Int) (hcall : CallsRename ρ call) (node : Node)
    (hnode : node.Everywhere (Node.KeepsName ρ)) : PartsRename ρ level call node :=
  partsRename_of_children hcall hnode fun n hn => partsRename level hcall n (hnode.below n hn)
termination_by node.nesting
decreasing_by exact Node.nesting_lt_of_mem_children ‹_›

-- Evaluation of a node under other names.
theorem renames_eval (level : Int) (hcall : CallsRename ρ call) {node : Node}
    (hnode : node.Everywhere (Node.KeepsName ρ)) : EvalRenames ρ level call node :=
  evalRenames_of_partsRename (partsRename level hcall node hnode)

end Nodes

section Calls

variable (p : Procedure Value)

theorem renamed_checkArgument (name name' : Tree) (sample : Option Value) (arg : Value) :
    Outcome.Renamed (fun _ => True) id (p.checkArgument name sample arg)
      ((p.rename ρ).checkArgument name' (Value.renameSome ρ sample) (arg.rename ρ)) := by
  cases sample with
  | none => exact .ok trivial
  | some v =>
    simp only [Procedure.checkArgument, Value.renameSome, Value.kind_rename]
    refine Outcome.Renamed.bind (.refl _) fun got _ => Outcome.Renamed.bind (.refl _)
      fun expected _ => ?_
    simp only [id]
    by_cases hkind : got = expected
    · rw [if_pos hkind, if_pos hkind]
      exact .ok trivial
    · rw [if_neg hkind, if_neg hkind]
      exact .error (.ofCause rfl)

theorem renamed_checkResult (v : Value) :
    Outcome.Renamed (fun _ => True) id (p.checkResult v)
      ((p.rename ρ).checkResult (v.rename ρ)) := by
  unfold Procedure.checkResult Procedure.rename
  cases p.result with
  | none => exact .ok trivial
  | some w =>
    simp only [Value.renameSome, Value.kind_rename]
    exact .refl _

theorem renamed_receive {frame : Frame Value} (hframe : frame.Each (Value.Kept ρ))
    (parameters : List (Tree × Option Value)) {args : List Value} (hargs : ∀ v ∈ args, v.Kept ρ) :
    Outcome.Renamed (Frame.Each (Value.Kept ρ)) (Frame.rename ρ (Value.rename ρ))
      (p.receive frame parameters args)
      ((p.rename ρ).receive (frame.rename ρ (Value.rename ρ)) (Value.renameParameters ρ parameters)
        (Value.renameAll ρ args)) := by
  induction parameters generalizing frame args with
  | nil =>
    rw [Value.renameParameters, Procedure.receive.eq_def, Procedure.receive.eq_def]
    exact .ok hframe
  | cons parameter parameters ih =>
    obtain ⟨name, sample⟩ := parameter
    cases args with
    | nil =>
      rw [Value.renameAll, Procedure.receive.eq_def, Procedure.receive.eq_def]
      exact .ok hframe
    | cons arg args =>
      rw [List.forall_mem_cons] at hargs
      rw [Value.renameParameters, Value.renameAll, Procedure.receive, Procedure.receive,
        Name.bindable_rename]
      refine (renamed_checkArgument p name _ sample arg).bind fun _ _ =>
        (Outcome.Renamed.of_grants (.any _)).bind fun bound _ => ?_
      rw [← Frame.rename_declare]
      exact ih (hframe.declare hargs.1) hargs.2

theorem renamed_frame {args : List Value} (hargs : ∀ v ∈ args, v.Kept ρ) :
    Outcome.Renamed (Frame.Each (Value.Kept ρ)) (Frame.rename ρ (Value.rename ρ)) (p.frame args)
      ((p.rename ρ).frame (Value.renameAll ρ args)) := by
  have hreceive := renamed_receive p .empty p.parameters hargs
  unfold Procedure.frame
  rw [Value.length_renameAll, show (p.rename ρ).parameters = Value.renameParameters ρ p.parameters
    from rfl, Value.length_renameParameters]
  by_cases hcount : args.length = p.parameters.length
  · rw [if_pos hcount, if_pos hcount]
    exact hreceive
  · rw [if_neg hcount, if_neg hcount]
    exact .error (.ofCause rfl)

theorem renames_runBody (hcall : CallsRename ρ call) {body : Node}
    (hbody : body.Everywhere (Node.KeepsName ρ)) :
    RenamesValue ρ (runBody level call body) (runBody level call (body.rename ρ)) := by
  cases body with
  | block place statements =>
    rw [Node.rename, runBody, runBody]
    refine renames_evalBody ?_
    rintro nodes rfl n hn
    exact renames_eval level hcall (hbody.below n hn)
  | member place a b =>
    rw [Node.rename_member]
    exact .throw (.fault _)
  | convert place a b =>
    rw [Node.rename_convert]
    exact .throw (.fault _)
  | _ => exact .throw (.fault _)

-- Calls of functions under other names, however deep they stand inside each other.
theorem renames_calling (level : Int) (p : Procedure Value) {args : List Value}
    (hargs : ∀ v ∈ args, v.Kept ρ) {body body' : Frame Value → Eval Value}
    (hbody : ∀ frame, frame.Each (Value.Kept ρ) →
      RenamesValue ρ (body frame) (body' (frame.rename ρ (Value.rename ρ)))) :
    RenamesValue ρ (calling level p args body)
      (calling level (p.rename ρ) (Value.renameAll ρ args) body') := by
  refine (Renames.lift (renamed_frame p hargs)).bind fun frame hframe => ?_
  refine (renames_emit level (.called p.name args)).bind fun _ _ => ?_
  refine (hbody frame hframe).bind fun v hv => ?_
  refine (Renames.lift (renamed_checkResult p v)).bind fun _ _ => ?_
  exact (renames_emit level (.returned p.name v)).bind fun _ _ => .pure hv

theorem callsRename_invoke (level limit : Int) (room : Nat) :
    CallsRename ρ (invoke level limit room) := by
  induction room with
  | zero =>
    intro p args _ hargs
    rw [invoke_zero_eq, invoke_zero_eq]
    exact renames_calling level p hargs fun _ _ => .fail _
  | succ room ih =>
    intro p args hp hargs
    have hbody : p.body.Everywhere (Node.KeepsName ρ) := by
      cases hp
      assumption
    rw [invoke_succ_eq, invoke_succ_eq]
    exact renames_calling level p hargs fun frame hframe =>
      (renames_runBody ih hbody).inScope hframe

end Calls

section Programs

theorem takeWhile_hasRoom_renameAll [Machine] (depth : Int) (statements : List Node) :
    (Node.renameAll ρ statements).takeWhile (Settings.hasRoom depth) =
      Node.renameAll ρ (statements.takeWhile (Settings.hasRoom depth)) := by
  have hroom : Settings.hasRoom depth ∘ Node.rename ρ = Settings.hasRoom depth := by
    funext n
    simp only [Function.comp_apply, Settings.hasRoom, Node.nesting_rename]
  rw [Node.renameAll_eq_map, Node.renameAll_eq_map, List.takeWhile_map, hroom]

theorem renames_execute [Machine] (level depth : Int) {body : Items Node}
    (hbody : ∀ nodes, body = .list nodes → ∀ n ∈ nodes, n.Everywhere (Node.KeepsName ρ)) :
    RenamesValue ρ (execute level depth body) (execute level depth (Node.renameItems ρ body)) := by
  have heval (n : Node) (hn : n.Everywhere (Node.KeepsName ρ)) :
      EvalRenames ρ level (invoke level depth depth.toNat) n :=
    renames_eval level (callsRename_invoke level depth _) hn
  cases body with
  | list statements =>
    simp only [execute, Node.renameItems, takeWhile_hasRoom_renameAll]
    have hfitting : ∀ n ∈ statements.takeWhile (Settings.hasRoom depth),
        EvalRenames ρ level (invoke level depth depth.toNat) n :=
      fun n hn => heval n (hbody statements rfl n ((List.takeWhile_sublist _).subset hn))
    refine (renames_evalSequence hfitting .null).bind fun v hv => ?_
    simp only [Node.renameAll_eq_map, List.length_map]
    split
    · exact .pure hv
    · exact .fail _
  | other t => exact renames_evalBody (by simp)

theorem renamed_reportedAs (level : Int) {e e' : Failure} {s t : State} (he : e.Renamed e')
    (hst : s.Renamed ρ t) :
    (reportedAs level e s).1.Renamed (reportedAs level e' t).1 ∧
      (reportedAs level e s).2.Renamed ρ (reportedAs level e' t).2 := by
  cases he with
  | error place cls => exact ⟨.error place cls, renamed_emitted hst level (.failed ..)⟩
  | fault f =>
    cases f with
    | endlessText => exact ⟨.refl _, renamed_emitted hst level (.failed ..)⟩
    | _ => exact ⟨.fault _, hst⟩

theorem renames_finish (level : Int) {v : Value} (hv : v.Kept ρ) :
    RenamesValue ρ (finish level v) (finish level (v.rename ρ)) := by
  unfold finish
  rw [Value.hasText_rename]
  by_cases htext : v.hasText
  · rw [if_pos htext, if_pos htext]
    exact (renames_emit level (.finished v)).bind fun _ _ => .pure hv
  · rw [if_neg htext, if_neg htext]
    exact .throw (.fault _)

theorem renames_run [Machine] (settings : Settings) {program : Node} {place : Place}
    {body : Items Node}
    (hprogram : program = .program place body) (hkept : program.Everywhere (Node.KeepsName ρ)) :
    RenamesValue ρ (run settings program) (run settings (program.rename ρ)) := by
  subst hprogram
  unfold run
  simp only [Node.rename, Node.body?, Option.map_some, Node.size?_renameItems]
  cases body.size? with
  | none => exact .throw (.fault _)
  | some size =>
    refine (renames_emit settings.level (.started size)).bind fun _ _ => ?_
    refine (Renames.lift (.refl settings.checkStack)).bind fun depth _ => ?_
    have hexecute : RenamesValue ρ (execute settings.level depth body)
        (execute settings.level depth (Node.renameItems ρ body)) := by
      refine renames_execute settings.level depth ?_
      rintro nodes rfl
      exact hkept.below
    refine Renames.bind (f := Value.rename ρ) (fun s t hst => ?_) fun v hv =>
      renames_finish settings.level hv
    rw [reporting_eq, reporting_eq]
    exact Renames.ends_around (hexecute s t hst) (fun _ _ h => h) fun _ _ _ _ he hst =>
      renamed_reportedAs settings.level he hst

end Programs

end Eval

namespace Session

variable {ρ : Renaming}

theorem renamed_start (settings : Settings) (input : String) (hseeds : ∀ b ∈ seeds, ρ b.1 = b.1) :
    (start settings input).state.Renamed ρ (start settings input).state := by
  have hvalues : ∀ b ∈ seeds, b.2.rename ρ = b.2 :=
    forall_seeds (P := fun v => v.rename ρ = v) rfl (fun _ => rfl) fun _ => rfl
  have hsame : Bindings.rename ρ (Value.rename ρ) seeds = seeds :=
    Bindings.rename_eq_self ρ fun b hb => ⟨hseeds b hb, hvalues b hb⟩
  have hkept : ∀ b ∈ seeds, b.2.Kept ρ := forall_seeds .null .bool .builtin
  refine ⟨?_, rfl, rfl, rfl, List.forall_mem_singleton.2 ⟨by simp [start], hkept⟩⟩
  exact congrArg (fun consts => Chain.mk (Frame.mk [] consts) []) hsame.symm

-- A program under other names, run in a session of its own: the names of variables are changed to
-- others wherever they stand for variables, so that different names stay different and constants
-- stay constants. The names that every program starts with and those of declared functions stay.
-- Then the output and the remaining input are the same, the scopes and the value are the same under
-- the other names, and an error has the same class and the same place.
theorem run_rename [Machine] (ρ : Renaming) (settings : Settings) (input : String) {source : String}
    {program : Node} (hparse : Node.parse source = .ok program)
    (hseeds : ∀ b ∈ seeds, ρ b.1 = b.1) (hkept : program.Everywhere (Node.KeepsName ρ)) :
    let plain := (start settings input).run program
    let renamed := (start settings input).run (program.rename ρ)
    (renamed.2.state.output = plain.2.state.output ∧
      renamed.2.state.input = plain.2.state.input ∧
      renamed.2.state.scopes = plain.2.state.scopes.rename ρ (Value.rename ρ)) ∧
    ((∃ v, plain.1 = .ok v ∧ renamed.1 = .ok (v.rename ρ)) ∨
      ∃ e f, plain.1 = .error e ∧ renamed.1 = .error f ∧ e.Renamed f) := by
  have hprogram : ∃ place body, program = .program place body := by
    cases Node.isProgram_of_parse hparse with
    | program _ _ => exact ⟨_, _, rfl⟩
  obtain ⟨place, body, hprogram⟩ := hprogram
  have hends := Eval.renames_run (start settings input).settings hprogram hkept _ _
    (renamed_start settings input hseeds)
  simp only [run, fst_perform, state_perform]
  generalize Eval.run _ program _ = x at hends ⊢
  generalize Eval.run _ (program.rename ρ) _ = y at hends ⊢
  cases hends with
  | ok value states =>
    exact ⟨⟨states.output, states.input, states.scopes⟩, .inl ⟨_, rfl, rfl⟩⟩
  | error failure states =>
    exact ⟨⟨states.output, states.input, states.scopes⟩, .inr ⟨_, _, rfl, rfl, failure⟩⟩

section

attribute [local instance] Machine.usual

-- A parameter and a global variable exchange their names, as they do in the second text.
theorem run_rename_swap :
    ∃ (ρ : Renaming) (program : Node),
      (Node.parse "func f(a) \x7b a + b; \x7d let b = 1; print(f(2));" = .ok program ∧
        (∀ b ∈ seeds, ρ b.1 = b.1) ∧ program.Everywhere (Node.KeepsName ρ)) ∧
      (ρ "a" = "b" ∧ ρ "b" = "a" ∧
        (Node.parse "func f(b) \x7b b + a; \x7d let a = 1; print(f(2));").toOption.map
          (program.rename ρ).alike = some true) ∧
      ((start {} "").run (program.rename ρ)).2.state.output = "3\n" := by
  let ρ : Renaming := .swap ⟨"a", by decide⟩ ⟨"b", by decide⟩ (by decide)
  have hread : ((Node.parse "func f(a) \x7b a + b; \x7d let b = 1; print(f(2));").toOption.map
      fun program => (decide (program.Everywhere (Node.KeepsName ρ)),
        ((start {} "").run program).2.state.output,
        (Node.parse "func f(b) \x7b b + a; \x7d let a = 1; print(f(2));").toOption.map
          (program.rename ρ).alike)) = some (true, "3\n", some true) := by
    decide +kernel
  have hseeds : ∀ b ∈ seeds, ρ b.1 = b.1 := by decide +kernel
  have ha : ρ "a" = "b" := by decide +kernel
  have hb : ρ "b" = "a" := by decide +kernel
  cases hparse : Node.parse "func f(a) \x7b a + b; \x7d let b = 1; print(f(2));" with
  | error e =>
    rw [hparse] at hread
    cases hread
  | ok program =>
    rw [hparse] at hread
    obtain ⟨hdecide, hrest⟩ := Prod.mk.inj (Option.some.inj hread)
    obtain ⟨houtput, htext⟩ := Prod.mk.inj hrest
    have hkept : program.Everywhere (Node.KeepsName ρ) := of_decide_eq_true hdecide
    have hsame := (run_rename ρ {} "" hparse hseeds hkept).1.1
    exact ⟨ρ, program, ⟨rfl, hseeds, hkept⟩, ⟨ha, hb, htext⟩, hsame.trans houtput⟩

end

end Session

end TernLang
