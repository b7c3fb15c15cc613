import TernLang.Proofs.Eval.Pairing

-- Evaluation side by side: of twin programs the second does what the first does, call by call and
-- statement by statement.

namespace TernLang

namespace Eval

variable {c : Pairing}

section Operations

theorem follows_noItems {first first' : Fault} (hfirst : first = first' ∨
    c.level' < c.level ∧ first ≠ .unreadableNumber) (t : Tree) :
    Follows c (fun _ _ => True) (noItems first t) (noItems first' t) := by
  cases t with
  | str s =>
    simp only [noItems]
    by_cases hempty : s.isEmpty
    · rw [if_pos hempty, if_pos hempty]
      exact .pure trivial
    · rw [if_neg hempty, if_neg hempty]
      rcases hfirst with rfl | ⟨hlevel, hne⟩
      · exact .throw (.fault _)
      · exact .losing (c.lost_fault hlevel _ hne) Follows.unwritten
  | _ => exact .throw (.fault _)

theorem strayFault_eq_or (c : Pairing) (type : String) :
    strayFault c.level type = strayFault c.level' type ∨
      c.level' < c.level ∧ strayFault c.level type ≠ .unreadableNumber := by
  have hle := c.level_le
  by_cases hsame : c.level = c.level'
  · exact .inl (by rw [hsame])
  · refine .inr ⟨by omega, ?_⟩
    unfold strayFault
    split <;> simp

theorem follows_builtinCall (b : Builtin) {vs ws : List Value}
    (h : List.Forall₂ (Value.Twin c.place) vs ws) :
    Follows c (Value.Twin c.place) (b.call vs) (b.call ws) := by
  have htext : Outcome.Twin c.place Eq (Builtin.textOf vs) (Builtin.textOf ws) := by
    unfold Builtin.textOf
    rw [Value.Twin.haveText h, Value.Twin.displayAll h]
    split
    · exact .ok rfl
    · exact .fault _
  cases b with
  | print =>
    refine (Follows.lift htext).bind ?_
    rintro text _ rfl
    exact (Follows.write _).bind fun _ _ _ => .pure .null
  | input =>
    refine (Follows.lift htext).bind ?_
    rintro text _ rfl
    refine (Follows.write _).bind fun _ _ _ => Follows.readLine.bind ?_
    rintro line _ rfl
    exact .pure (.str line)
  | tup => exact .pure (.tuple h)

theorem follows_bindName (way : Binding) (name : Tree) {v w : Value} (hv : v.Twin c.place w) :
    Follows c (fun _ _ => True) (bindName c.level way name v) (bindName c.level' way name w) := by
  cases way with
  | declare => exact (Follows.declare name hv).bind fun _ _ _ => .emit (.declared _ hv)
  | assign => exact (Follows.assign name hv).bind fun _ _ _ => .emit (.assigned _ hv)

-- What binding the names of two targets does, whatever the values are.
def BindsAlike (c : Pairing) (way : Binding) (a b : Node) : Prop :=
  ∀ {v w : Option Value}, Option.Rel (Value.Twin c.place) v w →
    Follows c (fun _ _ => True) (bind c.level way a v) (bind c.level' way b w)

theorem follows_bindAll {way : Binding} {as bs : List Node}
    (h : List.Forall₂ (BindsAlike c way) as bs) {vs ws : List (Option Value)}
    (hvs : List.Forall₂ (Option.Rel (Value.Twin c.place)) vs ws) :
    Follows c (fun _ _ => True) (bindAll c.level way as vs) (bindAll c.level' way bs ws) := by
  induction h generalizing vs ws with
  | nil =>
    rw [bindAll.eq_def, bindAll.eq_def]
    exact .pure trivial
  | cons head _ ih =>
    cases hvs with
    | nil =>
      rw [bindAll.eq_def, bindAll.eq_def]
      exact .pure trivial
    | cons hv hvs =>
      rw [bindAll, bindAll]
      exact (head hv).bind fun _ _ _ => ih hvs

theorem follows_bindItems {way : Binding} {a b : Items Node}
    (h : Items.Twin (BindsAlike c way) a b) {vs ws : List (Option Value)}
    (hvs : List.Forall₂ (Option.Rel (Value.Twin c.place)) vs ws) :
    Follows c (fun _ _ => True) (bindItems c.level way a vs) (bindItems c.level' way b ws) := by
  cases h with
  | list each =>
    rw [bindItems, bindItems]
    exact follows_bindAll each hvs
  | other t =>
    rw [bindItems, bindItems]
    exact follows_noItems (.inl rfl) t

theorem follows_bind_tuple {way : Binding} {p q : Place} (hpq : c.place p q) {a b : Items Node}
    (hsize : a.size? = b.size?) (h : Items.Twin (BindsAlike c way) a b) {v w : Option Value}
    (hv : Option.Rel (Value.Twin c.place) v w) :
    Follows c (fun _ _ => True) (bind c.level way (.tuple p a) v)
      (bind c.level' way (.tuple q b) w) := by
  cases hv with
  | none =>
    rw [bind, bind, hsize]
    exact follows_bindItems h (List.forall₂_same.2 fun v hv => by
      rw [List.eq_of_mem_replicate hv]
      exact .none)
  | @some v w hv =>
    have hrefused : Follows c (fun _ _ => True)
        (lift v.kind >>= fun kind => located p (fail (.notDestructurable kind)) : Eval Unit)
        (lift w.kind >>= fun kind => located q (fail (.notDestructurable kind)) : Eval Unit) := by
      refine (Follows.lift hv.kind).bind ?_
      rintro kind _ rfl
      exact .located hpq (.fail _)
    cases hv with
    | tuple each =>
      rw [bind, bind, hsize, each.length_eq]
      cases b.size? with
      | none => exact .throw (.fault _)
      | some names =>
        simp only
        split
        · refine follows_bindItems h (List.forall₂_map_left_iff.2 (List.forall₂_map_right_iff.2 ?_))
          exact each.imp fun _ _ hv => hv.given
        · exact .located hpq (.fail _)
    | _ => simpa only [bind] using hrefused

theorem follows_bind (way : Binding) {a b : Node} (hab : a.Twin c.place b) :
    BindsAlike c way a b := by
  induction hab using Node.Twin.induct with
  | ident name hp =>
    intro v w hv
    rw [bind, bind]
    refine follows_bindName way name ?_
    cases hv with
    | some hv => exact hv
    | none => exact .null
  | tuple hp ha iha =>
    have hparts := iha.mono (T := BindsAlike c way) fun _ _ h => h.2
    intro v w hv
    exact follows_bind_tuple hp ha.size? hparts hv
  | stray t =>
    intro v w hv
    rw [bind.eq_def, bind.eq_def]
    exact .throw (.fault _)
  | literal _ _ hp | compare _ hp | binary _ hp | unary _ hp | parameter _ hp | function _ hp =>
    intro v w hv
    rw [bind.eq_def, bind.eq_def]
    exact .located hp (.fail _)
  | program hp | block hp | array hp | assign hp | member hp | index hp | convert hp | call hp
  | declare hp | conditional hp | arm hp | cases hp =>
    intro v w hv
    rw [bind.eq_def, bind.eq_def]
    exact .located hp (.fail _)

end Operations

-- Two callers do the same with twin functions and arguments.
def CallsFollow (c : Pairing) (call call' : Caller) : Prop :=
  ∀ {p q args args'}, (Value.function p).Twin c.place (.function q) →
    List.Forall₂ (Value.Twin c.place) args args' →
    Follows c (Value.Twin c.place) (call p args) (call' q args')

section Nodes

variable {call call' : Caller}

theorem follows_apply (hcall : CallsFollow c call call') {v w : Value} (hv : v.Twin c.place w)
    {vs ws : List Value} (hvs : List.Forall₂ (Value.Twin c.place) vs ws) :
    Follows c (Value.Twin c.place) (apply c.level call v vs) (apply c.level' call' w ws) := by
  cases hv with
  | builtin b =>
    exact (Follows.emit (.calledBuiltin b)).bind fun _ _ _ => follows_builtinCall b hvs
  | method m hv hbound =>
    refine (Follows.emit (.calledMethod m)).bind fun _ _ _ => .lift ?_
    exact hv.call m (List.rel_append hbound hvs)
  | function name hp hr hb => exact hcall (.function name hp hr hb) hvs
  | _ => exact .pure .null

-- What evaluation does with two nodes.
def EvalsAlike (c : Pairing) (call call' : Caller) (a b : Node) : Prop :=
  Follows c (Value.Twin c.place) (eval c.level call a) (eval c.level' call' b)

theorem follows_evalAll {as bs : List Node} (h : List.Forall₂ (EvalsAlike c call call') as bs) :
    Follows c (List.Forall₂ (Value.Twin c.place)) (evalAll c.level call as)
      (evalAll c.level' call' bs) := by
  induction h with
  | nil =>
    rw [evalAll, evalAll]
    exact .pure .nil
  | cons head _ ih =>
    rw [evalAll, evalAll]
    exact Follows.bind head fun _ _ hv => ih.bind fun _ _ hvs => .pure (.cons hv hvs)

theorem follows_evalItems {a b : Items Node} (h : Items.Twin (EvalsAlike c call call') a b) :
    Follows c (List.Forall₂ (Value.Twin c.place)) (evalItems c.level call a)
      (evalItems c.level' call' b) := by
  cases h with
  | list each =>
    rw [evalItems, evalItems]
    exact follows_evalAll each
  | other t =>
    rw [evalItems, evalItems]
    exact (follows_noItems (strayFault_eq_or c _) t).bind fun _ _ _ => .pure .nil

theorem follows_evalSome {a b : Option Node} (h : Option.Rel (EvalsAlike c call call') a b) :
    Follows c (Option.Rel (Value.Twin c.place)) (evalSome c.level call a)
      (evalSome c.level' call' b) := by
  cases h with
  | none =>
    rw [evalSome, evalSome]
    exact .pure .none
  | some h =>
    rw [evalSome, evalSome]
    exact Follows.bind h fun _ _ hv => .pure (.some hv)

theorem follows_evalSequence {as bs : List Node} (h : List.Forall₂ (EvalsAlike c call call') as bs)
    {v w : Value} (hv : v.Twin c.place w) :
    Follows c (Value.Twin c.place) (evalSequence c.level call v as)
      (evalSequence c.level' call' w bs) := by
  induction h generalizing v w with
  | nil =>
    rw [evalSequence, evalSequence]
    exact .pure hv
  | cons head _ ih =>
    rw [evalSequence, evalSequence]
    exact Follows.bind head fun _ _ hv => ih hv

theorem follows_evalBody {a b : Items Node} (h : Items.Twin (EvalsAlike c call call') a b) :
    Follows c (Value.Twin c.place) (evalBody c.level call a) (evalBody c.level' call' b) := by
  cases h with
  | list each =>
    rw [evalBody, evalBody]
    exact follows_evalSequence each .null
  | other t =>
    rw [evalBody, evalBody]
    exact (follows_noItems (strayFault_eq_or c _) t).bind fun _ _ _ => .pure .null

theorem rel_given {v w : Option Value} (h : Option.Rel (Value.Twin c.place) v w) :
    Option.Rel (Value.Twin c.place) (v.bind Value.given) (w.bind Value.given) := by
  cases h with
  | some hv => exact hv.given
  | none => exact .none

-- As `EvalsAlike`, but of a parameter or an arm it says what evaluation does with its parts.
def PartsAlike (c : Pairing) (call call' : Caller) : Node → Node → Prop
  | .parameter _ _ a, .parameter _ _ b => Option.Rel (EvalsAlike c call call') a b
  | .arm _ a x, .arm _ b y => EvalsAlike c call call' a b ∧ EvalsAlike c call call' x y
  | a, b => EvalsAlike c call call' a b

-- Twins that came through the induction on twins.
abbrev Reached (c : Pairing) (call call' : Caller) (a b : Node) : Prop :=
  ∃ _ : a.Twin c.place b, PartsAlike c call call' a b

theorem follows_eval_of_visit {a b : Node} (hab : a.Twin c.place b) {x y : Eval Value}
    (ha : eval c.level call a = visit c.level a x) (hb : eval c.level' call' b = visit c.level' b y)
    (hxy : Follows c (Value.Twin c.place) x y) : EvalsAlike c call call' a b := by
  unfold EvalsAlike
  rw [ha, hb]
  exact .visit hab hxy

theorem evalsAlike_of_reached (a b : Node) (h : Reached c call call' a b) :
    EvalsAlike c call call' a b := by
  obtain ⟨hab, hparts⟩ := h
  cases hab with
  | parameter name hp ha =>
    exact follows_eval_of_visit (.parameter name hp ha) (eval.eq_def ..) (eval.eq_def ..)
      (.throw (.fault _))
  | arm hp ha hx =>
    exact follows_eval_of_visit (.arm hp ha hx) (eval.eq_def ..) (eval.eq_def ..)
      (.throw (.fault _))
  | _ => exact hparts

theorem follows_evalParameters {as bs : List Node}
    (h : List.Forall₂ (Reached c call call') as bs) :
    Follows c (Bindings.Twin (Option.Rel (Value.Twin c.place))) (evalParameters c.level call as)
      (evalParameters c.level' call' bs) := by
  induction h with
  | nil =>
    rw [evalParameters, evalParameters]
    exact .pure .nil
  | cons head _ ih =>
    obtain ⟨hab, hparts⟩ := head
    cases hab with
    | parameter name hp ha =>
      rw [evalParameters, evalParameters]
      exact (follows_evalSome hparts).bind fun _ _ hv => ih.bind fun _ _ hrest =>
        .pure (.cons name (rel_given hv) hrest)
    | _ =>
      rw [evalParameters.eq_def, evalParameters.eq_def]
      exact .throw (.fault _)

theorem follows_evalParameterItems {a b : Items Node} (h : Items.Twin (Reached c call call') a b) :
    Follows c (Bindings.Twin (Option.Rel (Value.Twin c.place)))
      (evalParameterItems c.level call a) (evalParameterItems c.level' call' b) := by
  cases h with
  | list each =>
    rw [evalParameterItems, evalParameterItems]
    exact follows_evalParameters each
  | other t =>
    rw [evalParameterItems, evalParameterItems]
    exact (follows_noItems (.inl rfl) t).bind fun _ _ _ => .pure .nil

theorem follows_evalArms {v w : Value} (hv : v.Twin c.place w) {as bs : List Node}
    (h : List.Forall₂ (Reached c call call') as bs) (position : Nat) :
    Follows c (Value.Twin c.place) (evalArms c.level call v position as)
      (evalArms c.level' call' w position bs) := by
  induction h generalizing position with
  | nil =>
    rw [evalArms, evalArms]
    exact .pure .null
  | cons head _ ih =>
    obtain ⟨hab, hparts⟩ := head
    cases hab with
    | arm hp ha hx =>
      rw [evalArms, evalArms]
      refine Follows.bind hparts.1 fun _ _ hlabel =>
        (Follows.lift (hlabel.isLabelOf hv)).bind ?_
      rintro hit _ rfl
      cases hit with
      | true => exact (Follows.emit (.matched hv position)).bind fun _ _ _ => hparts.2
      | false => exact ih (position + 1)
    | _ =>
      rw [evalArms.eq_def, evalArms.eq_def]
      exact .throw (.fault _)

theorem follows_evalArmItems {v w : Value} (hv : v.Twin c.place w) {a b : Items Node}
    (h : Items.Twin (Reached c call call') a b) :
    Follows c (Value.Twin c.place) (evalArmItems c.level call v a)
      (evalArmItems c.level' call' w b) := by
  cases h with
  | list each =>
    rw [evalArmItems, evalArmItems]
    exact follows_evalArms hv each 0
  | other t =>
    rw [evalArmItems, evalArmItems]
    exact (follows_noItems (.inl rfl) t).bind fun _ _ _ => .pure .null

theorem follows_function (name : Tree) {a b : Items Node} {x y : Option Node} {n m : Node}
    (ha : Items.Twin (Reached c call call') a b) (hx : Option.Rel (EvalsAlike c call call') x y)
    (hn : n.Twin c.place m) :
    Follows c (Value.Twin c.place)
      (do
        let samples ← evalParameterItems c.level call a
        let sample ← evalSome c.level call x
        let value := Value.function ⟨name.shown, samples, sample.bind Value.given, n⟩
        declare name value
        emit c.level (.defined name.shown (samples.map (·.1)))
        pure value)
      (do
        let samples ← evalParameterItems c.level' call' b
        let sample ← evalSome c.level' call' y
        let value := Value.function ⟨name.shown, samples, sample.bind Value.given, m⟩
        declare name value
        emit c.level' (.defined name.shown (samples.map (·.1)))
        pure value) := by
  refine (follows_evalParameterItems ha).bind fun samples samples' hsamples =>
    (follows_evalSome hx).bind fun sample sample' hsample => ?_
  have hvalue := Value.Twin.function name.shown hsamples (rel_given hsample) hn
  rw [hsamples.names_eq]
  exact (Follows.declare name hvalue).bind fun _ _ _ => (Follows.emit (.defined _ _)).bind
    fun _ _ _ => .pure hvalue

theorem follows_branch {v w : Value} {a b : Node} {x y : Option Node}
    (ha : EvalsAlike c call call' a b) (hx : Option.Rel (EvalsAlike c call call') x y) :
    v.Twin c.place w → Follows c (Value.Twin c.place)
      (match v with
        | .bool true => eval c.level call a
        | .bool false => do return (← evalSome c.level call x).getD .null
        | _ => pure .null)
      (match w with
        | .bool true => eval c.level' call' b
        | .bool false => do return (← evalSome c.level' call' y).getD .null
        | _ => pure .null) := by
  intro hv
  cases hv with
  | bool t =>
    cases t with
    | true => exact ha
    | false =>
      refine (follows_evalSome hx).bind fun _ _ hv => .pure ?_
      cases hv with
      | some hv => exact hv
      | none => exact .null
  | _ => exact .pure .null

theorem partsAlike_of_twin (hcall : CallsFollow c call call') {a b : Node}
    (hab : a.Twin c.place b) : PartsAlike c call call' a b := by
  have hreached (a b : Node) (h : Reached c call call' a b) : EvalsAlike c call call' a b :=
    evalsAlike_of_reached a b h
  have hdirect {a b : Node} (hab : a.Twin c.place b) (h : PartsAlike c call call' a b) :
      EvalsAlike c call call' a b := hreached a b ⟨hab, h⟩
  induction hab using Node.Twin.induct with
  | literal v t hp =>
    refine follows_eval_of_visit (.literal v t hp) (eval.eq_def ..) (eval.eq_def ..) (.pure ?_)
    split
    · exact .null
    · cases v with
      | bool b => exact .bool b
      | int n => exact .int n
      | real x => exact .real x _
      | str s => exact .str s
      | _ => exact .alien _
  | ident name hp =>
    exact follows_eval_of_visit (.ident name hp) (eval.eq_def ..) (eval.eq_def ..) (.lookup name)
  | array hp ha iha =>
    refine follows_eval_of_visit (.array hp ha) (eval.eq_def ..) (eval.eq_def ..) ?_
    exact (follows_evalItems (iha.mono hreached)).bind fun _ _ hvs => .pure (.array hvs)
  | tuple hp ha iha =>
    refine follows_eval_of_visit (.tuple hp ha) (eval.eq_def ..) (eval.eq_def ..) ?_
    exact (follows_evalItems (iha.mono hreached)).bind fun _ _ hvs => .pure (.tuple hvs)
  | compare op hp ha hb iha ihb =>
    refine follows_eval_of_visit (.compare op hp ha hb) (eval.eq_def ..) (eval.eq_def ..) ?_
    exact Follows.bind (hdirect ha iha) fun _ _ hv => Follows.bind (hdirect hb ihb) fun _ _ hw =>
      .lift (hv.compare op hw)
  | binary op hp ha hb iha ihb =>
    refine follows_eval_of_visit (.binary op hp ha hb) (eval.eq_def ..) (eval.eq_def ..) ?_
    exact Follows.bind (hdirect ha iha) fun _ _ hv => Follows.bind (hdirect hb ihb) fun _ _ hw =>
      .result (hv.binary op hw)
  | unary op hp ha iha =>
    refine follows_eval_of_visit (.unary op hp ha) (eval.eq_def ..) (eval.eq_def ..) ?_
    exact Follows.bind (hdirect ha iha) fun _ _ hv => .result (hv.unary op)
  | assign hp ha hb _ ihb =>
    refine follows_eval_of_visit (.assign hp ha hb) (eval.eq_def ..) (eval.eq_def ..) ?_
    exact Follows.bind (hdirect hb ihb) fun _ _ hv => (follows_bind .assign ha hv.given).bind
      fun _ _ _ => .pure .null
  | member hp ha hb iha _ =>
    refine follows_eval_of_visit (.member hp ha hb) (eval.eq_def ..) (eval.eq_def ..) ?_
    refine Follows.bind (hdirect ha iha) fun _ _ hv => ?_
    cases hb with
    | ident name _ => exact .lift (hv.property name)
    | _ => exact .pure .null
  | index hp ha hb iha ihb =>
    refine follows_eval_of_visit (.index hp ha hb) (eval.eq_def ..) (eval.eq_def ..) ?_
    exact Follows.bind (hdirect ha iha) fun _ _ hv => Follows.bind (hdirect hb ihb) fun _ _ hw =>
      .lift (hv.index hw)
  | convert hp ha hb iha _ =>
    refine follows_eval_of_visit (.convert hp ha hb) (eval.eq_def ..) (eval.eq_def ..) ?_
    refine Follows.bind (hdirect ha iha) fun _ _ hv => ?_
    cases hb with
    | ident name _ => exact .result (hv.convert name)
    | _ => exact .pure .null
  | call hp ha hb iha ihb =>
    refine follows_eval_of_visit (.call hp ha hb) (eval.eq_def ..) (eval.eq_def ..) ?_
    exact Follows.bind (hdirect ha iha) fun _ _ hv =>
      (follows_evalItems (ihb.mono hreached)).bind fun _ _ hvs => follows_apply hcall hv hvs
  | declare hp ha hb _ ihb =>
    refine follows_eval_of_visit (.declare hp ha hb) (eval.eq_def ..) (eval.eq_def ..) ?_
    exact (follows_evalSome (rel_imp hreached ihb)).bind fun _ _ hv =>
      (follows_bind .declare ha (rel_given hv)).bind fun _ _ _ => .pure .null
  | parameter name hp _ iha => exact rel_imp hreached iha
  | function name hp ha hb hc iha ihb _ =>
    refine follows_eval_of_visit (.function name hp ha hb hc) (eval.eq_def ..) (eval.eq_def ..) ?_
    exact follows_function name iha (rel_imp hreached ihb) hc
  | conditional hp ha hb hc iha ihb ihc =>
    refine follows_eval_of_visit (.conditional hp ha hb hc) (eval.eq_def ..) (eval.eq_def ..) ?_
    exact Follows.bind (hdirect ha iha) fun _ _ hv => (Follows.emit (.tested hv)).bind
      fun _ _ _ => follows_branch (hdirect hb ihb) (rel_imp hreached ihc) hv
  | arm hp ha hb iha ihb => exact ⟨hdirect ha iha, hdirect hb ihb⟩
  | cases hp ha hb iha ihb =>
    refine follows_eval_of_visit (.cases hp ha hb) (eval.eq_def ..) (eval.eq_def ..) ?_
    exact Follows.bind (hdirect ha iha) fun _ _ hv => follows_evalArmItems hv ihb
  | block hp ha iha =>
    refine follows_eval_of_visit (.block hp ha) (eval.eq_def ..) (eval.eq_def ..) ?_
    exact .inScope .empty (follows_evalBody (iha.mono hreached))
  | program hp ha iha =>
    refine follows_eval_of_visit (.program hp ha) (eval.eq_def ..) (eval.eq_def ..) ?_
    exact follows_evalBody (iha.mono hreached)
  | stray t =>
    have hthrow : Follows c (Value.Twin c.place)
        (throw (.fault (strayFault c.level t.typeName)) : Eval Value)
        (throw (.fault (strayFault c.level' t.typeName)) : Eval Value) := by
      rcases strayFault_eq_or c t.typeName with hsame | ⟨hlevel, hne⟩
      · rw [hsame]
        exact .throw (.fault _)
      · exact .losing (c.lost_fault hlevel _ hne) Follows.unwritten
    exact follows_eval_of_visit (.stray t) (eval.eq_def ..) (eval.eq_def ..) hthrow

-- Twin nodes are evaluated alike.
theorem follows_eval (hcall : CallsFollow c call call') {a b : Node} (hab : a.Twin c.place b) :
    EvalsAlike c call call' a b :=
  evalsAlike_of_reached a b ⟨hab, partsAlike_of_twin hcall hab⟩

theorem follows_runBody (hcall : CallsFollow c call call') {a b : Node} (hab : a.Twin c.place b) :
    Follows c (Value.Twin c.place) (runBody c.level call a) (runBody c.level' call' b) := by
  cases hab with
  | block hp ha =>
    rw [runBody, runBody]
    exact follows_evalBody (ha.mono fun _ _ => follows_eval hcall)
  | _ => exact .throw (.fault _)

end Nodes

section Calls

variable {p q : Procedure Value} {call call' : Caller}

theorem name_eq_of_twin (hpq : (Value.function p).Twin c.place (.function q)) :
    p.name = q.name := by
  cases hpq
  rfl

theorem twin_checkArgument (hname : p.name = q.name) (name : Tree) {v w : Option Value}
    (h : Option.Rel (Value.Twin c.place) v w) {x y : Value} (hx : x.Twin c.place y) :
    Outcome.Twin c.place (fun _ _ => True) (p.checkArgument name v x)
      (q.checkArgument name w y) := by
  cases h with
  | none => exact .ok trivial
  | some hv =>
    refine hx.kind.bind ?_
    rintro got _ rfl
    refine hv.kind.bind ?_
    rintro expected _ rfl
    rw [hname]
    by_cases hkind : got = expected
    · rw [if_pos hkind]
      exact .ok trivial
    · rw [if_neg hkind]
      exact .ofCause _

theorem twin_checkResult (hpq : (Value.function p).Twin c.place (.function q)) {x y : Value}
    (hx : x.Twin c.place y) :
    Outcome.Twin c.place (fun _ _ => True) (p.checkResult x) (q.checkResult y) := by
  cases hpq with
  | function name _ hr _ =>
    cases hr with
    | none => exact .ok trivial
    | some hv =>
      refine hx.kind.bind ?_
      rintro got _ rfl
      refine hv.kind.bind ?_
      rintro expected _ rfl
      by_cases hkind : got = expected
      · rw [if_pos hkind]
        exact .ok trivial
      · rw [if_neg hkind]
        exact .ofCause _

theorem twin_receive (hname : p.name = q.name) {ps qs : List (Tree × Option Value)}
    (hps : Bindings.Twin (Option.Rel (Value.Twin c.place)) ps qs) {vs ws : List Value}
    (hvs : List.Forall₂ (Value.Twin c.place) vs ws) {f g : Frame Value} (hfg : f.Twin c.place g) :
    Outcome.Twin c.place (Frame.Twin c.place) (p.receive f ps vs) (q.receive g qs ws) := by
  induction hps generalizing vs ws f g with
  | nil =>
    rw [Procedure.receive.eq_def, Procedure.receive.eq_def]
    exact .ok hfg
  | cons name hsample _ ih =>
    cases hvs with
    | nil =>
      rw [Procedure.receive.eq_def, Procedure.receive.eq_def]
      exact .ok hfg
    | cons hv hvs =>
      rw [Procedure.receive, Procedure.receive]
      refine (twin_checkArgument hname name hsample hv).bind fun _ _ _ =>
        (Follows.bindable name).bind ?_
      rintro bound _ rfl
      exact ih hvs (hfg.declare bound hv)

theorem twin_frame (hpq : (Value.function p).Twin c.place (.function q)) {vs ws : List Value}
    (hvs : List.Forall₂ (Value.Twin c.place) vs ws) :
    Outcome.Twin c.place (Frame.Twin c.place) (p.frame vs) (q.frame ws) := by
  cases hpq with
  | function name hp _ _ =>
    simp only [Procedure.frame, hvs.length_eq, hp.length_eq]
    split
    · exact twin_receive (by rfl) hp hvs .empty
    · exact .ofCause _

-- A call, if what is done with the scope of its arguments follows.
theorem follows_calling {body body' : Frame Value → Eval Value}
    (hpq : (Value.function p).Twin c.place (.function q)) {vs ws : List Value}
    (hvs : List.Forall₂ (Value.Twin c.place) vs ws)
    (hbody : ∀ f g, f.Twin c.place g → Follows c (Value.Twin c.place) (body f) (body' g)) :
    Follows c (Value.Twin c.place) (calling c.level p vs body) (calling c.level' q ws body') := by
  unfold calling
  rw [name_eq_of_twin hpq]
  refine (Follows.lift (twin_frame hpq hvs)).bind fun f g hfg => ?_
  refine (Follows.emit (.called _ hvs)).bind fun _ _ _ => (hbody f g hfg).bind fun v w hv => ?_
  exact (Follows.lift (twin_checkResult hpq hv)).bind fun _ _ _ =>
    (Follows.emit (.returned _ hv)).bind fun _ _ _ => .pure hv

theorem follows_body (hcall : CallsFollow c call call')
    (hpq : (Value.function p).Twin c.place (.function q)) {f g : Frame Value}
    (hfg : f.Twin c.place g) :
    Follows c (Value.Twin c.place) (inScope f (runBody c.level call p.body))
      (inScope g (runBody c.level' call' q.body)) := by
  have hbody : p.body.Twin c.place q.body := by
    cases hpq
    assumption
  exact .inScope hfg (follows_runBody hcall hbody)

-- Calls with the same room.
theorem callsFollow_invoke (c : Pairing) (limit : Int) (room : Nat) :
    CallsFollow c (invoke c.level limit room) (invoke c.level' limit room) := by
  induction room with
  | zero =>
    intro p q args args' hpq hargs
    rw [invoke_zero_eq, invoke_zero_eq]
    exact follows_calling hpq hargs fun _ _ _ => .fail _
  | succ room ih =>
    intro p q args args' hpq hargs
    rw [invoke_succ_eq, invoke_succ_eq]
    exact follows_calling hpq hargs fun _ _ hfg => follows_body ih hpq hfg

-- A run beside itself that may be lost at any time.
def Pairing.itself (level : Int) : Pairing where
  level
  level' := level
  place := Eq
  trace := Eq
  lost _ := True
  level_le := Int.le_refl level
  located := located_of_eq
  push := @push_of_eq level
  pass := @pass_of_eq level
  lost_locate _ _ := trivial
  lost_fault _ _ _ := trivial
  refl_of_lost _ _ := rfl

-- What follows itself only ever adds to the output.
theorem extends_of_itself (level : Int) {m : Eval Value}
    (h : Follows (.itself level) (Value.Twin Eq) m m) {e : Failure} (he : c.lost e) (t : State) :
    Extends (Value.Twin c.place) t.output (m t) :=
  (h.grows ⟨e, trivial⟩ t).mono fun _ b _ => ⟨b, .refl (c.refl_of_lost he) b⟩

-- Calls with less room in the first run, which is lost where there is none left.
theorem callsFollow_invoke_le (c : Pairing) {limit limit' : Int}
    (hlost : c.lost (.ofCause (.callDepth limit))) {room room' : Nat} (hroom : room ≤ room') :
    CallsFollow c (invoke c.level limit room) (invoke c.level' limit' room') := by
  induction room generalizing room' with
  | zero =>
    intro p q args args' hpq hargs
    rw [invoke_zero_eq]
    cases room' with
    | zero =>
      rw [invoke_zero_eq]
      exact follows_calling hpq hargs fun _ _ _ => .losing hlost Follows.unwritten
    | succ room' =>
      rw [invoke_succ_eq]
      have hrefl : ∀ p : Place, p = p := fun _ => rfl
      have hcall : CallsFollow (.itself c.level') _ _ := callsFollow_invoke _ limit' room'
      refine follows_calling hpq hargs fun _ g _ => .losing hlost ?_
      exact extends_of_itself c.level' (follows_body hcall (.refl hrefl _) (.refl hrefl g)) hlost
  | succ room ih =>
    cases room' with
    | zero => omega
    | succ room' =>
      intro p q args args' hpq hargs
      rw [invoke_succ_eq, invoke_succ_eq]
      exact follows_calling hpq hargs fun _ _ hfg => follows_body (ih (by omega)) hpq hfg

end Calls

section Programs

theorem evalSequence_append (level : Int) (call : Caller) (last : Value) (as bs : List Node) :
    evalSequence level call last (as ++ bs) =
      evalSequence level call last as >>= fun v => evalSequence level call v bs := by
  induction as generalizing last with
  | nil => simp only [List.nil_append, evalSequence, pure_bind]
  | cons a as ih => simp only [List.cons_append, evalSequence, ih, bind_assoc]

theorem twin_takeWhile [Machine] {R : Place → Place → Prop} (depth : Int) {as bs : List Node}
    (h : List.Forall₂ (Node.Twin R) as bs) :
    List.Forall₂ (Node.Twin R) (as.takeWhile (Settings.hasRoom depth))
      (bs.takeWhile (Settings.hasRoom depth)) := by
  induction h with
  | nil => exact .nil
  | @cons a b as bs head _ ih =>
    have hroom : Settings.hasRoom depth a = Settings.hasRoom depth b := by
      rw [Settings.hasRoom, Settings.hasRoom, head.nesting]
    rw [List.takeWhile_cons, List.takeWhile_cons, hroom]
    split
    · exact .cons head ih
    · exact .nil

-- The statements of twin programs at the same depth.
theorem follows_execute [Machine] (c : Pairing) (depth : Int) {a b : Items Node}
    (h : Items.Twin (Node.Twin c.place) a b) :
    Follows c (Value.Twin c.place) (execute c.level depth a) (execute c.level' depth b) := by
  have hcall : CallsFollow c _ _ := callsFollow_invoke c depth depth.toNat
  cases h with
  | list each =>
    have hfitting := twin_takeWhile depth each
    have hsequence := follows_evalSequence (hfitting.imp fun _ _ => follows_eval hcall)
      (v := .null) (w := .null) .null
    refine hsequence.bind fun v w hv => ?_
    rw [hfitting.length_eq, each.length_eq]
    split
    · exact .pure hv
    · exact .fail _
  | other t => exact follows_evalBody (.other t)

theorem follows_finish {v w : Value} (hv : v.Twin c.place w) :
    Follows c (Value.Twin c.place) (finish c.level v) (finish c.level' w) := by
  unfold finish
  rw [hv.hasText]
  split
  · exact (Follows.emit (.finished hv)).bind fun _ _ _ => .pure hv
  · exact .throw (.fault _)

variable {α β : Type} {P : α → β → Prop} {m : Eval α} {n : Eval β} {s t : State}

-- The failure that a reported one is, and the state that it leaves.
def reportedAs (level : Int) : Failure → State → Failure × State
  | .error e, t => (.error e, emitted level (.failed e) t)
  | .fault .endlessText, t =>
    (.ofCause .stackExhausted, emitted level (.failed ⟨.stackExhausted, .unknown⟩) t)
  | .fault f, t => (.fault f, t)

theorem reporting_eq (level : Int) (m : Eval α) :
    reporting (fun e => emit level (.failed e)) m = around id id (reportedAs level) m := by
  have hreported (e : Error) (t : State) :
      reportedFailure (fun e => emit level (.failed e)) e t =
        (.error e, emitted level (.failed e) t) := by
    rw [reportedFailure, emit_eq_modify rfl]
    rfl
  rw [reporting_eq_around]
  congr 1
  funext e t
  cases e with
  | error e => exact hreported e t
  | fault f =>
    cases f with
    | endlessText => exact hreported _ t
    | _ => rfl

theorem twin_reportedAs {e f : Failure} (h : e.Twin c.place f) (hst : c.Pairs s t) :
    (reportedAs c.level e s).1.Twin c.place (reportedAs c.level' f t).1 ∧
      c.Pairs (reportedAs c.level e s).2 (reportedAs c.level' f t).2 := by
  cases h with
  | error cause place => exact ⟨.error cause place, hst.emitted (.failed (.error cause place))⟩
  | unplaced cause => exact ⟨.unplaced cause, hst.emitted (.failed (.unplaced cause))⟩
  | fault f =>
    cases f with
    | endlessText => exact ⟨.unplaced _, hst.emitted (.failed (.unplaced _))⟩
    | _ => exact ⟨.fault _, hst⟩

theorem output_reportedAs (level : Int) (e : Failure) (t : State) :
    (reportedAs level e t).2.output = t.output := by
  cases e with
  | error e => exact output_emitted ..
  | fault f =>
    cases f with
    | endlessText => exact output_emitted ..
    | _ => rfl

-- A text without an end would be taken for an exhausted stack, by which a run need not be lost.
theorem meets_reporting (h : Meets c P (m s) (n t))
    (hsafe : ∀ e u, m s = .error e u → c.lost e → e ≠ .fault .endlessText) :
    Meets c P (reporting (fun e => emit c.level (.failed e)) m s)
      (reporting (fun e => emit c.level' (.failed e)) n t) := by
  rw [reporting_eq, reporting_eq]
  generalize hx : m s = x at h
  generalize hy : n t = y at h
  cases h with
  | ok value states =>
    rw [around_of_ok hx, around_of_ok hy]
    exact .ok value states
  | error failure states =>
    rw [around_of_error hx, around_of_error hy]
    exact .error (twin_reportedAs failure states).1 (twin_reportedAs failure states).2
  | @lost e u y failure more =>
    have hne := hsafe e u hx failure
    have hlost : c.lost (reportedAs c.level e u).1 := by
      cases e with
      | error e => exact failure
      | fault f =>
        cases f with
        | endlessText => exact absurd rfl hne
        | _ => exact failure
    rw [around_of_error hx]
    refine .lost hlost ?_
    rw [output_reportedAs]
    cases y with
    | ok b t =>
      rw [around_of_ok hy]
      exact more
    | error f t =>
      rw [around_of_error hy]
      exact show ∃ more, _ by rw [output_reportedAs]; exact more

-- A run from the moment on when its stack was made.
def runFrom [Machine] (level depth : Int) (body : Items Node) : Eval Value := do
  let value ← reporting (fun e => emit level (.failed e)) (execute level depth body)
  finish level value

section Start

variable {settings : Settings} {program : Node} {body : Items Node} {size : Nat}

theorem emit_started (level : Int) (size : Nat) (s : State) :
    emit level (.started size) s = .ok () (emitted level (.started size) s) := by
  rw [emit_eq_modify rfl]
  rfl

theorem run_of_checkStack [Machine] {depth : Int} (hdepth : settings.checkStack = .ok depth)
    (hbody : program.body? = some body) (hsize : body.size? = some size) (s : State) :
    run settings program s =
      runFrom settings.level depth body (emitted settings.level (.started size) s) := by
  simp only [run, hbody, hsize, Option.map_some, hdepth, Bind.bind, EStateM.bind, emit_started]
  rfl

theorem run_of_checkStack_error [Machine] {failure : Failure}
    (hdepth : settings.checkStack = .error failure)
    (hbody : program.body? = some body) (hsize : body.size? = some size) (s : State) :
    run settings program s = .error failure (emitted settings.level (.started size) s) := by
  simp only [run, hbody, hsize, Option.map_some, hdepth, Bind.bind, EStateM.bind, emit_started]
  rfl

end Start

theorem meets_runFrom [Machine] {depth depth' : Int} {a b : Items Node}
    (h : Meets c (Value.Twin c.place) (execute c.level depth a s) (execute c.level' depth' b t))
    (hsafe : ∀ e u, execute c.level depth a s = .error e u → c.lost e → e ≠ .fault .endlessText) :
    Meets c (Value.Twin c.place) (runFrom c.level depth a s) (runFrom c.level' depth' b t) := by
  have hreported := meets_reporting (n := execute c.level' depth' b) h hsafe
  exact Follows.meets_bind (fun _ _ hv => follows_finish hv) hreported

end Programs

end Eval

end TernLang
