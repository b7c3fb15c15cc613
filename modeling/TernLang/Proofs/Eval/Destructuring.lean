import TernLang.Proofs.Eval.EmptyScopes
import TernLang.Proofs.Scope.Reassigned
import TernLang.Proofs.Value.Proper

-- Taking a value apart is a sequence of single bindings. A target and a value are laid out as steps
-- from left to right, and the steps are taken in order until one fails.

namespace TernLang

-- Names and tuples of such.
inductive Node.IsPattern : Node → Prop where
  | ident (place : Place) (name : String) : IsPattern (.ident place (.str name))
  | tuple (place : Place) {elements : List Node} (each : ∀ e ∈ elements, IsPattern e) :
    IsPattern (.tuple place (.list elements))

namespace Value

variable {v : Value} {vs : List Value}

theorem hasText_of_mem (h : haveText vs) (hv : v ∈ vs) : v.hasText := by
  induction vs with
  | nil => exact absurd hv List.not_mem_nil
  | cons w ws ih =>
    rw [haveText, Bool.and_eq_true] at h
    rcases List.mem_cons.1 hv with rfl | hv
    · exact h.1
    · exact ih h.2 hv

theorem given_of_hasText (h : v.hasText) : v.given = some v := by
  cases v with
  | alien => exact absurd h (by simp [hasText])
  | _ => rfl

theorem exists_kind_of_hasText (h : v.hasText) : ∃ k, v.kind = .ok k := by
  cases v with
  | alien => exact absurd h (by simp [hasText])
  | _ => exact ⟨_, rfl⟩

theorem map_given (h : haveText vs) : vs.map given = vs.map some :=
  List.map_congr_left fun _ hv => given_of_hasText (hasText_of_mem h hv)

end Value

mutual

-- The names in a target, from left to right.
def Node.boundNames : Node → List String
  | .ident _ name => [name.shown]
  | .tuple _ (.list elements) => boundNamesAll elements
  | _ => []

def Node.boundNamesAll : List Node → List String
  | [] => []
  | n :: ns => n.boundNames ++ boundNamesAll ns

end

-- States with the same scopes, and the same read and written.
structure State.Agrees (s t : State) : Prop where
  scopes : t.scopes = s.scopes
  input : t.input = s.input
  output : t.output = s.output

namespace Eval

namespace Binding

-- A single thing that binding a target comes to.
inductive Step where
  | bound (name : String) (value : Value)
  -- The tuple of targets at this place does not fit its value.
  | refused (place : Place) (cause : Error.Cause)

-- Takes a step, if the scopes allow it.
def perform (way : Binding) : Step → EStateM Failure (Chain Value) Unit
  | .bound name value =>
    match way with
    | .declare => modify (·.declare name value)
    | .assign => fun c =>
      match c.assign? name value with
      | some d => .ok () d
      | none => .error (.ofCause (.undefinedName name)) c
  | .refused place cause => throw ((Failure.ofCause cause).locate place)

-- Takes steps in order, up to the first that fails.
def performAll (way : Binding) : List Step → EStateM Failure (Chain Value) Unit
  | [] => pure ()
  | step :: steps => do
    way.perform step
    way.performAll steps

section Perform

variable {name : String} {value : Value} {c d : Chain Value}

theorem perform_assign_of_some (h : c.assign? name value = some d) :
    perform .assign (.bound name value) c = .ok () d := by
  simp only [perform, h]

theorem perform_assign_of_none (h : c.assign? name value = none) :
    perform .assign (.bound name value) c = .error (.ofCause (.undefinedName name)) c := by
  simp only [perform, h]

theorem performAll_singleton (way : Binding) (step : Step) :
    way.performAll [step] = way.perform step :=
  bind_pure_unit

theorem performAll_append (way : Binding) (xs ys : List Step) :
    way.performAll (xs ++ ys) = way.performAll xs >>= fun _ => way.performAll ys := by
  induction xs with
  | nil => rfl
  | cons x xs ih => rw [List.cons_append, performAll, performAll, ih, bind_assoc]

end Perform

-- A step that can be taken: what is assigned to is a variable in some scope.
def Step.Possible (way : Binding) (c : Chain Value) : Step → Prop
  | .bound name _ => way = .assign → ∃ f ∈ c.frames, name ∈ f.vars.names
  | .refused .. => False

section Possible

variable {way : Binding} {c d : Chain Value} {step : Step}

theorem exists_perform_iff : (∃ d, way.perform step c = .ok () d) ↔ step.Possible way c := by
  cases step with
  | refused place cause =>
    refine iff_of_false ?_ id
    rintro ⟨d, hd⟩
    cases hd
  | bound name value =>
    cases way with
    | declare => exact iff_of_true ⟨_, rfl⟩ (by simp [Step.Possible])
    | assign =>
      have hvar : (c.assign? name value).isSome ↔ ∃ f ∈ c.frames, name ∈ f.vars.names :=
        Chain.isSome_assign?_iff
      cases hd : c.assign? name value with
      | some d =>
        rw [hd] at hvar
        exact iff_of_true ⟨d, perform_assign_of_some hd⟩ fun _ => hvar.1 rfl
      | none =>
        rw [hd] at hvar
        refine iff_of_false (fun ⟨d, h⟩ => ?_) fun h => absurd (hvar.2 (h rfl)) (by simp)
        rw [perform_assign_of_none hd] at h
        cases h

-- No step makes another one possible or impossible.
theorem possible_iff_of_perform (h : way.perform step c = .ok () d) (other : Step) :
    other.Possible way d ↔ other.Possible way c := by
  cases other with
  | refused place cause => rfl
  | bound n v =>
    cases way with
    | declare => exact iff_of_true (by simp [Step.Possible]) (by simp [Step.Possible])
    | assign =>
      cases step with
      | refused place cause => cases h
      | bound name value =>
        simp only [perform] at h
        split at h
        · rename_i hd
          cases h
          simp only [Step.Possible, Chain.exists_mem_vars_of_assign? hd]
        · cases h

-- All steps are taken just where each of them can be taken at the start.
theorem exists_performAll_iff (way : Binding) (xs : List Step) (c : Chain Value) :
    (∃ d, way.performAll xs c = .ok () d) ↔ ∀ step ∈ xs, step.Possible way c := by
  induction xs generalizing c with
  | nil => exact iff_of_true ⟨c, rfl⟩ (by simp)
  | cons x xs ih =>
    rw [performAll, List.forall_mem_cons, ← exists_perform_iff (c := c)]
    cases hx : way.perform x c with
    | error e d =>
      rw [bind_eq_of_error hx]
      simp
    | ok _ d =>
      rw [bind_eq_of_ok hx, ih]
      simp only [possible_iff_of_perform hx, EStateM.Result.ok.injEq, exists_eq', true_and]

end Possible

-- Names that are bound to null, one after the other.
theorem performAll_declare (names : List String) (c : Chain Value) :
    performAll .declare (names.map (.bound · .null)) c =
      .ok () (names.foldl (fun c n => c.declare n .null) c) := by
  induction names generalizing c with
  | nil => rfl
  | cons n ns ih => exact ih (c.declare n .null)

-- Variables that are changed one after the other, the later value for a name being the one that
-- stays.
theorem reassigned_of_performAll {news : Bindings Value} {c d : Chain Value}
    (h : performAll .assign (news.map fun b => .bound b.1 b.2) c = .ok () d) :
    Reassigned news.reverse c.frames d.frames := by
  induction news generalizing c with
  | nil =>
    cases h
    exact .refl _
  | cons b news ih =>
    rw [List.map_cons, performAll] at h
    cases hc : c.assign? b.1 b.2 with
    | none =>
      rw [bind_eq_of_error (perform_assign_of_none hc)] at h
      cases h
    | some c' =>
      rw [bind_eq_of_ok (perform_assign_of_some hc)] at h
      rw [List.reverse_cons]
      exact (Chain.reassigned_of_assign? hc).trans (ih h)

end Binding

open Binding

mutual

-- The steps of binding a target to a value; without a value every name is bound to null. Where a
-- tuple of targets does not fit its value, that comes before anything is bound in it.
def steps : Node → Option Value → List Step
  | .ident _ name, value => [.bound name.shown (value.getD .null)]
  | .tuple _ (.list targets), none => stepsAll targets (List.replicate targets.length none)
  | .tuple place (.list targets), some (.tuple items) =>
    if items.length = targets.length then stepsAll targets (items.map some)
    else [.refused place (.tupleSize items.length targets.length)]
  | .tuple place (.list _), some value =>
    match value.kind with
    | .ok kind => [.refused place (.notDestructurable kind)]
    | .error _ => []
  | _, _ => []

def stepsAll : List Node → List (Option Value) → List Step
  | target :: targets, value :: values => steps target value ++ stepsAll targets values
  | _, _ => []

end

-- The end of steps on the scopes of a state, in that state.
def endIn (s : State) :
    EStateM.Result Failure (Chain Value) Unit → EStateM.Result Failure State Unit
  | .ok () c => .ok () (s.withScopes c)
  | .error e c => .error e (s.withScopes c)

-- A computation does to the scopes what these steps do, and ends as they do. All else that it
-- changes is the trace.
def Performs (way : Binding) (m : Eval Unit) (steps : List Step) : Prop :=
  ∀ s, ∃ trace, m s = endIn { s with trace } (way.performAll steps s.scopes)

-- An event that shows a value with a text changes at most the trace.
theorem exists_emit_eq {event : Event} {value : Value} (hvalues : event.values = [value])
    (htext : value.hasText) (level : Int) (s : State) :
    ∃ trace, emit level event s = .ok () { s with trace } := by
  have hfault : event.fault? = none := by
    cases event with
    | defined name parameters => exact absurd hvalues (by simp [Event.values])
    | _ => simp only [Event.fault?, hvalues, Value.haveText, htext, Bool.and_self, if_true]
  have hemit : emit level event s = .ok () (emitted level event s) :=
    congrFun (emit_eq_modify hfault) s
  rw [hemit, emitted]
  split
  · exact ⟨s.trace.push event, rfl⟩
  · exact ⟨s.trace, rfl⟩

namespace Performs

variable {way : Binding} {m k : Eval Unit} {xs ys : List Step}

theorem nil : Performs way (pure ()) [] := fun s => ⟨s.trace, rfl⟩

theorem append (hm : Performs way m xs) (hk : Performs way k ys) :
    Performs way (m >>= fun _ => k) (xs ++ ys) := by
  intro s
  obtain ⟨trace, hfirst⟩ := hm s
  rw [performAll_append]
  simp only [Bind.bind, EStateM.bind, hfirst]
  cases hxs : way.performAll xs s.scopes with
  | ok _ c => exact hk (({ s with trace } : State).withScopes c)
  | error e c => exact ⟨trace, rfl⟩

theorem refused (place : Place) (cause : Error.Cause) :
    Performs way (located place (fail cause)) [.refused place cause] :=
  fun s => ⟨s.trace, rfl⟩

-- Binding a name is one step, and then at most a line in the trace.
theorem bindName (level : Int) (way : Binding) (name : String) {value : Value}
    (htext : value.hasText) :
    Performs way (Eval.bindName level way (.str name) value) [.bound name value] := by
  intro s
  cases way with
  | declare =>
    have hvalues : (Event.declared name value).values = [value] := rfl
    obtain ⟨trace, htrace⟩ :=
      exists_emit_eq hvalues htext level (s.withScopes (s.scopes.declare name value))
    exact ⟨trace, htrace⟩
  | assign =>
    have hassign := assign_eq (.str name) value s
    cases hd : s.scopes.assign? name value with
    | none =>
      rw [Name.lookup_str_of_none hd] at hassign
      refine ⟨s.trace, (bind_eq_of_error hassign).trans ?_⟩
      rw [performAll_singleton, perform_assign_of_none hd]
      rfl
    | some d =>
      rw [Name.lookup_str_of_some hd] at hassign
      have hvalues : (Event.assigned name value).values = [value] := rfl
      obtain ⟨trace, htrace⟩ := exists_emit_eq hvalues htext level (s.withScopes d)
      refine ⟨trace, (bind_eq_of_ok hassign).trans (htrace.trans ?_)⟩
      rw [performAll_singleton, perform_assign_of_some hd]
      rfl

theorem bindAll {level : Int} {targets : List Node} {values : List (Option Value)}
    (h : ∀ target ∈ targets, ∀ value, (∀ v ∈ value, v.hasText) →
      Performs way (bind level way target value) (steps target value))
    (htexts : ∀ value ∈ values, ∀ v ∈ value, v.hasText) :
    Performs way (Eval.bindAll level way targets values) (stepsAll targets values) := by
  induction targets generalizing values with
  | nil =>
    rw [Eval.bindAll, stepsAll]
    · exact nil
    · simp
    · simp
  | cons target targets ih =>
    cases values with
    | nil =>
      rw [Eval.bindAll, stepsAll]
      · exact nil
      · simp
      · simp
    | cons value values =>
      rw [List.forall_mem_cons] at h htexts
      rw [Eval.bindAll, stepsAll]
      exact (h.1 value htexts.1).append (ih h.2 htexts.2)

end Performs

-- Binding a target takes its steps in order, up to the first that fails.
theorem performs_bind (level : Int) (way : Binding) {target : Node} (h : target.IsPattern)
    {value : Option Value} (htext : ∀ v ∈ value, v.hasText) :
    Performs way (bind level way target value) (steps target value) := by
  induction h generalizing value with
  | ident place name =>
    have hvalue : (value.getD .null).hasText := by
      cases value with
      | none => rfl
      | some v => exact htext v rfl
    rw [bind, steps]
    exact .bindName level way name hvalue
  | @tuple place targets _ ih =>
    have hall {values : List (Option Value)} (hvalues : ∀ value ∈ values, ∀ v ∈ value, v.hasText) :
        Performs way (bindItems level way (.list targets) values) (stepsAll targets values) := by
      rw [bindItems]
      exact .bindAll (fun t ht value => ih t ht) hvalues
    cases value with
    | none =>
      rw [bind, steps]
      refine hall fun value hvalue => ?_
      simp [List.eq_of_mem_replicate hvalue]
    | some v =>
      have hv : v.hasText := htext v rfl
      by_cases htuple : ∃ items, v = .tuple items
      · obtain ⟨items, rfl⟩ := htuple
        rw [bind, steps]
        simp only [Items.size?]
        split
        · rw [Value.map_given hv]
          refine hall fun value hvalue => ?_
          obtain ⟨w, hw, rfl⟩ := List.mem_map.1 hvalue
          intro u hu
          exact Option.some.inj hu ▸ Value.hasText_of_mem hv hw
        · exact .refused place _
      · obtain ⟨kind, hkind⟩ := Value.exists_kind_of_hasText hv
        rw [bind, steps, hkind]
        · exact .refused place _
        · rintro items rfl
          exact htuple ⟨items, rfl⟩
        · rintro items rfl
          exact htuple ⟨items, rfl⟩

-- Without a value every name in the target is bound to null.
theorem steps_none {target : Node} (h : target.IsPattern) :
    steps target none = target.boundNames.map (.bound · .null) := by
  induction h with
  | ident place name => rfl
  | @tuple place targets heach ih =>
    rw [steps, Node.boundNames]
    induction targets with
    | nil => rfl
    | cons target targets ihs =>
      rw [List.forall_mem_cons] at heach ih
      rw [List.length_cons, List.replicate_succ, stepsAll, Node.boundNamesAll, List.map_append,
        ih.1, ihs heach.2 ih.2]

section Simultaneous

-- A target for each of these names at these places.
def targetsOf (names : List (Place × String)) : List Node :=
  names.map fun n => .ident n.1 (.str n.2)

theorem isPattern_targetsOf (place : Place) (names : List (Place × String)) :
    (Node.tuple place (.list (targetsOf names))).IsPattern := by
  refine .tuple place fun target htarget => ?_
  obtain ⟨n, -, rfl⟩ := List.mem_map.1 htarget
  exact .ident n.1 n.2

theorem stepsAll_targetsOf (names : List (Place × String)) (vs : List Value) :
    stepsAll (targetsOf names) (vs.map some) =
      ((names.map Prod.snd).zip vs).map fun b => .bound b.1 b.2 := by
  induction names generalizing vs with
  | nil => simp [targetsOf, stepsAll]
  | cons n names ih =>
    cases vs with
    | nil => simp [targetsOf, stepsAll]
    | cons v vs => exact congrArg (Step.bound n.2 v :: ·) (ih vs)

-- A node that leaves everything as it finds it, but for what is reported, in all states that agree
-- with one. It may fail, but data that is no value does not come of it.
def Harmless (level : Int) (call : Caller) (s : State) (e : Node) : Prop :=
  ∀ t, s.Agrees t → s.Agrees (finalState (eval level call e t)) ∧
    ∀ v u, eval level call e t = .ok v u → v.hasText

-- What a node gives in a state that agrees with `s`.
def Gives (level : Int) (call : Caller) (s : State) (e : Node) (v : Value) : Prop :=
  ∃ t u, s.Agrees t ∧ eval level call e t = .ok v u

-- A node fails in a state that agrees with `s`.
def Fails (level : Int) (call : Caller) (s : State) (e : Node) (failure : Failure) : Prop :=
  ∃ t u, s.Agrees t ∧ eval level call e t = .error failure u

variable {level : Int} {call : Caller} {s t : State} {es : List Node}

theorem agrees_emitted (h : s.Agrees t) (event : Event) : s.Agrees (emitted level event t) := by
  unfold emitted
  split
  · exact ⟨h.scopes, h.input, h.output⟩
  · exact h

-- Harmless nodes all have the values that they have at the start, or one of them fails and nothing
-- else has happened.
theorem evalAll_of_harmless (hes : ∀ e ∈ es, Harmless level call s e) (ht : s.Agrees t) :
    (∃ vs u, evalAll level call es t = .ok vs u ∧ s.Agrees u ∧ Value.haveText vs ∧
      List.Forall₂ (Gives level call s) es vs) ∨
    ∃ e ∈ es, ∃ failure u, Fails level call s e failure ∧
      evalAll level call es t = .error failure u ∧ s.Agrees u := by
  induction es generalizing t with
  | nil => exact .inl ⟨[], t, rfl, ht, rfl, .nil⟩
  | cons e es ih =>
    rw [List.forall_mem_cons] at hes
    obtain ⟨hagrees, htext⟩ := hes.1 t ht
    rw [evalAll]
    cases he : eval level call e t with
    | error failure u =>
      rw [he] at hagrees
      exact .inr ⟨e, List.mem_cons_self, failure, u, ⟨t, u, ht, he⟩, bind_eq_of_error he, hagrees⟩
    | ok v u =>
      rw [he] at hagrees
      rw [bind_eq_of_ok he]
      rcases ih hes.2 hagrees with
        ⟨vs, w, hvs, hw, htexts, hgives⟩ | ⟨e', he', failure, w, hfails, hes, hw⟩
      · have hall : Value.haveText (v :: vs) := by simp [Value.haveText, htext v u he, htexts]
        exact .inl ⟨v :: vs, w, bind_eq_of_ok hvs, hw, hall, .cons ⟨t, u, ht, he⟩ hgives⟩
      · have he' : e' ∈ e :: es := List.mem_cons_of_mem _ he'
        exact .inr ⟨e', he', failure, w, hfails, bind_eq_of_error hes, hw⟩

-- A tuple of harmless nodes is one itself.
theorem eval_tuple_of_harmless (r : Place) (hes : ∀ e ∈ es, Harmless level call s e)
    (ht : s.Agrees t) :
    (∃ vs u, eval level call (.tuple r (.list es)) t = .ok (.tuple vs) u ∧ s.Agrees u ∧
      Value.haveText vs ∧ List.Forall₂ (Gives level call s) es vs) ∨
    ∃ e ∈ es, ∃ failure u, Fails level call s e failure ∧
      eval level call (.tuple r (.list es)) t = .error (failure.locate r) u ∧ s.Agrees u := by
  have hstart : s.Agrees (emitted level (.visited "TupleLit" r) t) := agrees_emitted ht _
  have htuple : eval level call (.tuple r (.list es)) t =
      located r (evalAll level call es >>= fun vs => pure (.tuple vs))
        (emitted level (.visited "TupleLit" r) t) := by
    rw [eval.eq_def, visit_eq rfl]
    rfl
  rw [htuple]
  rcases evalAll_of_harmless hes hstart with
    ⟨vs, u, hvs, hu, htexts, hgives⟩ | ⟨e, he, failure, u, hfails, hes, hu⟩
  · refine .inl ⟨vs, u, ?_, hu, htexts, hgives⟩
    simp only [located, bind_eq_of_ok hvs]
    rfl
  · refine .inr ⟨e, he, failure, u, hfails, ?_, hu⟩
    simp only [located, bind_eq_of_error hes]

-- Assigning a tuple of values to distinct variables changes them all at once.
theorem bind_targetsOf (level : Int) (q : Place) {names : List (Place × String)}
    (hdistinct : (names.map Prod.snd).Nodup)
    (hvars : ∀ n ∈ names, ∃ f ∈ s.scopes.frames, n.2 ∈ f.vars.names) {vs : List Value}
    (hsize : vs.length = names.length) (htexts : Value.haveText vs) :
    ∃ t, bind level .assign (.tuple q (.list (targetsOf names))) (some (.tuple vs)) s = .ok () t ∧
      Reassigned ((names.map Prod.snd).zip vs) s.scopes.frames t.scopes.frames ∧
      (∀ b ∈ (names.map Prod.snd).zip vs, t.scopes.var? b.1 = some b.2) ∧
      t.input = s.input ∧ t.output = s.output := by
  have hsteps : steps (.tuple q (.list (targetsOf names))) (some (.tuple vs)) =
      ((names.map Prod.snd).zip vs).map fun b => .bound b.1 b.2 := by
    rw [steps, if_pos (by simpa [targetsOf] using hsize), stepsAll_targetsOf]
  have hnews : ∀ b ∈ (names.map Prod.snd).zip vs, ∃ f ∈ s.scopes.frames, b.1 ∈ f.vars.names := by
    intro b hb
    obtain ⟨n, hn, hname⟩ := List.mem_map.1 (List.of_mem_zip hb).1
    exact hname ▸ hvars n hn
  have hpossible : ∀ step ∈ ((names.map Prod.snd).zip vs).map fun b => Step.bound b.1 b.2,
      step.Possible .assign s.scopes := by
    intro step hstep
    obtain ⟨b, hb, rfl⟩ := List.mem_map.1 hstep
    exact fun _ => hnews b hb
  obtain ⟨c, hc⟩ := (exists_performAll_iff .assign _ s.scopes).2 hpossible
  have htext : ∀ v ∈ some (Value.tuple vs), v.hasText := by simpa [Value.hasText] using htexts
  obtain ⟨trace, hbind⟩ := performs_bind level .assign (isPattern_targetsOf q names) htext s
  rw [hsteps, hc] at hbind
  have hnodup : (Bindings.names ((names.map Prod.snd).zip vs)).Nodup := by
    have hnames : Bindings.names ((names.map Prod.snd).zip vs) = names.map Prod.snd :=
      List.map_fst_zip (by simp [hsize])
    rwa [hnames]
  have hreassigned := (reassigned_of_performAll hc).congr (Bindings.get?_reverse hnodup)
  have hvalues (b : String × Value) (hb : b ∈ (names.map Prod.snd).zip vs) :
      c.var? b.1 = some b.2 :=
    hreassigned.var?_of_mem hnodup hb (hnews b hb)
  exact ⟨_, hbind, hreassigned, hvalues, rfl, rfl⟩

-- A name that is bound.
theorem eval_ident_of_lookup {place : Place} {name : String} {v : Value}
    (h : t.scopes.lookup? name = some v) :
    eval level call (.ident place (.str name)) t =
      .ok v (emitted level (.visited "Ident" place) t) := by
  have hlookup : Name.lookup (emitted level (.visited "Ident" place) t).scopes.lookup? (.str name) =
      .ok v := by
    rw [scopes_emitted]
    exact Name.lookup_str_of_some h
  have hvisit : eval level call (.ident place (.str name)) t =
      located place (lookup (.str name)) (emitted level (.visited "Ident" place) t) := by
    rw [eval.eq_def, visit_eq rfl]
    rfl
  rw [hvisit, located, lookup_eq, hlookup]

theorem harmless_ident (level : Int) (call : Caller) (place : Place) {name : String} {v : Value}
    (h : s.scopes.lookup? name = some v) (htext : v.hasText) :
    Harmless level call s (.ident place (.str name)) := by
  intro t ht
  rw [eval_ident_of_lookup (ht.scopes ▸ h)]
  refine ⟨agrees_emitted ht _, fun w u hw => ?_⟩
  cases hw
  exact htext

-- A target is bound step by step from left to right, and assigning a tuple of harmless nodes to a
-- tuple of distinct variables changes them all at once.
theorem bind_left_to_right {way : Binding} {target : Node} (htarget : target.IsPattern)
    {value : Option Value} (htext : ∀ v ∈ value, v.hasText) {p q r : Place}
    {names : List (Place × String)} (hdistinct : (names.map Prod.snd).Nodup)
    (hvars : ∀ n ∈ names, ∃ f ∈ s.scopes.frames, n.2 ∈ f.vars.names)
    (hsize : es.length = names.length) (hes : ∀ e ∈ es, Harmless level call s e) :
    (∃ trace, bind level way target value s =
      endIn { s with trace } (way.performAll (steps target value) s.scopes)) ∧
    ((∃ t, bind level way target value s = .ok () t) ↔
      ∀ step ∈ steps target value, step.Possible way s.scopes) ∧
    (∃ trace, bind level .declare target none s =
      .ok () { s with
        trace, scopes := target.boundNames.foldl (fun c n => c.declare n .null) s.scopes }) ∧
    ((∃ vs t, List.Forall₂ (Gives level call s) es vs ∧
      eval level call (.assign p (.tuple q (.list (targetsOf names))) (.tuple r (.list es))) s =
        .ok .null t ∧
      Reassigned ((names.map Prod.snd).zip vs) s.scopes.frames t.scopes.frames ∧
      (∀ b ∈ (names.map Prod.snd).zip vs, t.scopes.var? b.1 = some b.2) ∧
      t.input = s.input ∧ t.output = s.output) ∨
    ∃ e ∈ es, ∃ failure t, Fails level call s e failure ∧
      eval level call (.assign p (.tuple q (.list (targetsOf names))) (.tuple r (.list es))) s =
        .error ((failure.locate r).locate p) t ∧
      s.Agrees t) := by
  obtain ⟨trace, hbind⟩ := performs_bind level way htarget htext s
  have hnone : ∀ v ∈ (none : Option Value), v.hasText := by simp
  obtain ⟨later, hnull⟩ := performs_bind level .declare htarget hnone s
  rw [steps_none htarget, performAll_declare] at hnull
  refine ⟨⟨trace, hbind⟩, ?_, ⟨later, hnull⟩, ?_⟩
  · rw [← exists_performAll_iff, hbind]
    cases way.performAll (steps target value) s.scopes with
    | ok _ c => exact iff_of_true ⟨_, rfl⟩ ⟨c, rfl⟩
    | error e c => exact iff_of_false (by simp [endIn]) (by simp)
  · have hstart : s.Agrees (emitted level (.visited "Assign" p) s) :=
      agrees_emitted ⟨rfl, rfl, rfl⟩ _
    have hassign : eval level call
        (.assign p (.tuple q (.list (targetsOf names))) (.tuple r (.list es))) s =
        located p (eval level call (.tuple r (.list es)) >>= fun v => do
          bind level .assign (.tuple q (.list (targetsOf names))) v.given
          pure .null) (emitted level (.visited "Assign" p) s) := by
      rw [eval.eq_def, visit_eq rfl]
      rfl
    rw [hassign]
    rcases eval_tuple_of_harmless r hes hstart with
      ⟨vs, u, hvs, hu, htexts, hgives⟩ | ⟨e, he, failure, u, hfails, hvs, hu⟩
    · have hnumber : vs.length = names.length := hgives.length_eq ▸ hsize
      obtain ⟨t, ht, hnews, hvalues, hinput, houtput⟩ :=
        bind_targetsOf level q hdistinct (hu.scopes ▸ hvars) hnumber htexts
      refine .inl ⟨vs, t, hgives, ?_, hu.scopes ▸ hnews, hvalues, hinput.trans hu.input,
        houtput.trans hu.output⟩
      simp only [located, bind_eq_of_ok hvs, Value.given, bind_eq_of_ok ht]
      rfl
    · refine .inr ⟨e, he, failure, u, hfails, ?_, hu⟩
      simp only [located, bind_eq_of_error hvs]

theorem eq_of_gives_ident {place : Place} {name : String} {v w : Value}
    (h : s.scopes.lookup? name = some v) (hw : Gives level call s (.ident place (.str name)) w) :
    w = v := by
  obtain ⟨t, u, ht, hrun⟩ := hw
  rw [eval_ident_of_lookup (ht.scopes ▸ h)] at hrun
  cases hrun
  rfl

theorem not_fails_ident {place : Place} {name : String} {v : Value}
    (h : s.scopes.lookup? name = some v) (failure : Failure) :
    ¬Fails level call s (.ident place (.str name)) failure := by
  rintro ⟨t, u, ht, hrun⟩
  rw [eval_ident_of_lookup (ht.scopes ▸ h)] at hrun
  cases hrun

-- Two variables change places; and where the inner one of two tuples does not fit, what stands
-- before it is changed, and nothing after it.
theorem swapped_and_half_changed :
    let start : State :=
      { scopes := ⟨⟨[("x", .int 1), ("y", .int 2)], []⟩, []⟩,
        input := [], output := "", trace := #[] }
    let name (s : String) : Node := .ident .unknown (.str s)
    (∃ t, eval 0 (fun _ _ => pure .null)
        (.assign .unknown
          (.tuple .unknown (.list (targetsOf [(.unknown, "x"), (.unknown, "y")])))
          (.tuple .unknown (.list [name "y", name "x"]))) start = .ok .null t ∧
      t.scopes.var? "x" = some (.int 2) ∧ t.scopes.var? "y" = some (.int 1)) ∧
    ∃ u, bind 0 .assign
        (.tuple .unknown (.list [name "x", .tuple .unknown (.list [name "y", name "x"])]))
        (some (.tuple [.int 5, .int 6])) start = .error (.ofCause (.notDestructurable .integer)) u ∧
      u.scopes.var? "x" = some (.int 5) ∧ u.scopes.var? "y" = some (.int 2) := by
  intro start name
  have hx : start.scopes.lookup? "x" = some (.int 1) := by rfl
  have hy : start.scopes.lookup? "y" = some (.int 2) := by rfl
  have htarget : (Node.tuple .unknown
      (.list [name "x", .tuple .unknown (.list [name "y", name "x"])])).IsPattern := by
    have hname (s : String) : (name s).IsPattern := .ident .unknown s
    refine .tuple .unknown (List.forall_mem_cons.2 ⟨hname "x", List.forall_mem_singleton.2 ?_⟩)
    exact .tuple .unknown
      (List.forall_mem_cons.2 ⟨hname "y", List.forall_mem_singleton.2 (hname "x")⟩)
  have hes : ∀ e ∈ [name "y", name "x"], Harmless 0 (fun _ _ => pure .null) start e :=
    List.forall_mem_cons.2 ⟨harmless_ident 0 _ _ hy rfl,
      List.forall_mem_singleton.2 (harmless_ident 0 _ _ hx rfl)⟩
  have htext : ∀ v ∈ some (Value.tuple [.int 5, .int 6]), v.hasText := by
    simp [Value.hasText, Value.haveText]
  have hdistinct : ([(Place.unknown, "x"), (.unknown, "y")].map Prod.snd).Nodup := by decide
  have hvars : ∀ n ∈ [(Place.unknown, "x"), (.unknown, "y")],
      ∃ f ∈ start.scopes.frames, n.2 ∈ f.vars.names := by
    simp [start, Chain.frames, Bindings.names]
  obtain ⟨⟨trace, hbind⟩, -, -, hend⟩ := @bind_left_to_right 0 (fun _ _ => pure .null) start _
    .assign _ htarget _ htext .unknown .unknown .unknown _ hdistinct hvars rfl hes
  have hend' : endIn { start with trace } (performAll .assign
      (steps (.tuple .unknown (.list [name "x", .tuple .unknown (.list [name "y", name "x"])]))
        (some (.tuple [.int 5, .int 6]))) start.scopes) =
      .error (.ofCause (.notDestructurable .integer)) { start with
        trace, scopes := ⟨⟨[("x", .int 5), ("y", .int 2)], []⟩, []⟩ } := by
    rfl
  refine ⟨?_, _, hbind.trans hend', by rfl, by rfl⟩
  · rcases hend with ⟨vs, t, hgives, hrun, -, hvalues, -⟩ | ⟨e, he, failure, t, hfails, -⟩
    · refine ⟨t, hrun, ?_⟩
      cases hgives with
      | cons hfirst hrest =>
        cases hrest with
        | cons hsecond hrest =>
          cases hrest
          obtain rfl := eq_of_gives_ident hy hfirst
          obtain rfl := eq_of_gives_ident hx hsecond
          exact ⟨hvalues ("x", .int 2) (by simp), hvalues ("y", .int 1) (by simp)⟩
    · rcases List.mem_cons.1 he with rfl | he
      · exact absurd hfails (not_fails_ident hy failure)
      · exact absurd (List.mem_singleton.1 he ▸ hfails) (not_fails_ident hx failure)

end Simultaneous

end Eval

end TernLang
