import TernLang.Proofs.Eval.Points
import TernLang.Proofs.Eval.Scoping
import TernLang.Proofs.Scope.Contents
import TernLang.Proofs.Syntax.Throughout
import TernLang.Proofs.Value.Guarded

-- Computations with integers that all fit a word. Evaluation of a node makes no others, if what the
-- node leads to makes none and no length is taken that a word cannot hold.

namespace TernLang

-- All names are bound to values that fit.
def State.Fits (s : State) : Prop := s.scopes.Each Value.Fits

theorem State.Fits.push {s : State} (h : s.Fits) {frame : Frame Value}
    (hframe : frame.Each Value.Fits) : State.Fits { s with scopes := s.scopes.push frame } :=
  Chain.Each.push h hframe

namespace Eval

-- From a state on, a computation keeps all names bound to values that fit, whether it ends well or
-- not, and `P` holds of what it gives.
def Safe {α : Type} (P : α → Prop) (m : Eval α) (s : State) : Prop :=
  match m s with
  | .ok a t => P a ∧ t.Fits
  | .error _ t => t.Fits

namespace Safe

variable {α β : Type} {P : α → Prop} {Q : β → Prop} {m : Eval α} {s : State}

theorem fits_of_ok (h : Safe P m s) {a : α} {t : State} (hrun : m s = .ok a t) : P a ∧ t.Fits := by
  unfold Safe at h
  rwa [hrun] at h

theorem fits_finalState (h : Safe P m s) : (finalState (m s)).Fits := by
  unfold Safe at h
  cases hrun : m s with
  | ok a t =>
    rw [hrun] at h
    exact h.2
  | error e t =>
    rw [hrun] at h
    exact h

theorem pure {a : α} (h : P a) (hs : s.Fits) : Safe P (Pure.pure a) s := ⟨h, hs⟩

theorem throw (e : Failure) (hs : s.Fits) : Safe P (MonadExcept.throw e) s := hs

theorem fail (cause : Error.Cause) (hs : s.Fits) : Safe P (Eval.fail cause) s := hs

theorem bind {f : α → Eval β} (hm : Safe P m s)
    (hf : ∀ a t, m s = .ok a t → P a → t.Fits → Safe Q (f a) t) : Safe Q (m >>= f) s := by
  unfold Safe at hm ⊢
  simp only [Bind.bind, EStateM.bind]
  cases hrun : m s with
  | ok a t =>
    rw [hrun] at hm
    exact hf a t hrun hm.1 hm.2
  | error e t =>
    rw [hrun] at hm
    exact hm

theorem lift {x : Except Failure α} (h : Grants P x) (hs : s.Fits) : Safe P (Eval.lift x) s := by
  cases x with
  | ok a => exact ⟨h, hs⟩
  | error e => exact hs

-- A computation that has nothing to do with scopes.
theorem quiet (h : Quiet m) (hs : s.Fits) : Safe (fun _ => True) m s := by
  have hscopes := h.blind.scopes s
  unfold Safe
  cases hrun : m s with
  | ok a t =>
    rw [hrun] at hscopes
    exact ⟨trivial, by rw [State.Fits, show t.scopes = s.scopes from hscopes]; exact hs⟩
  | error e t =>
    rw [hrun] at hscopes
    show t.Fits
    rw [State.Fits, show t.scopes = s.scopes from hscopes]
    exact hs

theorem emit (level : Int) (event : Event) (hs : s.Fits) :
    Safe (fun _ => True) (Eval.emit level event) s := quiet (.emit level event) hs

theorem located (place : Place) (hm : Safe P m s) : Safe P (Eval.located place m) s := by
  unfold Safe Eval.located at *
  cases hrun : m s <;> simpa only [hrun] using hm

theorem inScope {frame : Frame Value}
    (hm : Safe P m { s with scopes := s.scopes.push frame }) : Safe P (Eval.inScope frame m) s := by
  unfold Safe Eval.inScope at *
  cases hrun : m { s with scopes := s.scopes.push frame } with
  | ok a t =>
    rw [hrun] at hm
    exact ⟨hm.1, hm.2.pop⟩
  | error e t =>
    rw [hrun] at hm
    exact Chain.Each.pop hm

theorem lookup (name : Tree) (hs : s.Fits) : Safe Value.Fits (Eval.lookup name) s := by
  unfold Safe
  rw [lookup_eq]
  cases hname : name.text? with
  | none =>
    obtain ⟨e, he⟩ := Name.exists_lookup_error hname
    rw [he]
    exact hs
  | some text =>
    obtain rfl := Tree.eq_str_of_text? hname
    cases hfound : s.scopes.lookup? text with
    | some v =>
      rw [Name.lookup_str_of_some hfound]
      exact ⟨hs.of_lookup? hfound, hs⟩
    | none =>
      rw [Name.lookup_str_of_none hfound]
      exact hs

theorem declare (name : Tree) {v : Value} (hv : v.Fits) (hs : s.Fits) :
    Safe (fun _ => True) (Eval.declare name v) s := by
  unfold Eval.declare
  refine (lift (.any _) hs).bind fun text t _ _ ht => ?_
  exact ⟨trivial, Chain.Each.declare ht hv⟩

theorem assign (name : Tree) {v : Value} (hv : v.Fits) (hs : s.Fits) :
    Safe (fun _ => True) (Eval.assign name v) s := by
  unfold Safe
  rw [assign_eq]
  cases hname : name.text? with
  | none =>
    obtain ⟨e, he⟩ := Name.exists_lookup_error hname
    rw [he]
    exact hs
  | some text =>
    obtain rfl := Tree.eq_str_of_text? hname
    cases hfound : s.scopes.assign? text v with
    | some c =>
      rw [Name.lookup_str_of_some hfound]
      exact ⟨trivial, hs.of_assign? hv hfound⟩
    | none =>
      rw [Name.lookup_str_of_none hfound]
      exact hs

theorem result {x : Except Failure Value} (h : Grants Value.Fits x) (hs : s.Fits) :
    Safe Value.Fits (Eval.result x) s := by
  refine (lift h hs).bind fun v t _ hv ht => ?_
  exact ⟨hv.number t.results, ht⟩

theorem noItems (first : Fault) (items : Tree) (hs : s.Fits) :
    Safe (fun _ => True) (Eval.noItems first items) s := by
  cases items with
  | str text =>
    rw [Eval.noItems]
    split
    · exact pure trivial hs
    · exact throw _ hs
  | _ => exact throw _ hs

theorem builtinCall (b : Builtin) {args : List Value} (hargs : ∀ v ∈ args, v.Fits) (hs : s.Fits) :
    Safe Value.Fits (b.call args) s := by
  cases b with
  | print =>
    refine (lift (.any _) hs).bind fun text t _ _ ht => ?_
    exact (quiet (.write _) ht).bind fun _ u _ _ hu => pure .null hu
  | input =>
    refine (lift (.any _) hs).bind fun text t _ _ ht => ?_
    refine (quiet (.write _) ht).bind fun _ u _ _ hu => ?_
    exact (quiet .readLine hu).bind fun line w _ _ hw => pure (.str line) hw
  | tup => exact pure (.tuple hargs) hs

end Safe

theorem fits_emitted {s : State} (level : Int) (event : Event) (hs : s.Fits) :
    (emitted level event s).Fits := by
  rw [State.Fits, scopes_emitted]
  exact hs

theorem fits_visited {node : Node} {s : State} (level : Int) (hs : s.Fits) :
    (visited level node s).Fits := by
  rw [State.Fits, scopes_visited]
  exact hs

theorem fits_entered {node : Node} {s : State} (level : Int) (hs : s.Fits) :
    (entered level node s).Fits := by
  cases node with
  | block => exact (fits_visited level hs).push .empty
  | _ => exact fits_visited level hs

section Lists

variable {level : Int} {call : Caller} {s : State}

theorem safe_evalAll {nodes : List Node}
    (h : ∀ m t, Reaches level call nodes s m t → t.Fits → Safe Value.Fits (eval level call m) t)
    (hs : s.Fits) : Safe (fun vs => ∀ v ∈ vs, v.Fits) (evalAll level call nodes) s := by
  induction nodes generalizing s with
  | nil =>
    rw [evalAll]
    exact .pure (by simp) hs
  | cons node nodes ih =>
    rw [evalAll]
    refine (h node s .here hs).bind fun v t hrun hv ht => ?_
    refine (ih (fun m u hu => h m u (.later hrun hu)) ht).bind fun vs u _ hvs hu => ?_
    exact .pure (List.forall_mem_cons.2 ⟨hv, hvs⟩) hu

theorem safe_evalItems {items : Items Node}
    (h : ∀ nodes, items = .list nodes → ∀ m t, Reaches level call nodes s m t → t.Fits →
      Safe Value.Fits (eval level call m) t) (hs : s.Fits) :
    Safe (fun vs => ∀ v ∈ vs, v.Fits) (evalItems level call items) s := by
  cases items with
  | list nodes =>
    rw [evalItems]
    exact safe_evalAll (h nodes rfl) hs
  | other t =>
    rw [evalItems]
    exact (Safe.noItems _ t hs).bind fun _ u _ _ hu => .pure (by simp) hu

theorem safe_evalSequence {nodes : List Node}
    (h : ∀ m t, Reaches level call nodes s m t → t.Fits → Safe Value.Fits (eval level call m) t)
    {last : Value} (hlast : last.Fits) (hs : s.Fits) :
    Safe Value.Fits (evalSequence level call last nodes) s := by
  induction nodes generalizing last s with
  | nil =>
    rw [evalSequence]
    exact .pure hlast hs
  | cons node nodes ih =>
    rw [evalSequence]
    refine (h node s .here hs).bind fun v t hrun hv ht => ?_
    exact ih (fun m u hu => h m u (.later hrun hu)) hv ht

theorem safe_evalBody {items : Items Node}
    (h : ∀ nodes, items = .list nodes → ∀ m t, Reaches level call nodes s m t → t.Fits →
      Safe Value.Fits (eval level call m) t) (hs : s.Fits) :
    Safe Value.Fits (evalBody level call items) s := by
  cases items with
  | list nodes =>
    rw [evalBody]
    exact safe_evalSequence (h nodes rfl) .null hs
  | other t =>
    rw [evalBody]
    exact (Safe.noItems _ t hs).bind fun _ u _ _ hu => .pure .null hu

theorem safe_evalSome {node : Option Node}
    (h : ∀ m ∈ node, Safe Value.Fits (eval level call m) s) (hs : s.Fits) :
    Safe (fun v => ∀ w ∈ v, w.Fits) (evalSome level call node) s := by
  cases node with
  | none =>
    rw [evalSome]
    exact .pure (by simp) hs
  | some m =>
    rw [evalSome]
    exact (h m rfl).bind fun v t _ hv ht => .pure (by simpa using hv) ht

theorem safe_evalParameters {nodes : List Node}
    (h : ∀ m t, ReachesType level call nodes s m t → t.Fits →
      Safe Value.Fits (eval level call m) t) (hs : s.Fits) :
    Safe (fun ps => ∀ q ∈ ps, ∀ v ∈ q.2, v.Fits) (evalParameters level call nodes) s := by
  induction nodes generalizing s with
  | nil =>
    rw [evalParameters]
    exact .pure (by simp) hs
  | cons node nodes ih =>
    cases node with
    | parameter place name type =>
      rw [evalParameters]
      have hsample : Safe (fun v => ∀ w ∈ v, w.Fits) (evalSome level call type) s := by
        refine safe_evalSome (fun m hm => ?_) hs
        obtain rfl := Option.mem_def.1 hm
        exact h m s .here hs
      refine hsample.bind fun v t hrun hv ht => ?_
      refine (ih (fun m u hu => h m u (.later hrun hu)) ht).bind fun ps u _ hps hu => ?_
      exact .pure (List.forall_mem_cons.2 ⟨Value.forall_mem_bind_given hv, hps⟩) hu
    | _ =>
      rw [evalParameters.eq_def]
      exact .throw _ hs

theorem safe_evalParameterItems {items : Items Node}
    (h : ∀ nodes, items = .list nodes → ∀ m t, ReachesType level call nodes s m t → t.Fits →
      Safe Value.Fits (eval level call m) t) (hs : s.Fits) :
    Safe (fun ps => ∀ q ∈ ps, ∀ v ∈ q.2, v.Fits) (evalParameterItems level call items) s := by
  cases items with
  | list nodes =>
    rw [evalParameterItems]
    exact safe_evalParameters (h nodes rfl) hs
  | other t =>
    rw [evalParameterItems]
    exact (Safe.noItems _ t hs).bind fun _ u _ _ hu => .pure (by simp) hu

theorem safe_evalArms {value : Value} {position : Nat} {arms : List Node}
    (h : ∀ m t, ReachesArm level call value position arms s m t → t.Fits →
      Safe Value.Fits (eval level call m) t) (hs : s.Fits) :
    Safe Value.Fits (evalArms level call value position arms) s := by
  induction arms generalizing s position with
  | nil =>
    rw [evalArms]
    exact .pure .null hs
  | cons arm arms ih =>
    cases arm with
    | arm place label body =>
      rw [evalArms]
      refine (h label s .label hs).bind fun v t hrun hv ht => ?_
      cases hlabel : isLabelOf v value with
      | error e => exact .throw e ht
      | ok hit =>
        rw [lift, pure_bind]
        cases hit with
        | true =>
          refine (Safe.emit level _ ht).bind fun _ u hreported _ hu => ?_
          exact h body u (.body hrun hlabel hreported) hu
        | false => exact ih (fun m u hu => h m u (.later hrun hlabel hu)) ht
    | _ =>
      rw [evalArms.eq_def]
      exact .throw _ hs

theorem safe_evalArmItems {value : Value} {items : Items Node}
    (h : ∀ arms, items = .list arms → ∀ m t, ReachesArm level call value 0 arms s m t → t.Fits →
      Safe Value.Fits (eval level call m) t) (hs : s.Fits) :
    Safe Value.Fits (evalArmItems level call value items) s := by
  cases items with
  | list arms =>
    rw [evalArmItems]
    exact safe_evalArms (h arms rfl) hs
  | other t =>
    rw [evalArmItems]
    exact (Safe.noItems _ t hs).bind fun _ u _ _ hu => .pure .null hu

end Lists

section Reached

variable {level : Int} {call : Caller} {s t : State} {m : Node}

theorem fits_of_reaches {nodes : List Node}
    (h : ∀ m t, Reaches level call nodes s m t → t.Fits → Safe Value.Fits (eval level call m) t)
    (hs : s.Fits) (hm : Reaches level call nodes s m t) : t.Fits := by
  induction hm with
  | here => exact hs
  | later first rest ih =>
    have hfirst := ((h _ _ .here hs).fits_of_ok first).2
    exact ih (fun m u hu => h m u (.later first hu)) hfirst

theorem fits_of_reachesType {nodes : List Node}
    (h : ∀ m t, ReachesType level call nodes s m t → t.Fits →
      Safe Value.Fits (eval level call m) t)
    (hs : s.Fits) (hm : ReachesType level call nodes s m t) : t.Fits := by
  induction hm with
  | here => exact hs
  | later first rest ih =>
    have hfirst := (safe_evalSome (fun m hm => ?_) hs).fits_of_ok first
    · exact ih (fun m u hu => h m u (.later first hu)) hfirst.2
    · obtain rfl := Option.mem_def.1 hm
      exact h m _ .here hs

theorem fits_of_reachesArm {value : Value} {position : Nat} {arms : List Node}
    (h : ∀ m t, ReachesArm level call value position arms s m t → t.Fits →
      Safe Value.Fits (eval level call m) t)
    (hs : s.Fits) (hm : ReachesArm level call value position arms s m t) : t.Fits := by
  induction hm with
  | label => exact hs
  | body first hit reported =>
    have hfirst := ((h _ _ .label hs).fits_of_ok first).2
    exact ((Safe.emit level _ hfirst).fits_of_ok reported).2
  | later first missed rest ih =>
    have hfirst := ((h _ _ .label hs).fits_of_ok first).2
    exact ih (fun m u hu => h m u (.later first missed hu)) hfirst

end Reached

section Binding

variable {level : Int} {s : State}

theorem fits_partsOf {targets : Nat} {value : Option Value} (h : ∀ v ∈ value, v.Fits)
    {values : List (Option Value)} (hparts : partsOf targets value = some values) :
    ∀ w ∈ values, ∀ v ∈ w, v.Fits := by
  unfold partsOf at hparts
  split at hparts
  · obtain rfl := Option.some.inj hparts
    exact Value.forall_mem_replicate_none
  · rename_i items
    split at hparts
    · obtain rfl := Option.some.inj hparts
      cases h _ rfl with
      | tuple hitems => exact Value.forall_mem_map_given hitems
    · exact absurd hparts (by simp)
  · exact absurd hparts (by simp)

theorem safe_bindName (way : Binding) (name : Tree) {v : Value} (hv : v.Fits) (hs : s.Fits) :
    Safe (fun _ => True) (bindName level way name v) s := by
  cases way with
  | declare => exact (Safe.declare name hv hs).bind fun _ t _ _ ht => .emit level _ ht
  | assign => exact (Safe.assign name hv hs).bind fun _ t _ _ ht => .emit level _ ht

mutual

theorem safe_bind (way : Binding) (target : Node) {value : Option Value}
    (hvalue : ∀ v ∈ value, v.Fits) {s : State} (hs : s.Fits) :
    Safe (fun _ => True) (bind level way target value) s := by
  rw [bind.eq_def]
  split
  · refine safe_bindName way _ ?_ hs
    cases value with
    | none => exact .null
    | some v => exact hvalue v rfl
  · exact safe_bindItems way _ Value.forall_mem_replicate_none hs
  · rename_i items
    have hitems : ∀ w ∈ items.map Value.given, ∀ v ∈ w, v.Fits := by
      cases hvalue _ rfl with
      | tuple heach => exact Value.forall_mem_map_given heach
    split
    · split
      · exact safe_bindItems way _ hitems hs
      · exact (Safe.fail _ hs).located _
    · exact .throw _ hs
  · exact (Safe.lift (.any _) hs).bind fun _ t _ _ ht => (Safe.fail _ ht).located _
  · exact .throw _ hs
  · exact (Safe.fail _ hs).located _

theorem safe_bindItems (way : Binding) (targets : Items Node) {values : List (Option Value)}
    (hvalues : ∀ w ∈ values, ∀ v ∈ w, v.Fits) {s : State} (hs : s.Fits) :
    Safe (fun _ => True) (bindItems level way targets values) s := by
  cases targets with
  | list targets =>
    rw [bindItems]
    exact safe_bindAll way targets hvalues hs
  | other t =>
    rw [bindItems]
    exact .noItems _ t hs

theorem safe_bindAll (way : Binding) (targets : List Node) {values : List (Option Value)}
    (hvalues : ∀ w ∈ values, ∀ v ∈ w, v.Fits) {s : State} (hs : s.Fits) :
    Safe (fun _ => True) (bindAll level way targets values) s := by
  cases targets with
  | nil =>
    rw [bindAll.eq_def]
    exact .pure trivial hs
  | cons target targets =>
    cases values with
    | nil =>
      rw [bindAll.eq_def]
      exact .pure trivial hs
    | cons value values =>
      rw [List.forall_mem_cons] at hvalues
      rw [bindAll]
      exact (safe_bind way target hvalues.1 hs).bind fun _ t _ _ ht =>
        safe_bindAll way targets hvalues.2 ht

end

theorem fits_of_reachesTarget {way : Binding} {targets : List Node} {values : List (Option Value)}
    {m : Node} {w : Option Value} {t : State}
    (h : ReachesTarget level way targets values s m w t)
    (hvalues : ∀ w ∈ values, ∀ v ∈ w, v.Fits) (hs : s.Fits) : (∀ v ∈ w, v.Fits) ∧ t.Fits := by
  induction h with
  | here => exact ⟨hvalues _ List.mem_cons_self, hs⟩
  | later first _ ih =>
    rw [List.forall_mem_cons] at hvalues
    exact ih hvalues.2 ((safe_bind way _ hvalues.1 hs).fits_of_ok first).2

end Binding

section Nodes

variable {level limit : Int}

theorem grants_receive (p : Procedure Value) {frame : Frame Value} (hframe : frame.Each Value.Fits)
    {parameters : List (Tree × Option Value)} {args : List Value} (hargs : ∀ v ∈ args, v.Fits) :
    Grants (Frame.Each Value.Fits) (p.receive frame parameters args) := by
  induction parameters generalizing frame args with
  | nil =>
    rw [Procedure.receive.eq_def]
    exact hframe
  | cons parameter parameters ih =>
    cases args with
    | nil =>
      rw [Procedure.receive.eq_def]
      exact hframe
    | cons arg args =>
      obtain ⟨name, sample⟩ := parameter
      rw [List.forall_mem_cons] at hargs
      rw [Procedure.receive]
      exact (Grants.any _).bind fun _ _ => (Grants.any _).bind fun bound _ =>
        ih (hframe.declare hargs.1) hargs.2

theorem grants_frame (p : Procedure Value) {args : List Value} (hargs : ∀ v ∈ args, v.Fits) :
    Grants (Frame.Each Value.Fits) (p.frame args) := by
  unfold Procedure.frame
  split
  · exact grants_receive p .empty hargs
  · trivial

theorem everywhere_of_body {p : Procedure Value} (hp : (Value.function p).Fits) {q : Place}
    {statements : List Node} (hblock : p.body = .block q (.list statements)) :
    ∀ m ∈ statements, m.Everywhere Node.LiteralFits := by
  cases hp with
  | function hsamples hresult hbody =>
    have hstatements : (Node.block q (.list statements)).Everywhere Node.LiteralFits :=
      hblock ▸ hbody
    exact hstatements.below

-- A call is safe if the statements of the body are, where they come up in it.
theorem safe_calling {p : Procedure Value} {args : List Value} {body : Frame Value → Eval Value}
    {s : State} (hargs : ∀ v ∈ args, v.Fits) (hs : s.Fits)
    (hbody : ∀ frame t, p.frame args = .ok frame → emit level (.called p.name args) s = .ok () t →
      frame.Each Value.Fits → t.Fits → Safe Value.Fits (body frame) t) :
    Safe Value.Fits (calling level p args body) s := by
  have hgranted := grants_frame p hargs
  unfold calling
  cases hframe : p.frame args with
  | error e => exact .throw e hs
  | ok frame =>
    rw [hframe] at hgranted
    rw [lift, pure_bind]
    refine (Safe.emit level _ hs).bind fun _ t hreported _ ht => ?_
    refine (hbody frame t hframe hreported hgranted ht).bind fun v u _ hv hu => ?_
    refine (Safe.lift (.any _) hu).bind fun _ w _ _ hw => ?_
    exact (Safe.emit level _ hw).bind fun _ x _ _ hx => .pure hv hx

theorem safe_invoke {room : Nat} {p : Procedure Value} {args : List Value} {s : State}
    (hargs : ∀ v ∈ args, v.Fits) (hs : s.Fits)
    (h : ∀ room' frame q statements t, room = room' + 1 → p.frame args = .ok frame →
      emit level (.called p.name args) s = .ok () t → p.body = .block q (.list statements) →
      ∀ m u, Reaches level (invoke level limit room') statements
        { t with scopes := t.scopes.push frame } m u → u.Fits →
      Safe Value.Fits (eval level (invoke level limit room') m) u) :
    Safe Value.Fits (invoke level limit room p args) s := by
  cases room with
  | zero =>
    rw [invoke_zero_eq]
    exact safe_calling hargs hs fun _ _ _ _ _ ht => .fail _ ht
  | succ room =>
    rw [invoke_succ_eq]
    refine safe_calling hargs hs fun frame t hbound hreported hframe ht => ?_
    have hentered := ht.push hframe
    refine Safe.inScope ?_
    unfold runBody
    split
    · rename_i q items hblock
      refine safe_evalBody ?_ hentered
      rintro statements rfl
      exact h room frame q statements t rfl hbound hreported hblock
    · exact .throw _ hentered

theorem safe_visit {node : Node} {m : Eval Value} {s : State}
    (hm : Safe Value.Fits m (visited level node s)) : Safe Value.Fits (visit level node m) s := by
  unfold visit
  unfold visited at hm
  cases hplace : node.place? with
  | none =>
    rw [hplace] at hm
    exact hm
  | some place =>
    rw [hplace] at hm
    have hemit : emit level (.visited node.typeName place) =
        modify (emitted level (.visited node.typeName place)) := emit_eq_modify rfl
    show Safe Value.Fits (emit level _ >>= fun _ => Eval.located place m) s
    rw [hemit]
    exact hm.located place

-- A node is safe to evaluate if all that it leads to is.
theorem safe_eval_of_leads {room : Nat} {node : Node} {s : State}
    (hnode : node.Everywhere Node.LiteralFits) (hs : s.Fits)
    (hlength : ∀ n, TakesLength level limit (.eval room node) s n → Word.Fits n)
    (h : ∀ room' m t, Leads level limit (.eval room node) s (.eval room' m) t →
      m.Everywhere Node.LiteralFits → t.Fits →
      Safe Value.Fits (eval level (invoke level limit room') m) t) :
    Safe Value.Fits (eval level (invoke level limit room) node) s := by
  have hpart {m : Node} {t : State}
      (hleads : Leads level limit (.eval room node) s (.eval room m) t) (ht : t.Fits) :
      Safe Value.Fits (eval level (invoke level limit room) m) t :=
    h room m t hleads (hleads.everywhere hnode) ht
  have hoperand (m : Node) (t : State)
      (hm : Reaches level (invoke level limit room) node.operands (entered level node s) m t)
      (ht : t.Fits) : Safe Value.Fits (eval level (invoke level limit room) m) t :=
    hpart (.operand hm) ht
  have hs' : (entered level node s).Fits := fits_entered level hs
  rw [eval.eq_def]
  cases node with
  | literal place value type =>
    refine safe_visit (.pure ?_ hs')
    split
    · exact .null
    · refine Value.guarded_ofTree fun n hn => ?_
      subst hn
      exact hnode.root
  | ident place name => exact safe_visit (.lookup name hs')
  | array place elements =>
    refine safe_visit ((safe_evalItems ?_ hs').bind fun vs t _ hvs ht => .pure (.array hvs) ht)
    rintro nodes rfl
    exact hoperand
  | tuple place elements =>
    refine safe_visit ((safe_evalItems ?_ hs').bind fun vs t _ hvs ht => .pure (.tuple hvs) ht)
    rintro nodes rfl
    exact hoperand
  | compare place op left right =>
    refine safe_visit ((hoperand left _ .here hs').bind fun a t hleft ha ht => ?_)
    refine (hoperand right t (.later hleft .here) ht).bind fun b u _ hb hu => ?_
    exact .lift (Value.grants_compare op a b) hu
  | binary place op left right =>
    refine safe_visit ((hoperand left _ .here hs').bind fun a t hleft ha ht => ?_)
    refine (hoperand right t (.later hleft .here) ht).bind fun b u _ hb hu => ?_
    exact .result (Value.grants_binary op ha hb) hu
  | unary place op operand =>
    refine safe_visit ((hoperand operand _ .here hs').bind fun v t _ hv ht => ?_)
    exact .result (Value.grants_unary op hv) ht
  | call place function args =>
    refine safe_visit ((hoperand function _ .here hs').bind fun callee t hfunction hcallee ht => ?_)
    have hargs : Safe (fun vs => ∀ v ∈ vs, v.Fits)
        (evalItems level (invoke level limit room) args) t := by
      refine safe_evalItems ?_ ht
      rintro nodes rfl m u hm hu
      exact hpart (.argument hfunction hm) hu
    refine hargs.bind fun values u harguments hvalues hu => ?_
    cases callee with
    | builtin b =>
      exact (Safe.emit level _ hu).bind fun _ w _ _ hw => .builtinCall b hvalues hw
    | method m receiver bound =>
      refine (Safe.emit level _ hu).bind fun _ w _ _ hw => .lift (Value.grants_call ?_ _) hw
      exact fun n hn => hlength n (.call hfunction harguments hn)
    | function p =>
      refine safe_invoke hvalues hu ?_
      rintro room' frame q statements w rfl hbound hreported hblock m x hm hx
      exact h room' m x (.body hfunction harguments hbound hreported hblock hm)
        (everywhere_of_body hcallee hblock m hm.mem) hx
    | _ => exact .pure .null hu
  | member place target property =>
    refine safe_visit ((hoperand target _ .here hs').bind fun v t _ hv ht => ?_)
    cases property with
    | ident place name => exact .lift (Value.grants_property name hv) ht
    | _ => exact .pure .null ht
  | index place target index =>
    refine safe_visit ((hoperand target _ .here hs').bind fun v t htarget hv ht => ?_)
    refine (hoperand index t (.later htarget .here) ht).bind fun i u _ hi hu => ?_
    exact .lift (Value.grants_index hv i) hu
  | convert place value type =>
    refine safe_visit ((hoperand value _ .here hs').bind fun v t _ hv ht => ?_)
    cases type with
    | ident place name => exact .result (Value.grants_convert name hv) ht
    | _ => exact .pure .null ht
  | assign place target value =>
    refine safe_visit ((hoperand value _ .here hs').bind fun v t _ hv ht => ?_)
    exact (safe_bind .assign target (Value.forall_mem_given hv) ht).bind fun _ u _ _ hu =>
      .pure .null hu
  | declare place target value =>
    have hvalue : Safe (fun v => ∀ w ∈ v, w.Fits)
        (evalSome level (invoke level limit room) value)
        (entered level (.declare place target value) s) := by
      refine safe_evalSome (fun m hm => ?_) hs'
      obtain rfl := Option.mem_def.1 hm
      exact hoperand m _ .here hs'
    refine safe_visit (hvalue.bind fun v t _ hv ht => ?_)
    refine (safe_bind .declare target (Value.forall_mem_bind_given hv) ht).bind fun _ u _ _ hu => ?_
    exact .pure .null hu
  | function place name parameters result body =>
    have hsamples : Safe (fun ps => ∀ q ∈ ps, ∀ v ∈ q.2, v.Fits)
        (evalParameterItems level (invoke level limit room) parameters)
        (entered level (.function place name parameters result body) s) := by
      refine safe_evalParameterItems ?_ hs'
      rintro nodes rfl m t hm ht
      exact hpart (.type hm) ht
    refine safe_visit (hsamples.bind fun ps t hparameters hps ht => ?_)
    have hsample : Safe (fun v => ∀ w ∈ v, w.Fits)
        (evalSome level (invoke level limit room) result) t := by
      refine safe_evalSome (fun m hm => ?_) ht
      obtain rfl := Option.mem_def.1 hm
      exact hpart (.result hparameters) ht
    refine hsample.bind fun v u _ hv hu => ?_
    have hbody : body.Everywhere Node.LiteralFits :=
      hnode.below body (by cases parameters <;> simp [Node.children])
    have hfunction : (Value.function ⟨name.shown, ps, v.bind Value.given, body⟩).Fits :=
      .function hps (Value.forall_mem_bind_given hv) hbody
    refine (Safe.declare name hfunction hu).bind fun _ w _ _ hw => ?_
    exact (Safe.emit level _ hw).bind fun _ x _ _ hx => .pure hfunction hx
  | conditional place condition thenBlock elseBlock =>
    refine safe_visit ((hoperand condition _ .here hs').bind fun v t hcondition hv ht => ?_)
    refine (Safe.emit level _ ht).bind fun _ u hreported _ hu => ?_
    split
    · exact hpart (.thenBlock hcondition hreported) hu
    · refine (safe_evalSome (fun m hm => ?_) hu).bind fun w x _ hw hx => ?_
      · obtain rfl := Option.mem_def.1 hm
        exact hpart (.elseBlock hcondition hreported) hu
      · cases w with
        | none => exact .pure .null hx
        | some w => exact .pure (hw w rfl) hx
    · exact .pure .null hu
  | cases place scrutinee arms =>
    refine safe_visit ((hoperand scrutinee _ ?_ hs').bind fun v t hscrutinee hv ht => ?_)
    · exact .here
    refine safe_evalArmItems ?_ ht
    rintro nodes rfl m u hm hu
    exact hpart (.arm hscrutinee hm) hu
  | block place statements =>
    have hbody : Safe Value.Fits (evalBody level (invoke level limit room) statements)
        (entered level (.block place statements) s) := by
      refine safe_evalBody ?_ hs'
      rintro nodes rfl
      exact hoperand
    exact safe_visit hbody.inScope
  | program place body =>
    refine safe_visit (safe_evalBody ?_ hs')
    rintro nodes rfl
    exact hoperand
  | parameter place name type => exact safe_visit (.throw _ hs')
  | arm place label body => exact safe_visit (.throw _ hs')
  | stray t => exact safe_visit (.throw _ hs')

end Nodes

end Eval

end TernLang
