import TernLang.Proofs.Eval.Likeness
import TernLang.Proofs.Eval.Pieces
import TernLang.Proofs.Eval.Watched

-- An error that comes up in a run gets the place of the innermost node that is being evaluated
-- then, and keeps it: the nodes around this one attach no other.

namespace TernLang

theorem Place.not_known_unknown : ¬Place.Known .unknown := by
  simp [Place.unknown, Position.Known, Position.unknown]

-- The places of a run beside itself, all of them known and `good`.
abbrev Watched.Sound (good : Place → Prop) (p q : Place) : Prop := p = q ∧ p.Known ∧ good p

theorem Watched.Sound.known {good : Place → Prop} {p q : Place} (h : Watched.Sound good p q) :
    p.Known ↔ q.Known := by
  rw [h.1]

theorem Watched.Sound.located {good : Place → Prop} {p q : Place} {e f : Failure}
    (hpq : Watched.Sound good p q) (h : e.Twin (Watched.Sound good) f) :
    (e.locate p).Twin (Watched.Sound good) (f.locate q) := h.locate Watched.Sound.known hpq

def Eval.Pairing.alone (level : Int) (good : Place → Prop) : Eval.Pairing :=
  .places level (@Watched.Sound.located good)

namespace Watched

open Eval (Pairing Follows Meets)

variable {α β : Type} {level : Int} {good : Place → Prop}

-- How a run that is watched ends, and how it ends otherwise: in the same way, but that an error has
-- the place of the node at which it came up.
inductive Agrees (c : Pairing) (P : α → Prop) :
    EStateM.Result Raised State α → EStateM.Result Failure State α → Prop where
  | ok {a : α} {s : State} (value : P a) (state : c.Pairs s s) : Agrees c P (.ok a s) (.ok a s)
  | error {cause : Error.Cause} {node : Node} {place : Place} {s : State}
    (raised : cause.IsRaisedBy node) (hplace : node.place? = some place)
    (hgood : c.place place place) :
    Agrees c P (.error ⟨.ofCause cause, node⟩ s) (.error (.error ⟨cause, place⟩) s)
  | fault {f : Fault} {node : Node} {s : State} :
    Agrees c P (.error ⟨.fault f, node⟩ s) (.error (.fault f) s)

-- Inside a node at `place`, which attaches its place to the errors of `m` that have none.
def Watches (level : Int) (good : Place → Prop) (place : Place) (P : α → Prop) (w : Watched α)
    (m : Eval α) : Prop :=
  ∀ s, (Pairing.alone level good).Pairs s s →
    Agrees (.alone level good) P (w s) (Eval.located place m s)

-- A node at a good place.
structure StandsAt (good : Place → Prop) (place : Place) (node : Node) : Prop where
  place? : node.place? = some place
  known : place.Known
  good : good place

namespace Watches

variable {place : Place} {P : α → Prop} {Q : β → Prop} {w : Watched α} {m : Eval α}

theorem pure {a : α} (h : P a) : Watches level good place P (Pure.pure a) (Pure.pure a) :=
  fun _ hs => .ok h hs

theorem bind {k : α → Watched β} {f : α → Eval β} (hm : Watches level good place P w m)
    (hk : ∀ a, P a → Watches level good place Q (k a) (f a)) :
    Watches level good place Q (w >>= k) (m >>= f) := by
  intro s hs
  have hfirst := hm s hs
  have hbind : Eval.located place (m >>= f) s =
      (Eval.located place m >>= fun a => Eval.located place (f a)) s := by
    simp only [Bind.bind, EStateM.bind, Eval.located]
    cases m s <;> rfl
  rw [hbind]
  simp only [Bind.bind, EStateM.bind]
  generalize w s = x at hfirst
  generalize Eval.located place m s = y at hfirst
  cases hfirst with
  | ok value state => exact hk _ value _ state
  | error raised hplace hgood => exact .error raised hplace hgood
  | fault => exact .fault

-- What a node does itself.
theorem own {R : α → α → Prop} {node : Node} (hnode : StandsAt good place node)
    (hfollows : Follows (.alone level good) R m m) (hfails : Eval.FailsBy node m)
    (hP : ∀ a, R a a → P a) : Watches level good place P (Watched.own node m) m := by
  intro s hs
  have hmeets := hfollows.meets hs
  have hraised := hfails s
  simp only [Watched.own, Eval.located]
  generalize m s = x at hmeets hraised
  cases x with
  | ok a t =>
    cases hmeets with
    | ok value states => exact .ok (hP a value) states
  | error failure t =>
    cases hraised failure t rfl with
    | @error cause raised =>
      simp only [Failure.ofCause, Failure.locate, Error.locate, Place.not_known_unknown,
        hnode.known, if_true, if_false]
      exact .error raised hnode.place? ⟨rfl, hnode.known, hnode.good⟩
    | fault f => exact .fault

theorem fault (node : Node) (f : Fault) :
    Watches level good place P (Watched.own node (throw (.fault f))) (throw (.fault f)) :=
  fun _ _ => .fault

-- The place of a node inside is attached first, and stays.
theorem placed {inner : Place} (h : Watches level good inner P w m) :
    Watches level good place P w (Eval.located inner m) := by
  intro s hs
  have hinner := h s hs
  rw [Eval.located]
  generalize Eval.located inner m s = y at hinner
  generalize w s = x at hinner
  cases hinner with
  | ok value state => exact .ok value state
  | @error cause node found t raised hplace hgood =>
    have hkept := Error.locate_of_known (e := ⟨cause, found⟩) hgood.2.1 place
    simp only [Failure.locate, hkept]
    exact .error raised hplace hgood
  | fault => exact .fault

theorem inScope {frame : Frame Value} (hframe : frame.Twin (Pairing.alone level good).place frame)
    (h : Watches level good place P w m) :
    Watches level good place P (Watched.inScope frame w) (Eval.inScope frame m) := by
  intro s hs
  have hinner := h { s with scopes := s.scopes.push frame }
    { hs with scopes := hs.scopes.push hframe }
  have hswap : Eval.located place (Eval.inScope frame m) s =
      Eval.inScope frame (Eval.located place m) s := by
    simp only [Eval.located, Eval.inScope]
    cases m { s with scopes := s.scopes.push frame } <;> rfl
  rw [hswap, Watched.inScope, Eval.inScope]
  generalize w { s with scopes := s.scopes.push frame } = x at hinner
  generalize Eval.located place m { s with scopes := s.scopes.push frame } = y at hinner
  cases hinner with
  | ok value state => exact .ok value { state with scopes := state.scopes.pop }
  | error raised hplace hgood => exact .error raised hplace hgood
  | fault => exact .fault

-- A report that cannot fail.
theorem report {e : Event} (he : e.Twin (Pairing.alone level good).place e)
    (hfault : e.fault? = none) (node : Node) :
    Watches level good place (fun _ => True) (Watched.own node (Eval.emit level e))
      (Eval.emit level e) := by
  rw [Eval.emit_eq_modify hfault]
  exact fun s hs => .ok trivial (hs.emitted he)

end Watches

theorem standsAt_of_twin {place : Place} {node : Node} (h : node.Twin (Sound good) node)
    (hplace : node.place? = some place) : StandsAt good place node := by
  have hrel := h.place?
  rw [hplace] at hrel
  cases hrel with
  | some hp => exact ⟨hplace, hp.2.1, hp.2.2⟩

section Targets

variable {way : Eval.Binding} {place : Place}

-- A value that does not fit the target fails at the target.
theorem watches_refused {target : Node} {found : Place} (htarget : StandsAt good found target)
    {cause : Error.Cause} (hraised : cause.IsRaisedBy target) :
    Watches level good place (fun _ => True) (own target (Eval.fail cause) : Watched Unit)
      (Eval.located found (Eval.fail cause)) :=
  .placed (.own (R := fun _ _ => True) htarget (.fail cause) (.fail hraised) fun _ => id)

variable {node : Node}

mutual

theorem watches_bind (hnode : StandsAt good place node) (target : Node)
    (htarget : target.Twin (Sound good) target) {v : Option Value}
    (hv : Option.Rel (Value.Twin (Sound good)) v v) :
    Watches level good place (fun _ => True) (bind level way node target v)
      (Eval.bind level way target v) := by
  cases target with
  | ident p name =>
    rw [bind, Eval.bind]
    have hvalue : (v.getD .null).Twin (Sound good) (v.getD .null) := by
      cases hv with
      | some hv => exact hv
      | none => exact .null
    exact .own hnode (Eval.follows_bindName way name hvalue) (.bindName level way name _)
      fun _ => id
  | tuple p elements =>
    have hstands : StandsAt good p (.tuple p elements) := standsAt_of_twin htarget rfl
    have helements : Items.Twin (Node.Twin (Sound good)) elements elements := by
      cases htarget
      assumption
    cases v with
    | none =>
      rw [bind, Eval.bind]
      refine watches_bindItems hnode elements helements (List.forall₂_same.2 fun v hv => ?_)
      rw [List.eq_of_mem_replicate hv]
      exact .none
    | some v =>
      have hvalue : v.Twin (Sound good) v := by
        cases hv
        assumption
      have hrefused : Watches level good place (fun _ => True)
          (own node (Eval.lift v.kind) >>= fun kind =>
            own (.tuple p elements) (Eval.fail (.notDestructurable kind)) : Watched Unit)
          (Eval.lift v.kind >>= fun kind => Eval.located p (Eval.fail (.notDestructurable kind))) :=
        (Watches.own (P := fun _ => True) hnode (.lift hvalue.kind) (.lift v.failsBy_kind)
          fun _ _ => trivial).bind fun kind _ =>
            watches_refused hstands (Error.Cause.isRaisedBy_of_isOfShape rfl rfl)
      cases v with
      | tuple items =>
        have hitems : List.Forall₂ (Value.Twin (Sound good)) items items := by
          cases hvalue
          assumption
        rw [bind, Eval.bind]
        cases elements.size? with
        | none => exact .fault _ _
        | some names =>
          simp only
          split
          · refine watches_bindItems hnode elements helements
              (List.forall₂_map_left_iff.2 (List.forall₂_map_right_iff.2 ?_))
            exact hitems.imp fun _ _ hv => hv.given
          · exact watches_refused hstands (Error.Cause.isRaisedBy_of_isOfShape rfl rfl)
      | _ => simpa only [bind, Eval.bind] using hrefused
  | stray t =>
    rw [bind.eq_def, Eval.bind.eq_def]
    exact .fault _ _
  | _ =>
    rw [bind.eq_def, Eval.bind.eq_def]
    exact watches_refused (standsAt_of_twin htarget rfl) (Error.Cause.isRaisedBy_of_isPlain rfl _)

theorem watches_bindItems (hnode : StandsAt good place node) (targets : Items Node)
    (htargets : Items.Twin (Node.Twin (Sound good)) targets targets) {vs : List (Option Value)}
    (hvs : List.Forall₂ (Option.Rel (Value.Twin (Sound good))) vs vs) :
    Watches level good place (fun _ => True) (bindItems level way node targets vs)
      (Eval.bindItems level way targets vs) := by
  cases targets with
  | list targets =>
    have heach : List.Forall₂ (Node.Twin (Sound good)) targets targets := by
      cases htargets
      assumption
    rw [bindItems, Eval.bindItems]
    exact watches_bindAll hnode targets heach hvs
  | other t =>
    rw [bindItems, Eval.bindItems]
    exact .own hnode (Eval.follows_noItems (.inl rfl) t) (.noItems _ t) fun _ => id

theorem watches_bindAll (hnode : StandsAt good place node) (targets : List Node)
    (htargets : List.Forall₂ (Node.Twin (Sound good)) targets targets) {vs : List (Option Value)}
    (hvs : List.Forall₂ (Option.Rel (Value.Twin (Sound good))) vs vs) :
    Watches level good place (fun _ => True) (bindAll level way node targets vs)
      (Eval.bindAll level way targets vs) := by
  cases targets with
  | nil =>
    rw [bindAll.eq_def, Eval.bindAll.eq_def]
    exact .pure trivial
  | cons target targets =>
    obtain ⟨hfirst, hrest⟩ := List.forall₂_cons.1 htargets
    cases vs with
    | nil =>
      rw [bindAll.eq_def, Eval.bindAll.eq_def]
      exact .pure trivial
    | cons v vs =>
      obtain ⟨hv, hvs⟩ := List.forall₂_cons.1 hvs
      rw [bindAll, Eval.bindAll]
      exact (watches_bind hnode target hfirst hv).bind fun _ _ =>
        watches_bindAll hnode targets hrest hvs

end

end Targets

-- Values and nodes that have only known and good places in them.
abbrev SoundValue (good : Place → Prop) (v : Value) : Prop := v.Twin (Sound good) v

abbrev SoundNode (good : Place → Prop) (n : Node) : Prop := n.Twin (Sound good) n

theorem domain (good : Place → Prop) : Eval.Domain (SoundNode good) (SoundValue good) where
  children h _ hm := h.of_mem_children hm
  null := .null
  literal {_ v _} _ := by
    cases v with
    | bool b => exact .bool b
    | int n => exact .int n
    | real x => exact .real x _
    | str s => exact .str s
    | _ => exact .alien _
  array h := .array (List.forall₂_same.2 h)
  tuple h := .tuple (List.forall₂_same.2 h)
  function name _ _ _ hsamples hsample hbody :=
    .function name (Bindings.Twin.self.2 fun q hq => rel_self.2 (hsamples q hq))
      (rel_self.2 hsample) hbody
  body h := by
    cases h with
    | function _ _ _ hbody => exact hbody

theorem twin_self_iff_each {frame : Frame Value} :
    frame.Twin (Sound good) frame ↔ frame.Each (SoundValue good) :=
  ⟨fun h => ⟨Bindings.Twin.self.1 h.vars, Bindings.Twin.self.1 h.consts⟩,
    fun h => ⟨Bindings.Twin.self.2 h.vars, Bindings.Twin.self.2 h.consts⟩⟩

theorem Watches.step {place : Place} {node : Node} {P : α → Prop} {m : Eval α}
    (hnode : StandsAt good place node) (h : Eval.OwnStep level (SoundValue good) node P m) :
    Watches level good place P (Watched.own node m) m := by
  have hfails := h.failsBy
  have hvalue {m : Eval Value} (hm : Eval.FailsBy node m)
      (hfollows : Follows (.alone level good) (Value.Twin (Sound good)) m m) :
      Watches level good place (SoundValue good) (Watched.own node m) m :=
    .own hnode hfollows hm fun _ => id
  have hevent {e : Event} (he : e.Twin (Sound good) e) :
      Watches level good place (fun _ => True) (Watched.own node (Eval.emit level e))
        (Eval.emit level e) :=
    .own hnode (Follows.emit (c := .alone level good) he) (.emit level e) fun _ => id
  have hall {vs : List Value} (hvs : ∀ v ∈ vs, SoundValue good v) :
      List.Forall₂ (Value.Twin (Sound good)) vs vs := List.forall₂_same.2 hvs
  cases h with
  | lookup name => exact hvalue hfails (.lookup name)
  | compare op hv hw => exact hvalue hfails (.lift (hv.compare op hw))
  | binary op hv hw => exact hvalue hfails (.result (hv.binary op hw))
  | unary op hv => exact hvalue hfails (.result (hv.unary op))
  | @apply callee args other hv hvs =>
    refine hvalue hfails ?_
    cases callee with
    | builtin b =>
      exact (Follows.emit (.calledBuiltin b)).bind fun _ _ _ =>
        Eval.follows_builtinCall b (hall hvs)
    | method m v bound =>
      cases hv with
      | method _ hv hbound =>
        exact (Follows.emit (.calledMethod m)).bind fun _ _ _ =>
          .lift (hv.call m (List.rel_append hbound (hall hvs)))
    | function p => exact absurd rfl (other p)
    | _ => exact .pure .null
  | property name hv => exact hvalue hfails (.lift (hv.property name))
  | index hv hw => exact hvalue hfails (.lift (hv.index hw))
  | convert type hv => exact hvalue hfails (.result (hv.convert type))
  | declare name hv => exact .own hnode (.declare name hv) hfails fun _ => id
  | isLabelOf hv hw => exact .own hnode (.lift (hv.isLabelOf hw)) hfails fun _ _ => trivial
  | noItems first t => exact .own hnode (Eval.follows_noItems (.inl rfl) t) hfails fun _ => id
  | defined name names => exact hevent (.defined name names)
  | tested hv => exact hevent (.tested hv)
  | matched hv position => exact hevent (.matched hv position)
  | called name hvs => exact hevent (.called name (hall hvs))
  | returned name hv => exact hevent (.returned name hv)
  | exhausted =>
    exact .own (R := fun _ _ => False) hnode (.fail _) hfails fun _ => False.elim
  | frame _ hp hvs =>
    have hreceived := @Eval.twin_frame (.alone level good) _ _ hp _ _ (hall hvs)
    exact .own hnode (.lift hreceived) hfails fun _ => twin_self_iff_each.1
  | checkResult _ hp hv =>
    have hchecked := @Eval.twin_checkResult (.alone level good) _ _ hp _ _ hv
    exact .own hnode (.lift hchecked) hfails fun _ => id

theorem watches_visit {node : Node} (hnode : SoundNode good node) {w : Watched Value}
    {m : Eval Value} (h : ∀ place, (node.place?.isSome → StandsAt good place node) →
      Watches level good place (SoundValue good) w m) (outer : Place) :
    Watches level good outer (SoundValue good) (visit level node w) (Eval.visit level node m) := by
  unfold visit Eval.visit
  cases hplace : node.place? with
  | none => exact h outer (by simp [hplace])
  | some place =>
    have hstands := standsAt_of_twin hnode hplace
    have hsound : Sound good place place := ⟨rfl, hstands.known, hstands.good⟩
    exact (Watches.report (.visited _ hsound) rfl node).bind fun _ _ =>
      .placed (h place fun _ => hstands)

-- To be watched is to end as otherwise, but for the place of an error.
def likeness (level : Int) (good : Place → Prop) : (handler level).Likeness Unit where
  Context := Place
  Stands := StandsAt good
  good := SoundNode good
  fine := SoundValue good
  domain := domain good
  Like place P w m := Watches level good place P (w ()) m
  pure := .pure
  bind := .bind
  own := .step
  fault := .fault
  bindTarget _ hnode htarget hvalue := watches_bind hnode _ htarget (rel_self.2 hvalue)
  inScope hframe hx := hx.inScope (twin_self_iff_each.2 hframe)
  visit {c _ _ _} hnode hx := watches_visit hnode hx c

-- Each call leaves less room than it had.
theorem calls_invoke (level limit : Int) (good : Place → Prop) (room : Nat) :
    (likeness level good).Calls (fun _ => invoke level limit room)
      (Eval.invoke level limit room) := by
  induction room with
  | zero =>
    intro c node p args hisCall hnode hp hargs
    rw [Eval.invoke_zero_eq]
    refine Handler.Likeness.invoke hisCall hnode hp hargs fun _ _ => ?_
    have hraised : (Error.Cause.callDepth limit).IsRaisedBy node :=
      Error.Cause.isRaisedBy_of_isOfCall rfl hisCall
    exact .own (R := fun _ _ => False) hnode (.fail _) (.fail hraised) fun _ => False.elim
  | succ room ih =>
    intro c node p args hisCall hnode hp hargs
    rw [Eval.invoke_succ_eq]
    refine Handler.Likeness.invoke hisCall hnode hp hargs fun frame hframe => ?_
    exact (likeness level good).inScope hframe <|
      Handler.Likeness.runBody hnode ((domain good).body hp) fun n hn =>
        Handler.Likeness.evals_eval ih hn

theorem watches_evalSequence (level limit : Int) (room : Nat) {ns : List Node}
    (hns : ∀ n ∈ ns, SoundNode good n) (place : Place) :
    Watches level good place (SoundValue good)
      (Handler.evalSequence ((handler level).eval (invoke level limit room)) .null ns)
      (Eval.evalSequence level (Eval.invoke level limit room) .null ns) :=
  Handler.Likeness.evalSequence (L := likeness level good) .null fun n hn =>
    Handler.Likeness.evals_eval (calls_invoke level limit good room) (hns n hn)

end Watched

end TernLang
