import TernLang.Proofs.Eval.Around
import TernLang.Proofs.Value.Operations

-- Two runs side by side. They may differ in the level of their traces and in places, and the first
-- may be lost where the second goes on; apart from that the second does what the first does.

namespace TernLang

structure Frame.Twin (R : Place → Place → Prop) (f g : Frame Value) : Prop where
  vars : Bindings.Twin (Value.Twin R) f.vars g.vars
  consts : Bindings.Twin (Value.Twin R) f.consts g.consts

namespace Frame.Twin

variable {R S : Place → Place → Prop} {f g : Frame Value} {v w : Value}

theorem empty : Frame.Twin R .empty .empty := ⟨.nil, .nil⟩

theorem refl (hR : ∀ p, R p p) (f : Frame Value) : f.Twin R f :=
  ⟨Value.Twin.refl_fields hR _, Value.Twin.refl_fields hR _⟩

theorem mono (hRS : ∀ p q, R p q → S p q) (h : f.Twin R g) : f.Twin S g :=
  ⟨h.vars.mono fun _ _ => .mono hRS, h.consts.mono fun _ _ => .mono hRS⟩

theorem eq (h : f.Twin Eq g) : f = g := by
  have hvars := Value.Twin.eq_named (fun _ _ => Value.Twin.eq) h.vars
  have hconsts := Value.Twin.eq_named (fun _ _ => Value.Twin.eq) h.consts
  cases f
  cases g
  simp_all only

theorem declare (h : f.Twin R g) (name : String) (hv : v.Twin R w) :
    (f.declare name v).Twin R (g.declare name w) := by
  unfold Frame.declare
  split
  · exact ⟨h.vars, h.consts.put name hv⟩
  · exact ⟨h.vars.put name hv, h.consts⟩

theorem get? (h : f.Twin R g) (name : String) :
    Option.Rel (Value.Twin R) (f.get? name) (g.get? name) := by
  have hvars := h.vars.get? name
  unfold Frame.get?
  generalize f.vars.get? name = x at hvars
  generalize g.vars.get? name = y at hvars
  cases hvars with
  | some hv => exact .some hv
  | none => exact h.consts.get? name

theorem assign? (h : f.Twin R g) (name : String) (hv : v.Twin R w) :
    Option.Rel (Frame.Twin R) (f.assign? name v) (g.assign? name w) := by
  have hvars := h.vars.get? name
  unfold Frame.assign?
  generalize f.vars.get? name = x at hvars
  generalize g.vars.get? name = y at hvars
  cases hvars with
  | some _ => exact .some ⟨h.vars.put name hv, h.consts⟩
  | none => exact .none

end Frame.Twin

structure Chain.Twin (R : Place → Place → Prop) (c d : Chain Value) : Prop where
  current : c.current.Twin R d.current
  outer : List.Forall₂ (Frame.Twin R) c.outer d.outer

namespace Chain.Twin

variable {R S : Place → Place → Prop} {c d : Chain Value} {v w : Value}

theorem refl (hR : ∀ p, R p p) (c : Chain Value) : c.Twin R c :=
  ⟨.refl hR _, List.forall₂_same.2 fun _ _ => .refl hR _⟩

theorem mono (hRS : ∀ p q, R p q → S p q) (h : c.Twin R d) : c.Twin S d :=
  ⟨h.current.mono hRS, h.outer.imp fun _ _ => .mono hRS⟩

theorem eq (h : c.Twin Eq d) : c = d := by
  have hcurrent := h.current.eq
  have houter := h.outer.imp fun _ _ => Frame.Twin.eq
  rw [List.forall₂_eq_eq_eq] at houter
  cases c
  cases d
  simp_all only

theorem frames (h : c.Twin R d) : List.Forall₂ (Frame.Twin R) c.frames d.frames :=
  .cons h.current h.outer

theorem push (h : c.Twin R d) {f g : Frame Value} (hfg : f.Twin R g) :
    (c.push f).Twin R (d.push g) := ⟨hfg, h.frames⟩

theorem pop (h : c.Twin R d) : c.pop.Twin R d.pop := by
  obtain ⟨f, fs⟩ := c
  obtain ⟨g, gs⟩ := d
  obtain ⟨hcurrent, houter⟩ := h
  cases houter with
  | nil => exact ⟨hcurrent, .nil⟩
  | cons head tail => exact ⟨head, tail⟩

theorem declare (h : c.Twin R d) (name : String) (hv : v.Twin R w) :
    (c.declare name v).Twin R (d.declare name w) := ⟨h.current.declare name hv, h.outer⟩

theorem lookup? (h : c.Twin R d) (name : String) :
    Option.Rel (Value.Twin R) (c.lookup? name) (d.lookup? name) := by
  have hframes := h.frames
  unfold Chain.lookup?
  generalize c.frames = fs at hframes
  generalize d.frames = gs at hframes
  induction hframes with
  | nil => exact .none
  | cons head _ ih =>
    have hget := head.get? name
    rw [List.findSome?_cons, List.findSome?_cons]
    generalize Frame.get? _ name = x at hget
    generalize Frame.get? _ name = y at hget
    cases hget with
    | some hv => exact .some hv
    | none => exact ih

theorem assignIn? {fs gs : List (Frame Value)} (h : List.Forall₂ (Frame.Twin R) fs gs)
    (name : String) (hv : v.Twin R w) :
    Option.Rel (List.Forall₂ (Frame.Twin R)) (Chain.assignIn? name v fs)
      (Chain.assignIn? name w gs) := by
  induction h with
  | nil => exact .none
  | cons head tail ih =>
    have hassign := head.assign? name hv
    rw [Chain.assignIn?, Chain.assignIn?]
    generalize Frame.assign? _ name v = x at hassign
    generalize Frame.assign? _ name w = y at hassign
    cases hassign with
    | some hfirst => exact .some (.cons hfirst tail)
    | none =>
      generalize Chain.assignIn? name v _ = x at ih
      generalize Chain.assignIn? name w _ = y at ih
      cases ih with
      | some hrest => exact .some (.cons head hrest)
      | none => exact .none

theorem assign? (h : c.Twin R d) (name : String) (hv : v.Twin R w) :
    Option.Rel (Chain.Twin R) (c.assign? name v) (d.assign? name w) := by
  have hcurrent := h.current.assign? name hv
  have houter := assignIn? h.outer name hv
  unfold Chain.assign?
  generalize c.current.assign? name v = x at hcurrent
  generalize d.current.assign? name w = y at hcurrent
  cases hcurrent with
  | some hfirst => exact .some ⟨hfirst, h.outer⟩
  | none =>
    generalize Chain.assignIn? name v c.outer = x at houter
    generalize Chain.assignIn? name w d.outer = y at houter
    cases houter with
    | some hrest => exact .some ⟨h.current, hrest⟩
    | none => exact .none

end Chain.Twin

namespace Event

inductive Twin (R : Place → Place → Prop) : Event → Event → Prop where
  | started (n : Nat) : Twin R (.started n) (.started n)
  | finished {v w : Value} (h : v.Twin R w) : Twin R (.finished v) (.finished w)
  | failed {e f : Error} (h : (Failure.error e).Twin R (.error f)) : Twin R (.failed e) (.failed f)
  | declared (name : String) {v w : Value} (h : v.Twin R w) :
    Twin R (.declared name v) (.declared name w)
  | assigned (name : String) {v w : Value} (h : v.Twin R w) :
    Twin R (.assigned name v) (.assigned name w)
  | defined (name : String) (parameters : List Tree) :
    Twin R (.defined name parameters) (.defined name parameters)
  | tested {v w : Value} (h : v.Twin R w) : Twin R (.tested v) (.tested w)
  | matched {v w : Value} (h : v.Twin R w) (arm : Nat) : Twin R (.matched v arm) (.matched w arm)
  | calledBuiltin (b : Builtin) : Twin R (.calledBuiltin b) (.calledBuiltin b)
  | calledMethod (m : Method) : Twin R (.calledMethod m) (.calledMethod m)
  | called (name : String) {vs ws : List Value} (h : List.Forall₂ (Value.Twin R) vs ws) :
    Twin R (.called name vs) (.called name ws)
  | returned (name : String) {v w : Value} (h : v.Twin R w) :
    Twin R (.returned name v) (.returned name w)
  | visited (type : String) {p q : Place} (h : R p q) : Twin R (.visited type p) (.visited type q)

namespace Twin

variable {R : Place → Place → Prop} {e f : Event}

theorem level (h : e.Twin R f) : e.level = f.level := by
  cases h <;> rfl

theorem fault? (h : e.Twin R f) : e.fault? = f.fault? := by
  have hvalues : Value.haveText e.values = Value.haveText f.values := by
    cases h with
    | called name h => exact Value.Twin.haveText h
    | finished h | tested h | matched h => exact Value.Twin.haveText (.cons h .nil)
    | declared _ h | assigned _ h | returned _ h => exact Value.Twin.haveText (.cons h .nil)
    | _ => rfl
  cases h with
  | defined name parameters => rfl
  | _ => simp only [Event.fault?, hvalues]

theorem eq (h : e.Twin Eq f) : e = f := by
  cases h with
  | finished h | tested h | matched h => rw [h.eq]
  | declared _ h | assigned _ h | returned _ h => rw [h.eq]
  | failed h => rw [Failure.error.inj h.eq]
  | called name h =>
    have hargs := h.imp fun _ _ => Value.Twin.eq
    rw [List.forall₂_eq_eq_eq] at hargs
    rw [hargs]
  | visited type h => rw [h]
  | _ => rfl

end Twin

end Event

namespace Failure

-- Twin failures stay twins when they get places of which both are known or neither is.
theorem Twin.locate {R : Place → Place → Prop} (known : ∀ {p q}, R p q → (p.Known ↔ q.Known))
    {e f : Failure} (h : e.Twin R f) {p q : Place} (hpq : R p q) :
    (e.locate p).Twin R (f.locate q) := by
  have hknown := known hpq
  have hunknown : ¬Place.Known .unknown := by simp [Place.unknown, Position.Known, Position.unknown]
  cases h with
  | @error cause p' q' place =>
    have hplace := known place
    simp only [Failure.locate, Error.locate]
    by_cases hp' : p'.Known
    · rw [if_pos hp', if_pos (hplace.1 hp')]
      exact .error cause place
    · rw [if_neg hp', if_neg (mt hplace.2 hp')]
      by_cases hp : p.Known
      · rw [if_pos hp, if_pos (hknown.1 hp)]
        exact .error cause hpq
      · rw [if_neg hp, if_neg (mt hknown.2 hp)]
        exact .error cause place
  | unplaced cause =>
    simp only [Failure.ofCause, Failure.locate, Error.locate, if_neg hunknown]
    by_cases hp : p.Known
    · rw [if_pos hp, if_pos (hknown.1 hp)]
      exact .error cause hpq
    · rw [if_neg hp, if_neg (mt hknown.2 hp)]
      exact .unplaced cause
  | fault f => exact .fault f

end Failure

namespace Eval

-- How two runs may differ: the levels of their traces, the places in their programs, what their
-- traces have to do with each other, and the failures by which the first one is lost. A run with
-- more of a trace is lost whenever it fails in a way in which no proper program does.
structure Pairing where
  level : Int
  level' : Int
  place : Place → Place → Prop
  trace : Array Event → Array Event → Prop
  lost : Failure → Prop
  level_le : level' ≤ level
  located : ∀ {p q e f}, place p q → Failure.Twin place e f →
    Failure.Twin place (e.locate p) (f.locate q)
  push : ∀ {a b e f}, trace a b → e.Twin place f → (f.level : Int) ≤ level' →
    trace (a.push e) (b.push f)
  pass : ∀ {a b e}, trace a b → (e.level : Int) ≤ level → ¬(e.level : Int) ≤ level' →
    trace (a.push e) b
  lost_locate : ∀ {e}, lost e → ∀ p, lost (e.locate p)
  lost_fault : level' < level → ∀ f, f ≠ .unreadableNumber → lost (.fault f)
  refl_of_lost : ∀ {e}, lost e → ∀ p, place p p

-- The laws of a pairing where places and traces are the same.
section Same

variable {p q : Place} {level : Int} {a b : Array Event} {e f : Event}

theorem known_of_eq (h : p = q) : p.Known ↔ q.Known := by rw [h]

theorem located_of_eq {e f : Failure} (hpq : p = q) (h : e.Twin Eq f) :
    (e.locate p).Twin Eq (f.locate q) :=
  h.locate known_of_eq hpq

theorem push_of_eq (htrace : a = b) (h : e.Twin Eq f) (_ : (f.level : Int) ≤ level) :
    a.push e = b.push f := by rw [htrace, h.eq]

theorem pass_of_eq (_ : a = b) (h : (e.level : Int) ≤ level) (hnot : ¬(e.level : Int) ≤ level) :
    a.push e = b := absurd h hnot

end Same

namespace Pairing

-- The states of two runs after the same steps.
structure Pairs (c : Pairing) (s t : State) : Prop where
  scopes : s.scopes.Twin c.place t.scopes
  input : s.input = t.input
  output : s.output = t.output
  trace : c.trace s.trace t.trace
  results : s.results = t.results

def Lossy (c : Pairing) : Prop := ∃ e, c.lost e

end Pairing

-- The state after an event was reported.
def emitted (level : Int) (event : Event) (s : State) : State :=
  if event.level ≤ level then { s with trace := s.trace.push event } else s

theorem emit_eq_modify {level : Int} {event : Event} (h : event.fault? = none) :
    emit level event = modify (emitted level event) := by
  unfold emit
  rw [h]
  funext s
  by_cases hlevel : (event.level : Int) ≤ level
  · simp only [if_pos hlevel, modify, emitted]
  · simp only [if_neg hlevel, modify, emitted]
    rfl

@[simp]
theorem output_emitted (level : Int) (event : Event) (s : State) :
    (emitted level event s).output = s.output := by
  unfold emitted
  split <;> rfl

@[simp]
theorem scopes_emitted (level : Int) (event : Event) (s : State) :
    (emitted level event s).scopes = s.scopes := by
  unfold emitted
  split <;> rfl

-- Of an event that only the first run reports the second knows nothing.
theorem Pairing.Pairs.emitted {c : Pairing} {s t : State} (hst : c.Pairs s t) {e f : Event}
    (h : e.Twin c.place f) : c.Pairs (emitted c.level e s) (emitted c.level' f t) := by
  have hle := c.level_le
  have hlevel := h.level
  unfold Eval.emitted
  by_cases hboth : (f.level : Int) ≤ c.level'
  · rw [if_pos hboth, if_pos (by omega)]
    exact { hst with trace := c.push hst.trace h hboth }
  · rw [if_neg hboth]
    by_cases hfirst : (e.level : Int) ≤ c.level
    · rw [if_pos hfirst]
      exact { hst with trace := c.pass hst.trace hfirst (by omega) }
    · rw [if_neg hfirst]
      exact hst

-- The state that a run ends in, well or not.
def finalState {α : Type} : EStateM.Result Failure State α → State
  | .ok _ t => t
  | .error _ t => t

-- What a run ends in, without the state.
def outcome {α : Type} : EStateM.Result Failure State α → Except Failure α
  | .ok a _ => .ok a
  | .error e _ => .error e

section Results

variable {α β : Type} {P : α → β → Prop} {o : String}

-- The end of a run that has added to an output, with a value that `P` ties to something.
def Extends (P : α → β → Prop) (o : String) : EStateM.Result Failure State β → Prop
  | .ok b t => (∃ a, P a b) ∧ ∃ more, t.output = o ++ more
  | .error _ t => ∃ more, t.output = o ++ more

theorem Extends.output {y : EStateM.Result Failure State β} (h : Extends P o y) :
    ∃ more, (finalState y).output = o ++ more := by
  cases y with
  | ok b t => exact h.2
  | error e t => exact h

theorem Extends.trans {o' : String} {y : EStateM.Result Failure State β} (h : Extends P o' y)
    (ho : ∃ more, o' = o ++ more) : Extends P o y := by
  obtain ⟨first, rfl⟩ := ho
  have happend {t : State} (ht : ∃ more, t.output = o ++ first ++ more) :
      ∃ more, t.output = o ++ more := by
    obtain ⟨more, hmore⟩ := ht
    exact ⟨first ++ more, by rw [hmore, String.append_assoc]⟩
  cases y with
  | ok b t => exact ⟨h.1, happend h.2⟩
  | error e t => exact happend h

theorem Extends.mono {α' : Type} {P' : α' → β → Prop} (himp : ∀ a b, P a b → ∃ a', P' a' b)
    {y : EStateM.Result Failure State β} (h : Extends P o y) : Extends P' o y := by
  cases y with
  | ok b t =>
    obtain ⟨⟨a, hab⟩, hmore⟩ := h
    exact ⟨himp a b hab, hmore⟩
  | error e t => exact h

-- The ends of two runs: both have ended well, or both have failed in the same way, or the first is
-- lost and the second has written what the first has, and maybe more.
inductive Meets (c : Pairing) (P : α → β → Prop) :
    EStateM.Result Failure State α → EStateM.Result Failure State β → Prop where
  | ok {a : α} {b : β} {s t : State} (value : P a b) (states : c.Pairs s t) :
    Meets c P (.ok a s) (.ok b t)
  | error {e f : Failure} {s t : State} (failure : e.Twin c.place f) (states : c.Pairs s t) :
    Meets c P (.error e s) (.error f t)
  | lost {e : Failure} {s : State} {y : EStateM.Result Failure State β} (failure : c.lost e)
    (more : Extends P s.output y) : Meets c P (.error e s) y

end Results

-- The second computation does what the first does, unless the first is lost.
structure Follows (c : Pairing) {α β : Type} (P : α → β → Prop) (m : Eval α) (n : Eval β) :
    Prop where
  grows : c.Lossy → ∀ t, Extends P t.output (n t)
  meets : ∀ {s t}, c.Pairs s t → Meets c P (m s) (n t)

namespace Follows

variable {c : Pairing} {α β γ δ : Type} {P : α → β → Prop} {Q : γ → δ → Prop}
variable {m : Eval α} {n : Eval β}

theorem unwritten (t : State) : ∃ more, t.output = t.output ++ more := ⟨"", by simp⟩

theorem pure {a : α} {b : β} (h : P a b) : Follows c P (Pure.pure a) (Pure.pure b) where
  grows _ t := ⟨⟨a, h⟩, unwritten t⟩
  meets hst := .ok h hst

theorem throw {e f : Failure} (h : e.Twin c.place f) :
    Follows c P (MonadExcept.throw e : Eval α) (MonadExcept.throw f : Eval β) where
  grows _ t := unwritten t
  meets hst := .error h hst

theorem fail (cause : Error.Cause) :
    Follows c P (Eval.fail cause : Eval α) (Eval.fail cause : Eval β) :=
  throw (.unplaced cause)

-- A failure by which the first run is lost, while the second may go on.
theorem losing {e : Failure} (he : c.lost e) (hn : ∀ t, Extends P t.output (n t)) :
    Follows c P (MonadExcept.throw e : Eval α) n where
  grows _ t := hn t
  meets {_ t} hst := .lost he (hst.output ▸ hn t)

theorem lift {x : Except Failure α} {y : Except Failure β} (h : Outcome.Twin c.place P x y) :
    Follows c P (Eval.lift x) (Eval.lift y) := by
  cases h with
  | ok value => exact pure value
  | error failure => exact throw failure

theorem extends_bind (hc : c.Lossy) {f : α → Eval γ} {g : β → Eval δ}
    (hfg : ∀ a b, P a b → Follows c Q (f a) (g b)) {o : String} {t : State}
    (h : Extends P o (n t)) : Extends Q o ((n >>= g) t) := by
  simp only [Bind.bind, EStateM.bind]
  cases hn : n t with
  | ok b u =>
    rw [hn] at h
    obtain ⟨⟨a, hab⟩, hmore⟩ := h
    exact ((hfg a b hab).grows hc u).trans hmore
  | error e u =>
    rw [hn] at h
    exact h

theorem meets_bind {f : α → Eval γ} {g : β → Eval δ}
    (hfg : ∀ a b, P a b → Follows c Q (f a) (g b)) {s t : State} (h : Meets c P (m s) (n t)) :
    Meets c Q ((m >>= f) s) ((n >>= g) t) := by
  generalize hx : m s = x at h
  generalize hy : n t = y at h
  cases h with
  | ok value states =>
    simp only [Bind.bind, EStateM.bind, hx, hy]
    exact (hfg _ _ value).meets states
  | error failure states =>
    simp only [Bind.bind, EStateM.bind, hx, hy]
    exact .error failure states
  | @lost e u y failure more =>
    have hlost : (m >>= f) s = .error e u := by simp only [Bind.bind, EStateM.bind, hx]
    rw [hlost]
    exact .lost failure (extends_bind ⟨e, failure⟩ hfg (hy ▸ more))

theorem bind {f : α → Eval γ} {g : β → Eval δ} (hmn : Follows c P m n)
    (hfg : ∀ a b, P a b → Follows c Q (f a) (g b)) : Follows c Q (m >>= f) (n >>= g) where
  grows hc t := extends_bind hc hfg (hmn.grows hc t)
  meets hst := meets_bind hfg (hmn.meets hst)

-- A change of the states that writes nothing.
theorem ofModify {f g : State → State} (h : ∀ {s t}, c.Pairs s t → c.Pairs (f s) (g t))
    (houtput : ∀ t, (g t).output = t.output) :
    Follows c (fun _ _ => True) (modify f : Eval Unit) (modify g : Eval Unit) where
  grows _ t := ⟨⟨(), trivial⟩, "", by simp only [houtput, String.append_empty]⟩
  meets hst := .ok trivial (h hst)

theorem around {start start' finish finish' : State → State}
    {handle handle' : Failure → State → Failure × State} (hmn : Follows c P m n)
    (hstart : ∀ {s t}, c.Pairs s t → c.Pairs (start s) (start' t))
    (hfinish : ∀ {s t}, c.Pairs s t → c.Pairs (finish s) (finish' t))
    (hhandle : ∀ {e f s t}, e.Twin c.place f → c.Pairs s t →
      (handle e s).1.Twin c.place (handle' f t).1 ∧ c.Pairs (handle e s).2 (handle' f t).2)
    (hlost : ∀ {e s}, c.lost e → c.lost (handle e s).1 ∧ (handle e s).2.output = s.output)
    (houtput : ∀ t, (start' t).output = t.output ∧ (finish' t).output = t.output ∧
      ∀ f, (handle' f t).2.output = t.output) :
    Follows c P (Eval.around start finish handle m) (Eval.around start' finish' handle' n) := by
  have hend {o : String} {t : State} (h : Extends P o (n (start' t))) :
      Extends P o (Eval.around start' finish' handle' n t) := by
    cases hn : n (start' t) with
    | ok b u =>
      rw [hn] at h
      rw [around_of_ok hn]
      exact ⟨h.1, by rw [(houtput u).2.1]; exact h.2⟩
    | error f u =>
      rw [hn] at h
      rw [around_of_error hn]
      exact show ∃ more, _ by rw [(houtput u).2.2]; exact h
  refine ⟨fun hc t => hend ((houtput t).1 ▸ hmn.grows hc (start' t)), fun {s t} hst => ?_⟩
  have hinner := hmn.meets (hstart hst)
  generalize hx : m (start s) = x at hinner
  generalize hy : n (start' t) = y at hinner
  cases hinner with
  | ok value states =>
    rw [around_of_ok hx, around_of_ok hy]
    exact .ok value (hfinish states)
  | error failure states =>
    rw [around_of_error hx, around_of_error hy]
    exact .error (hhandle failure states).1 (hhandle failure states).2
  | lost failure more =>
    rw [around_of_error hx]
    refine .lost (hlost failure).1 (hend ?_)
    rw [(hlost failure).2, hy]
    exact more

theorem located {p q : Place} (hpq : c.place p q) (hmn : Follows c P m n) :
    Follows c P (Eval.located p m) (Eval.located q n) := by
  rw [located_eq_around, located_eq_around]
  exact hmn.around (fun h => h) (fun h => h) (fun he hst => ⟨c.located hpq he, hst⟩)
    (fun he => ⟨c.lost_locate he p, rfl⟩) fun t => ⟨rfl, rfl, fun _ => rfl⟩

theorem inScope {f g : Frame Value} (hfg : f.Twin c.place g) (hmn : Follows c P m n) :
    Follows c P (Eval.inScope f m) (Eval.inScope g n) := by
  have hpop {s t : State} (h : c.Pairs s t) :
      c.Pairs { s with scopes := s.scopes.pop } { t with scopes := t.scopes.pop } :=
    { h with scopes := h.scopes.pop }
  rw [inScope_eq_around, inScope_eq_around]
  exact hmn.around (fun h => { h with scopes := h.scopes.push hfg }) hpop
    (fun he hst => ⟨he, hpop hst⟩) (fun he => ⟨he, rfl⟩) fun t => ⟨rfl, rfl, fun _ => rfl⟩

theorem emit {e f : Event} (h : e.Twin c.place f) :
    Follows c (fun _ _ => True) (Eval.emit c.level e) (Eval.emit c.level' f) := by
  cases hfault : f.fault? with
  | none =>
    rw [emit_eq_modify (h.fault?.trans hfault), emit_eq_modify hfault]
    exact ofModify (fun hst => hst.emitted h) fun t => output_emitted _ f t
  | some fault =>
    have hle := c.level_le
    have hne : fault ≠ .unreadableNumber := by
      rintro rfl
      unfold Event.fault? at hfault
      split at hfault <;> split at hfault <;> simp at hfault
    unfold Eval.emit
    rw [h.level, h.fault?, hfault]
    by_cases hboth : (f.level : Int) ≤ c.level'
    · rw [if_pos hboth, if_pos (by omega)]
      exact throw (.fault fault)
    · rw [if_neg hboth]
      by_cases hfirst : (f.level : Int) ≤ c.level
      · rw [if_pos hfirst]
        exact losing (c.lost_fault (by omega) fault hne) fun t => ⟨⟨(), trivial⟩, unwritten t⟩
      · rw [if_neg hfirst]
        exact pure trivial

theorem twin_lookup {find : String → Option α} {find' : String → Option β}
    (h : ∀ s, Option.Rel P (find s) (find' s)) (name : Tree) :
    Outcome.Twin c.place P (Name.lookup find name) (Name.lookup find' name) := by
  unfold Name.lookup
  split
  · cases name.text? with
    | none => exact .ofCause _
    | some s =>
      have hfind := h s
      simp only [Option.bind_some]
      generalize find s = x at hfind
      generalize find' s = y at hfind
      cases hfind with
      | some hab => exact .ok hab
      | none => exact .ofCause _
  · exact .fault _

-- What is looked up depends on the states, so that twins of it are known only of states that are
-- paired, or if every place is a twin of itself.
theorem lookup (name : Tree) :
    Follows c (Value.Twin c.place) (Eval.lookup name) (Eval.lookup name) := by
  refine ⟨fun ⟨e, he⟩ t => ?_, fun {s t} hst => ?_⟩
  · have hrefl : Chain.Twin c.place t.scopes t.scopes := .refl (c.refl_of_lost he) _
    have hself := twin_lookup (c := c) hrefl.lookup? name
    exact (lift (c := c) hself).grows ⟨e, he⟩ t
  · exact (lift (twin_lookup hst.scopes.lookup? name)).meets hst

theorem bindable (name : Tree) :
    Outcome.Twin c.place Eq (Name.bindable name) (Name.bindable name) := by
  cases name with
  | str s => exact .ok rfl
  | list items =>
    have hcapitals : Outcome.Twin c.place Eq (Name.areCapitals items) (Name.areCapitals items) := by
      induction items with
      | nil => exact .ok rfl
      | cons item items ih =>
        cases item with
        | str s =>
          rw [Name.areCapitals]
          split
          · exact ih
          · exact .ok rfl
        | _ => exact .fault _
    exact hcapitals.discard.bind fun _ _ _ => .fault _
  | _ => exact .fault _

theorem declare (name : Tree) {v w : Value} (hv : v.Twin c.place w) :
    Follows c (fun _ _ => True) (Eval.declare name v) (Eval.declare name w) := by
  refine (lift (bindable name)).bind ?_
  rintro s _ rfl
  exact ofModify (fun hst => { hst with scopes := hst.scopes.declare s hv }) fun _ => rfl

theorem assign (name : Tree) {v w : Value} (hv : v.Twin c.place w) :
    Follows c (fun _ _ => True) (Eval.assign name v) (Eval.assign name w) := by
  have hchange {a b : Chain Value} (hab : a.Twin c.place b) :
      Follows c (fun _ _ => True) (modify fun s => { s with scopes := a } : Eval Unit)
        (modify fun s => { s with scopes := b } : Eval Unit) :=
    ofModify (fun hst => { hst with scopes := hab }) fun _ => rfl
  refine ⟨fun ⟨e, he⟩ t => ?_, fun {s t} hst => ?_⟩
  · have hrefl : Chain.Twin c.place t.scopes t.scopes := .refl (c.refl_of_lost he) _
    have hself := twin_lookup (c := c) (fun s => hrefl.assign? s hv) name
    exact ((lift (c := c) hself).bind fun _ _ => hchange).grows ⟨e, he⟩ t
  · have hfound := twin_lookup (c := c) (fun name => hst.scopes.assign? name hv) name
    exact ((lift hfound).bind fun _ _ => hchange).meets hst

theorem write (text : String) :
    Follows c (fun _ _ => True) (Eval.write text) (Eval.write text) where
  grows _ t := ⟨⟨(), trivial⟩, text, rfl⟩
  meets hst := .ok trivial { hst with output := by simp only [hst.output] }

theorem readLine : Follows c Eq Eval.readLine Eval.readLine := by
  refine ⟨fun _ t => ⟨⟨_, rfl⟩, unwritten t⟩, fun {s t} hst => .ok ?_ { hst with input := ?_ }⟩
  · simp only [hst.input]
  · simp only [hst.input]

theorem result {x y : Except Failure Value} (h : Outcome.Twin c.place (Value.Twin c.place) x y) :
    Follows c (Value.Twin c.place) (Eval.result x) (Eval.result y) := by
  refine (lift h).bind fun v w hv => ⟨fun _ t => ?_, fun {s t} hst => ?_⟩
  · exact ⟨⟨_, (hv.number t.results).1⟩, unwritten t⟩
  · obtain ⟨hnumber, hnext⟩ := hv.number t.results
    change Meets c _ (.ok (v.number s.results).1 { s with results := (v.number s.results).2 }) _
    rw [hst.results]
    exact .ok hnumber { hst with results := hnext }

theorem visit {a b : Node} (hab : a.Twin c.place b) {x y : Eval Value}
    (hxy : Follows c (Value.Twin c.place) x y) :
    Follows c (Value.Twin c.place) (Eval.visit c.level a x) (Eval.visit c.level' b y) := by
  have hplace := hab.place?
  unfold Eval.visit
  generalize a.place? = p at hplace
  generalize b.place? = q at hplace
  cases hplace with
  | some hpq =>
    rw [hab.typeName]
    exact (emit (.visited _ hpq)).bind fun _ _ _ => hxy.located hpq
  | none => exact hxy

end Follows

end Eval

namespace Session

variable {α : Type}

theorem fst_perform (s : Session) (m : Eval α) : (s.perform m).1 = Eval.outcome (m s.state) := by
  unfold perform
  cases m s.state <;> rfl

theorem state_perform (s : Session) (m : Eval α) :
    (s.perform m).2.state = Eval.finalState (m s.state) := by
  unfold perform
  cases m s.state <;> rfl

end Session

end TernLang
