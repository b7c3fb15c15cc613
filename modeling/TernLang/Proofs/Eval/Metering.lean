import TernLang.Proofs.Eval.Likeness
import TernLang.Proofs.Eval.Metered
import TernLang.Proofs.Eval.Plain

-- An evaluation that counts its calls does what one does that has room for as many as may still be
-- counted. However it ends, the count and the bodies are those that it started with, and it fails
-- because calls stand too deep if and only if it came upon a call beyond the limit.

namespace TernLang

-- Nothing but its depth can hold a call up: the arguments are received, and they have texts if
-- calls are traced.
structure Procedure.Passes (level : Int) (p : Procedure Value) (args : List Value) : Prop where
  received : ∃ frame, p.frame args = .ok frame
  shown : 3 ≤ level → Value.haveText args

namespace Sighting

-- Since there were this count and these bodies one has changed with the other, and the limit was
-- not passed.
structure Fair (limit active : Int) (bodies : List (Procedure Value)) (sg : Sighting) : Prop where
  count : sg.active - active = sg.bodies.length - bodies.length
  bounded : sg.active ≤ max limit active

-- A call for which there is no room.
inductive Overruns (level limit : Int) : Sighting → Prop where
  | call {p : Procedure Value} {args : List Value} {active : Int} {bodies : List (Procedure Value)}
    (passes : p.Passes level args) (full : limit ≤ active) :
    Overruns level limit ⟨.call p args, active, bodies⟩

theorem Fair.here (limit active : Int) (bodies : List (Procedure Value)) (sight : Sight) :
    Fair limit active bodies ⟨sight, active, bodies⟩ where
  count := by simp
  bounded := Int.le_max_right ..

end Sighting

-- What was written, reported and come upon before.
structure Past where
  output : String
  trace : Array Event
  sightings : List Sighting

namespace Past

def meter (past : Past) (active : Int) (bodies : List (Procedure Value)) (s : State) : Meter where
  state := s.onto past.output past.trace
  active
  bodies
  sightings := past.sightings

-- When these have been come upon, too.
def seeing (past : Past) (seen : List Sighting) : Past :=
  { past with sightings := seen ++ past.sightings }

theorem seeing_seeing (past : Past) (seen later : List Sighting) :
    (past.seeing seen).seeing later = past.seeing (later ++ seen) := by
  simp only [seeing, List.append_assoc]

end Past

-- The same end with a meter for the state.
def Metered.ending {α : Type} (f : State → Meter) :
    EStateM.Result Failure State α → EStateM.Result Failure Meter α
  | .ok a t => .ok a (f t)
  | .error e t => .error e (f t)

-- A run that ends with a call that stands too deep.
def Eval.FailsDeep {α : Type} (limit : Int) (x : EStateM.Result Failure State α) : Prop :=
  ∃ e, outcome x = .error e ∧ e.IsDeep limit

namespace Metered

open Eval (Plain FailsDeep)

variable {α β : Type} {level limit active : Int}

-- A metered computation ends as the plain one does that starts in `s`, and comes upon these.
structure Sees (level limit active : Int) (bodies : List (Procedure Value)) (s : State)
    (x : Metered α) (m : Eval α) (seen : List Sighting) : Prop where
  same : ∀ past : Past,
    x (past.meter active bodies s) = ending ((past.seeing seen).meter active bodies) (m s)
  fair : ∀ sg ∈ seen, sg.Fair limit active bodies
  deep : FailsDeep limit (m s) ↔ ∃ sg ∈ seen, sg.Overruns level limit

-- A metered computation does what the plain one does wherever there is this count.
def Counts (level limit active : Int) (x : Metered α) (m : Eval α) : Prop :=
  ∀ bodies s, ∃ seen, Sees level limit active bodies s x m seen

theorem not_failsDeep_ok (a : α) (t : State) : ¬FailsDeep limit (.ok a t) := by
  rintro ⟨e, h, -⟩
  cases h

theorem failsDeep_error {e : Failure} {t : State} :
    FailsDeep limit (.error e t : EStateM.Result Failure State α) ↔ e.IsDeep limit := by
  constructor
  · rintro ⟨e', h, hdeep⟩
    cases h
    exact hdeep
  · exact fun h => ⟨e, rfl, h⟩

instance (limit : Int) (y : EStateM.Result Failure State α) : Decidable (FailsDeep limit y) :=
  match y with
  | .ok a t => .isFalse (not_failsDeep_ok a t)
  | .error _ _ => decidable_of_iff _ failsDeep_error.symm

theorem eq_ok_of_lift {x : Except Failure α} {a : α} {s t : State}
    (h : (Eval.lift x : Eval α) s = .ok a t) : x = .ok a := by
  cases x with
  | ok b =>
    cases h
    rfl
  | error e => cases h

theorem not_failsDeep_of_plain {m : Eval α} (hm : Plain m) (s : State) :
    ¬FailsDeep limit (m s) := by
  cases hrun : m s with
  | ok a t => exact not_failsDeep_ok a t
  | error e t => exact mt failsDeep_error.1 (hm.shallow s e t hrun limit)

-- What is done around a computation does not change whether it fails in this way.
theorem failsDeep_around {start finish : State → State} {handle : Failure → State → Failure × State}
    (h : ∀ e t, (handle e t).1.IsDeep limit ↔ e.IsDeep limit) (m : Eval α) (s : State) :
    FailsDeep limit (Eval.around start finish handle m s) ↔ FailsDeep limit (m (start s)) := by
  cases hm : m (start s) with
  | ok a t =>
    rw [Eval.around_of_ok hm]
    exact iff_of_false (not_failsDeep_ok a _) (not_failsDeep_ok a t)
  | error e t => rw [Eval.around_of_error hm, failsDeep_error, failsDeep_error, h]

theorem failsDeep_located (place : Place) (m : Eval α) (s : State) :
    FailsDeep limit (Eval.located place m s) ↔ FailsDeep limit (m s) := by
  rw [Eval.located_eq_around]
  exact failsDeep_around (fun _ _ => Failure.isDeep_locate place) m s

theorem failsDeep_inScope (frame : Frame Value) (m : Eval α) (s : State) :
    FailsDeep limit (Eval.inScope frame m s) ↔
      FailsDeep limit (m { s with scopes := s.scopes.push frame }) := by
  rw [Eval.inScope_eq_around]
  exact failsDeep_around (fun _ _ => Iff.rfl) m s

theorem ending_mapState (f : State → Meter) (g : State → State)
    (y : EStateM.Result Failure State α) :
    ending f (Eval.mapState g y) = ending (fun t => f (g t)) y := by
  cases y <;> rfl

theorem between_of_ending {start finish : Meter → Meter} {x : Metered α} {c : Meter}
    {f : State → Meter} {y : EStateM.Result Failure State α} (h : x (start c) = ending f y) :
    between start finish x c = ending (fun t => finish (f t)) y := by
  rw [between, h]
  cases y <;> rfl

theorem own_of_steady {m : Eval α} (hm : Eval.Steady m) (past : Past)
    (bodies : List (Procedure Value)) (s : State) :
    own m (past.meter active bodies s) = ending (past.meter active bodies) (m s) := by
  have hstate : m (past.meter active bodies s).state = _ := hm past.output past.trace s
  simp only [own, counted, Counting.uncounted, hstate]
  cases m s <;> rfl

namespace Counts

theorem own {m : Eval α} (hm : Plain m) : Counts level limit active (Metered.own m) m := by
  intro bodies s
  refine ⟨[], fun past => own_of_steady hm.steady past bodies s, by simp, ?_⟩
  exact iff_of_false (not_failsDeep_of_plain hm s) (by simp)

theorem pure (a : α) : Counts level limit active (Pure.pure a) (Pure.pure a) := by
  have hpure : (Pure.pure a : Metered α) = Metered.own (Pure.pure a) := rfl
  rw [hpure]
  exact own (.pure a)

theorem fault (f : Fault) :
    Counts level limit active (Metered.own (throw (.fault f)) : Metered α) (throw (.fault f)) :=
  own (.fault f)

-- What comes after a value that the first part can have.
theorem bind_of_ok {x : Metered α} {m : Eval α} {k : α → Metered β} {f : α → Eval β}
    (hx : Counts level limit active x m)
    (hk : ∀ a s t, m s = .ok a t → Counts level limit active (k a) (f a)) :
    Counts level limit active (x >>= k) (m >>= f) := by
  intro bodies s
  obtain ⟨seen, hsame, hfair, hdeep⟩ := hx bodies s
  cases hm : m s with
  | ok a t =>
    rw [hm] at hsame hdeep
    -- The second part starts with the count of the first one.
    obtain ⟨later, hsame', hfair', hdeep'⟩ := hk a s t hm bodies t
    refine ⟨later ++ seen, fun past => ?_, List.forall_mem_append.2 ⟨hfair', hfair⟩, ?_⟩
    · rw [Eval.bind_eq_of_ok (hsame past), Eval.bind_eq_of_ok hm, ← Past.seeing_seeing]
      exact hsame' (past.seeing seen)
    · have hnone := mt hdeep.2 (not_failsDeep_ok a t)
      rw [Eval.bind_eq_of_ok hm, hdeep']
      simp only [List.mem_append, or_and_right, exists_or, hnone, or_false]
  | error e t =>
    rw [hm] at hsame hdeep
    refine ⟨seen, fun past => ?_, hfair, ?_⟩
    · rw [Eval.bind_eq_of_error (hsame past), Eval.bind_eq_of_error hm]
      rfl
    · rw [Eval.bind_eq_of_error hm, ← hdeep, failsDeep_error, failsDeep_error]

theorem bind {x : Metered α} {m : Eval α} {k : α → Metered β} {f : α → Eval β}
    (hx : Counts level limit active x m) (hk : ∀ a, Counts level limit active (k a) (f a)) :
    Counts level limit active (x >>= k) (m >>= f) :=
  hx.bind_of_ok fun a _ _ _ => hk a

theorem located {x : Metered α} {m : Eval α} (place : Place)
    (h : Counts level limit active x m) :
    Counts level limit active (Metered.located place x) (Eval.located place m) := by
  intro bodies s
  obtain ⟨seen, hsame, hfair, hdeep⟩ := h bodies s
  refine ⟨seen, fun past => ?_, hfair, (failsDeep_located place m s).trans hdeep⟩
  rw [Metered.located, hsame, Eval.located]
  cases m s <;> rfl

theorem inScope {x : Metered α} {m : Eval α} (frame : Frame Value)
    (h : Counts level limit active x m) :
    Counts level limit active (Metered.inScope frame x) (Eval.inScope frame m) := by
  intro bodies s
  obtain ⟨seen, hsame, hfair, hdeep⟩ := h bodies { s with scopes := s.scopes.push frame }
  refine ⟨seen, fun past => ?_, hfair, (failsDeep_inScope frame m s).trans hdeep⟩
  rw [Metered.inScope, Eval.inScope_eq, ending_mapState]
  exact (between_of_ending (hsame past)).trans rfl

-- What is seen first is no call without room.
theorem see_bind {sight : Sight} {x : Metered α} {m : Eval α}
    (hroom : ∀ bodies, ¬Sighting.Overruns level limit ⟨sight, active, bodies⟩)
    (h : Counts level limit active x m) :
    Counts level limit active (see sight >>= fun _ => x) m := by
  have hsee : Counts level limit active (see sight) (Pure.pure ()) := by
    intro bodies s
    refine ⟨[⟨sight, active, bodies⟩], fun past => rfl, ?_, ?_⟩
    · exact List.forall_mem_singleton.2 (.here limit active bodies sight)
    · exact iff_of_false (not_failsDeep_ok () s) (by simpa using hroom bodies)
  exact hsee.bind fun _ => h

theorem visit {x : Metered Value} {m : Eval Value} (node : Node)
    (h : Counts level limit active x m) :
    Counts level limit active (Metered.visit level node x) (Eval.visit level node m) := by
  unfold Metered.visit Eval.visit
  refine see_bind (fun _ hover => by cases hover) ?_
  cases node.place? with
  | some place => exact (own (.emit _ _)).bind fun _ => h.located place
  | none => exact h

end Counts

theorem plain_of_step {node : Node} {P : α → Prop} {m : Eval α}
    (h : Eval.OwnStep level (fun _ => True) node P m) : Plain m := by
  cases h with
  | lookup name => exact .lookup name
  | compare op => exact .lift (.of_failsBy fun _ => Value.failsBy_compare op _ _)
  | binary op => exact .result fun _ => Value.failsBy_binary op _ _
  | unary op => exact .result fun _ => Value.failsBy_unary op _
  | apply => exact .apply level (fun _ _ => .pure _) _ _
  | property name => exact .lift (.of_failsBy fun _ => Value.failsBy_property name _)
  | index => exact .lift (.of_failsBy fun _ => Value.failsBy_index _ _)
  | convert type => exact .result fun _ => Value.failsBy_convert type _
  | declare name => exact .declare name _
  | isLabelOf => exact .lift (.of_failsBy fun _ => Value.failsBy_isLabelOf _ _)
  | noItems first t => exact .noItems first t
  | frame => exact .lift (.frame _ _)
  | checkResult => exact .lift (.checkResult _ _)
  | defined | tested | matched | called | returned => exact .emit _ _
  | exhausted => exact .fail fun _ h => by cases h

-- To count calls is to do what is done without a count.
def uniform (level limit active : Int) : (handler level).Uniform Unit where
  Like x m := Counts level limit active (x ()) m
  pure := .pure
  bind := .bind_of_ok
  own hstep := .own (plain_of_step hstep)
  fault _ := .fault
  bindTarget way _ target value := .own (.bindTarget level way target value)
  inScope frame hx := hx.inScope frame
  visit node hx := hx.visit node

abbrev likeness (level limit active : Int) : (handler level).Likeness Unit :=
  (uniform level limit active).likeness

section Calls

variable {p : Procedure Value} {args : List Value}

theorem enter_of_lt (past : Past) (hroom : active < limit) (bodies : List (Procedure Value))
    (s : State) :
    counted (Counting.enter limit) (past.meter active bodies s) =
      .ok () (past.meter (active + 1) bodies s) := by
  rw [counted, Counting.enter_of_lt (by exact hroom)]
  rfl

theorem enter_of_le (past : Past) (hfull : limit ≤ active) (bodies : List (Procedure Value))
    (s : State) :
    counted (Counting.enter limit) (past.meter active bodies s) =
      .error (.ofCause (.callDepth limit)) (past.meter active bodies s) := by
  rw [counted, Counting.enter_of_le (by exact hfull)]

-- Inside a call the count is one more, and so are the bodies.
theorem counts_within (hroom : active < limit) (frame : Frame Value) {x : Metered α} {m : Eval α}
    (h : Counts level limit (active + 1) x m) :
    Counts level limit active (within limit p frame x) (Eval.inScope frame m) := by
  intro bodies s
  obtain ⟨seen, hsame, hfair, hdeep⟩ :=
    h (p :: bodies) { s with scopes := s.scopes.push frame }
  refine ⟨seen, fun past => ?_, fun sg hsg => ?_, (failsDeep_inScope frame m s).trans hdeep⟩
  · rw [within, Eval.bind_eq_of_ok (enter_of_lt past hroom bodies s)]
    rw [Eval.inScope_eq, ending_mapState]
    refine (between_of_ending (between_of_ending (between_of_ending (hsame past)))).trans ?_
    have hback : active + 1 - 1 = active := by omega
    refine congrArg (fun f => ending f _) (funext fun t => ?_)
    simp only [Past.meter, hback]
    rfl
  · obtain ⟨hcount, hbounded⟩ := hfair sg hsg
    simp only [List.length_cons] at hcount
    exact ⟨by omega, by omega⟩

theorem emit_called (h : p.Passes level args) (s : State) :
    Eval.emit level (.called p.name args) s =
      .ok () (Eval.emitted level (.called p.name args) s) := by
  by_cases hlevel : ((Event.called p.name args).level : Int) ≤ level
  · have htext : (Event.called p.name args).fault? = none := if_pos (h.shown hlevel)
    rw [Eval.emit_eq_modify htext]
    rfl
  · rw [Eval.emit, if_neg hlevel, Eval.emitted, if_neg hlevel]
    rfl

theorem passes_of_ok {frame : Frame Value} {s t u w : State}
    (hframe : (Eval.lift (p.frame args) : Eval (Frame Value)) s = .ok frame t)
    (hcalled : Eval.emit level (.called p.name args) u = .ok () w) : p.Passes level args where
  received := ⟨frame, eq_ok_of_lift hframe⟩
  shown hlevel := by
    by_contra htext
    have hfault : (Event.called p.name args).fault? = some .endlessText := if_neg htext
    have hreported : ((Event.called p.name args).level : Int) ≤ level := hlevel
    rw [Eval.emit, if_pos hreported, hfault] at hcalled
    cases hcalled

-- A call for which there is room.
theorem counts_call_of_lt (hroom : active < limit) {node : Node} (hnode : node.isCall)
    {evaluate : Node → Metered Value} {body : Eval Value}
    (hbody : Counts level limit (active + 1) (evaluate p.body) body) :
    Counts level limit active (call level limit evaluate node p args)
      (Eval.calling level p args fun frame => Eval.inScope frame body) := by
  refine .see_bind ?_ ?_
  · rintro bodies ⟨-, hfull⟩
    omega
  · exact (uniform level limit active).invoke hnode p args
      (fun _ frame => within limit p frame (evaluate p.body))
      fun frame => counts_within hroom frame hbody

-- A call beyond the limit gets as far as that.
theorem call_of_passes (hpasses : p.Passes level args) (hfull : limit ≤ active)
    (evaluate : Node → Metered Value) (node : Node) (past : Past) (bodies : List (Procedure Value))
    (s : State) :
    call level limit evaluate node p args (past.meter active bodies s) =
      .error (.ofCause (.callDepth limit))
        ((past.seeing [⟨.call p args, active, bodies⟩]).meter active bodies
          (Eval.emitted level (.called p.name args) s)) := by
  obtain ⟨frame, hframe⟩ := hpasses.received
  let seeing := past.seeing [⟨.call p args, active, bodies⟩]
  have hsee : see (.call p args) (past.meter active bodies s) =
      .ok () (seeing.meter active bodies s) := rfl
  have hreceived : own (Eval.lift (p.frame args)) (seeing.meter active bodies s) =
      .ok frame (seeing.meter active bodies s) := by
    rw [own_of_steady (.lift _), hframe]
    rfl
  have hcalled : own (Eval.emit level (.called p.name args)) (seeing.meter active bodies s) =
      .ok () (seeing.meter active bodies (Eval.emitted level (.called p.name args) s)) := by
    rw [own_of_steady (.emit _ _), emit_called hpasses]
    rfl
  have hwithin (u : State) : within limit p frame (evaluate p.body)
      (seeing.meter active bodies u) = _ :=
    Eval.bind_eq_of_error (enter_of_le seeing hfull bodies u)
  rw [call, Eval.bind_eq_of_ok hsee, Handler.invoke]
  exact (Eval.bind_eq_of_ok hreceived).trans <| (Eval.bind_eq_of_ok hcalled).trans <|
    Eval.bind_eq_of_error (hwithin _)

theorem invoke_zero_of_passes (hpasses : p.Passes level args) (s : State) :
    Eval.invoke level limit 0 p args s =
      .error (.ofCause (.callDepth limit)) (Eval.emitted level (.called p.name args) s) := by
  obtain ⟨frame, hframe⟩ := hpasses.received
  rw [Eval.invoke_zero, hframe]
  exact Eval.bind_eq_of_ok (emit_called hpasses s)

-- A call for which there is none fails for this reason if it does not fail before.
theorem counts_call_of_le (hfull : limit ≤ active) (evaluate : Node → Metered Value)
    (node : Node) : Counts level limit active (call level limit evaluate node p args)
      (Eval.invoke level limit 0 p args) := by
  by_cases hpasses : p.Passes level args
  · intro bodies s
    have hplain : Eval.invoke level limit 0 p args s = _ := invoke_zero_of_passes hpasses s
    refine ⟨[⟨.call p args, active, bodies⟩], fun past => ?_, ?_, ?_⟩
    · rw [hplain]
      exact call_of_passes hpasses hfull evaluate node past bodies s
    · exact List.forall_mem_singleton.2 (.here limit active bodies _)
    · rw [hplain, failsDeep_error]
      refine iff_of_true (Failure.isDeep_callDepth limit) ⟨_, List.mem_singleton.2 rfl, ?_⟩
      exact .call hpasses hfull
  · rw [Eval.invoke_zero]
    refine .see_bind (fun _ ⟨passes, _⟩ => hpasses passes) ?_
    refine (Counts.own (.lift (.frame p args))).bind_of_ok fun frame s t hframe => ?_
    exact (Counts.own (.emit _ _)).bind_of_ok fun _ u w hcalled =>
      absurd (passes_of_ok hframe hcalled) hpasses

end Calls

section Nodes

-- With as much room as the count leaves, bodies are never left to `beyond`.
theorem calls_invoke (beyond : Node → Metered Value) {room : Nat}
    (hroom : (limit - active).toNat = room) :
    (likeness level limit active).Calls (fun _ => invoke level limit beyond room)
      (Eval.invoke level limit room) := by
  induction room generalizing active with
  | zero =>
    intro c node p args hisCall hnode hp hargs
    exact (uniform level limit active).like (counts_call_of_le (by omega) beyond node)
  | succ room ih =>
    intro c node p args hisCall hnode hp hargs
    rw [Eval.invoke_succ_eq]
    have hroom' : (limit - (active + 1)).toNat = room := by omega
    have hbody := (uniform level limit (active + 1)).runBody node p.body
      ((uniform level limit (active + 1)).evals_eval (ih hroom'))
    exact (uniform level limit active).like (counts_call_of_lt (by omega) hisCall hbody)

theorem counts_eval (beyond : Node → Metered Value) {room : Nat}
    (hroom : (limit - active).toNat = room) (node : Node) :
    Counts level limit active (eval level (invoke level limit beyond room) node)
      (Eval.eval level (Eval.invoke level limit room) node) :=
  ((uniform level limit active).evals_eval (calls_invoke beyond hroom) node ()).1

end Nodes

section Runs

theorem counts_execute [Machine] (level depth : Int) (beyond : Node → Metered Value)
    (program : Node) (body : Items Node) :
    Counts level depth 0 (execute level depth beyond program body)
      (Eval.execute level depth body) := by
  have hcalls : (likeness level depth 0).Calls
      (fun _ => invoke level depth beyond depth.toNat) (Eval.invoke level depth depth.toNat) :=
    calls_invoke beyond (by omega)
  exact (uniform level depth 0).execute program depth body
    ((uniform level depth 0).evals_eval hcalls)

theorem reporting_of_error (level : Int) {m : Eval α} {s t : State} {e : Failure}
    (h : m s = .error e t) :
    Eval.reporting (fun e => Eval.emit level (.failed e)) m s =
      Eval.reporting (fun e => Eval.emit level (.failed e)) (throw e) t := by
  rw [Eval.reporting, h]
  rfl

theorem steady_reporting_throw (level : Int) (e : Failure) :
    Eval.Steady (Eval.reporting (fun e => Eval.emit level (.failed e)) (throw e) : Eval α) := by
  have hreported (e : Error) : Eval.Steady (Eval.reporting.reported
      (fun e => Eval.emit level (.failed e)) e : Eval α) :=
    (Eval.Steady.emit _ _).bind fun _ => .throw _
  cases e with
  | error e => exact hreported e
  | fault f =>
    cases f with
    | endlessText => exact hreported _
    | _ => exact .throw _

theorem isDeep_reportedAs (level : Int) (e : Failure) (t : State) :
    (Eval.reportedAs level e t).1.IsDeep limit ↔ e.IsDeep limit := by
  cases e with
  | error e => rfl
  | fault f =>
    refine iff_of_false ?_ (Failure.not_isDeep_fault f)
    cases f with
    | endlessText => exact Failure.not_isDeep_ofCause fun h => by cases h
    | _ => exact Failure.not_isDeep_fault _

theorem failsDeep_reporting (level : Int) (m : Eval α) (s : State) :
    FailsDeep limit (Eval.reporting (fun e => Eval.emit level (.failed e)) m s) ↔
      FailsDeep limit (m s) := by
  rw [Eval.reporting_eq]
  exact failsDeep_around (isDeep_reportedAs level) m s

theorem counts_reporting {x : Metered α} {m : Eval α} (h : Counts level limit active x m) :
    Counts level limit active (reporting level x)
      (Eval.reporting (fun e => Eval.emit level (.failed e)) m) := by
  intro bodies s
  obtain ⟨seen, hsame, hfair, hdeep⟩ := h bodies s
  refine ⟨seen, fun past => ?_, hfair, (failsDeep_reporting level m s).trans hdeep⟩
  cases hm : m s with
  | ok a t =>
    rw [reporting, hsame, hm, Eval.reporting, hm]
    rfl
  | error e t =>
    rw [reporting, hsame, hm, reporting_of_error level hm]
    exact own_of_steady (steady_reporting_throw level e) (past.seeing seen) bodies t

theorem plain_finish (level : Int) (value : Value) : Plain (Eval.finish level value) := by
  unfold Eval.finish
  split
  · exact (Plain.emit _ _).bind fun _ => .pure value
  · exact .fault _

theorem shallow_checkStack (settings : Settings) : Outcome.Shallow settings.checkStack := by
  unfold Settings.checkStack
  split
  · exact .fault _
  · split
    · exact .fault _
    · split
      · exact .fault _
      · exact .ok _

theorem depth_of_checkStack {settings : Settings} {depth : Int}
    (h : settings.checkStack = .ok depth) : settings.depth = some depth := by
  unfold Settings.checkStack at h
  split at h
  · cases h
  · split at h
    · cases h
    · split at h
      · cases h
      · rwa [← Except.ok.inj h]

-- A run leaves nothing counted if nothing was counted before.
theorem counts_run [Machine] (level limit : Int) (beyond : Node → Metered Value) (program : Node) :
    Counts level limit 0 (run ⟨level, some limit⟩ beyond program)
      (Eval.run ⟨level, some limit⟩ program) := by
  have hanew : Counts level limit 0 (modify fun c => { c with active := 0 }) (pure ()) :=
    fun bodies s => ⟨[], fun _ => rfl, by simp, iff_of_false (not_failsDeep_ok () s) (by simp)⟩
  cases hbody : program.body? with
  | none =>
    simp only [run, Handler.run, Eval.run, hbody, Option.map_none]
    exact .fault _
  | some body =>
    cases hsize : body.size? with
    | none =>
      simp only [run, Handler.run, Eval.run, hbody, hsize, Option.map_some]
      exact .fault _
    | some size =>
      simp only [run, Handler.run, Eval.run, hbody, hsize, Option.map_some]
      refine (Counts.own (.emit _ _)).bind fun _ => ?_
      refine (Counts.own (.lift (shallow_checkStack _))).bind_of_ok fun depth s t hstack => ?_
      obtain rfl : limit = depth := Option.some.inj (depth_of_checkStack (eq_ok_of_lift hstack))
      have hexecute := counts_execute level limit beyond program body
      have hrun := (counts_reporting hexecute).bind fun value =>
        Counts.own (plain_finish level value)
      exact hanew.bind fun _ => hrun

end Runs

end Metered

end TernLang
