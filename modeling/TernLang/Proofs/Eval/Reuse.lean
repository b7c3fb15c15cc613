import TernLang.Proofs.Eval.Framing
import TernLang.Proofs.Eval.Metering

-- What is left of a run for the next one. Between runs no call is counted and only the global scope
-- is open, however the last run ended.

namespace TernLang

-- No call is counted that is over, and only the global scope is open.
structure Meter.Idle (c : Meter) : Prop where
  active : c.active = 0
  bodies : c.bodies = []
  outer : c.state.scopes.outer = []

-- The meter of an interpreter that has run nothing yet, with the same global names and the same
-- input. The numbers of results go on, as they are those of the host.
def Meter.fresh (c : Meter) : Meter where
  state :=
    { scopes := ⟨c.state.scopes.current, []⟩, input := c.state.input, output := "", trace := #[],
      results := c.state.results }
  active := 0

-- A meter of a later time, with what was written, reported and come upon up to `c`.
def Meter.since (c d : Meter) : Meter :=
  { d with
    state := d.state.onto c.state.output c.state.trace
    sightings := d.sightings ++ c.sightings }

namespace Metered

open Eval (FailsDeep)

variable {α : Type}

def finalMeter : EStateM.Result Failure Meter α → Meter
  | .ok _ c => c
  | .error _ c => c

-- The same end with another meter.
def mapMeter (f : Meter → Meter) :
    EStateM.Result Failure Meter α → EStateM.Result Failure Meter α
  | .ok a c => .ok a (f c)
  | .error e c => .error e (f c)

theorem onto_empty (s : State) : s.onto "" #[] = s := by
  simp [State.onto]

theorem finalMeter_ending (f : State → Meter) (y : EStateM.Result Failure State α) :
    finalMeter (ending f y) = f (Eval.finalState y) := by
  cases y <;> rfl

theorem mapMeter_ending (f : Meter → Meter) (g : State → Meter)
    (y : EStateM.Result Failure State α) :
    mapMeter f (ending g y) = ending (fun t => f (g t)) y := by
  cases y <;> rfl

section Runs

variable {level limit : Int} {beyond : Node → Metered Value} {program : Node} {c : Meter}

-- What a meter is like when a run from `c` has ended in a state and come upon these.
def ended (c : Meter) (seen : List Sighting) (t : State) : Meter :=
  { c with state := t, sightings := seen ++ c.sightings }

-- A meter with its own past.
theorem meter_eq (c : Meter) :
    Past.meter ⟨"", #[], c.sightings⟩ c.active c.bodies c.state = c := by
  simp only [Past.meter, onto_empty]

theorem ended_eq (c : Meter) (seen : List Sighting) :
    (Past.seeing ⟨"", #[], c.sightings⟩ seen).meter c.active c.bodies = ended c seen := by
  funext t
  simp only [Past.meter, Past.seeing, onto_empty, ended]

theorem exists_ended {active : Int} {x : Metered α} {m : Eval α}
    (h : Counts level limit active x m) (hactive : c.active = active) :
    ∃ seen, x c = ending (ended c seen) (m c.state) ∧
      (∀ sg ∈ seen, sg.Fair limit c.active c.bodies) ∧
      (FailsDeep limit (m c.state) ↔ ∃ sg ∈ seen, sg.Overruns level limit) := by
  subst hactive
  obtain ⟨seen, hsame, hfair, hdeep⟩ := h c.bodies c.state
  refine ⟨seen, ?_, hfair, hdeep⟩
  have hrun := hsame ⟨"", #[], c.sightings⟩
  rwa [meter_eq, ended_eq] at hrun

theorem outer_run [Machine] (settings : Settings) (program : Node) {s : State}
    (hs : s.scopes.outer = []) :
    (Eval.finalState (Eval.run settings program s)).scopes.outer = [] := by
  have hframed := (Eval.hasCourse_run settings program).framed s
  have hlength := hframed.outer.length_eq
  rw [hs] at hlength
  exact List.eq_nil_of_length_eq_zero hlength.symm

theorem idle_run [Machine] (hc : c.Idle) :
    (finalMeter (run ⟨level, some limit⟩ beyond program c)).Idle := by
  obtain ⟨seen, hrun, -⟩ := exists_ended (counts_run level limit beyond program) hc.active
  rw [hrun, finalMeter_ending]
  exact ⟨hc.active, hc.bodies, outer_run _ program hc.outer⟩

-- An idle meter is a fresh one that has a past.
theorem eq_meter_of_idle (hc : c.Idle) :
    c = Past.meter ⟨c.state.output, c.state.trace, c.sightings⟩ 0 [] c.fresh.state := by
  obtain ⟨⟨⟨⟨current, outer⟩, input, output, trace, results⟩, active⟩, bodies, sightings⟩ := c
  obtain ⟨rfl, rfl, rfl⟩ := hc
  simp [Past.meter, Meter.fresh, State.onto]

theorem run_of_idle [Machine] (hc : c.Idle) :
    run ⟨level, some limit⟩ beyond program c =
      mapMeter c.since (run ⟨level, some limit⟩ beyond program c.fresh) := by
  obtain ⟨seen, hsame, -⟩ := counts_run level limit beyond program [] c.fresh.state
  have hnow := hsame ⟨c.state.output, c.state.trace, c.sightings⟩
  have hfresh := hsame ⟨"", #[], []⟩
  have hstart : Past.meter ⟨"", #[], []⟩ 0 [] c.fresh.state = c.fresh := meter_eq c.fresh
  rw [← eq_meter_of_idle hc] at hnow
  rw [hstart] at hfresh
  rw [hnow, hfresh, mapMeter_ending]
  refine congrArg (fun f => ending f _) (funext fun t => ?_)
  simp only [Past.meter, Past.seeing, Meter.since, onto_empty, List.append_nil]

-- In a run from nothing the count is the number of the bodies.
theorem overruns_iff {sg : Sighting} (h : sg.Fair limit 0 []) :
    sg.Overruns level limit ↔ ∃ p args, sg.sight = .call p args ∧ p.Passes level args ∧
      (sg.bodies.length : Int) = max limit 0 := by
  obtain ⟨sight, active, bodies⟩ := sg
  have hcount : active = bodies.length := by simpa using h.count
  have hbounded : active ≤ max limit 0 := h.bounded
  have hfull : limit ≤ active ↔ (bodies.length : Int) = max limit 0 := by omega
  constructor
  · rintro ⟨passes, full⟩
    exact ⟨_, _, rfl, passes, hfull.1 full⟩
  · rintro ⟨p, args, rfl, hpasses, hbodies⟩
    exact .call hpasses (hfull.2 hbodies)

end Runs

section Sessions

variable {level limit : Int} {c : Meter} {s : Session}

-- What a host does with an interpreter that counts its calls.
def step [Machine] (settings : Settings) (beyond : Node → Metered Value)
    (c : Meter) : Session.Step → Meter
  | .run source =>
    match Node.parse source with
    | .ok program => finalMeter (run settings beyond program c)
    | .error _ => c
  | .define name data =>
    match Session.define ⟨settings, c.state⟩ (.str name) data with
    | .ok s => { c with state := s.state }
    | .error _ => c

-- A step keeps an interpreter idle, and does to its state what it does without a count.
theorem idle_step [Machine] (beyond : Node → Metered Value)
    (hsettings : s.settings = ⟨level, some limit⟩)
    (hstate : c.state = s.state) (hc : c.Idle) (st : Session.Step) :
    (step s.settings beyond c st).Idle ∧
      (step s.settings beyond c st).state = (s.step st).state := by
  cases st with
  | run source =>
    rw [step, Session.step]
    cases hparse : Node.parse source with
    | error failure =>
      rw [Session.runSource, hparse]
      exact ⟨hc, hstate⟩
    | ok program =>
      rw [Session.runSource_of_parse hparse, Session.state_perform, hsettings, ← hstate]
      refine ⟨idle_run hc, ?_⟩
      obtain ⟨seen, hrun, -⟩ := exists_ended (counts_run level limit beyond program) hc.active
      have hend := congrArg finalMeter hrun
      rw [finalMeter_ending] at hend
      exact congrArg (·.state) hend
  | define name data =>
    rw [step, Session.step, Session.define, Session.define]
    cases data.toValue with
    | error failure => exact ⟨hc, hstate⟩
    | ok value =>
      refine ⟨⟨hc.active, hc.bodies, hc.outer⟩, ?_⟩
      exact congrArg (fun t : State => { t with scopes := t.scopes.declare name value }) hstate

theorem idle_steps [Machine] (beyond : Node → Metered Value)
    (hsettings : s.settings = ⟨level, some limit⟩)
    (hstate : c.state = s.state) (hc : c.Idle) (list : List Session.Step) :
    (list.foldl (step s.settings beyond) c).Idle ∧
      (list.foldl (step s.settings beyond) c).state = (s.steps list).state := by
  induction list generalizing c s with
  | nil => exact ⟨hc, hstate⟩
  | cons st list ih =>
    have hsame := Session.settings_step s st
    obtain ⟨hidle, hstep⟩ := idle_step beyond hsettings hstate hc st
    rw [List.foldl_cons, Session.steps, List.foldl_cons, ← hsame]
    rw [← hsame] at hidle hstep
    exact ih (hsame.trans hsettings) hstep hidle

end Sessions

-- The count of calls. However the evaluation of a node ends, the count is afterwards what it was
-- before, and so are the bodies that are being evaluated. Between the steps of a session it is 0.
-- A run does then what it does without a count. At every node and call that it comes upon, the
-- count is the number of the bodies and has not passed the limit, and it fails because calls stand
-- too deep if and only if a call that nothing else holds up is come upon while as many bodies are
-- being evaluated as may be. The next run is that of a new interpreter with the same global names
-- and the same input.
theorem count_restored [Machine] (level limit : Int) (beyond : Node → Metered Value) (c : Meter) :
    (∀ node,
      let x := eval level (invoke level limit beyond (limit - c.active).toNat) node c
      (finalMeter x).active = c.active ∧
      ∃ seen,
        x = ending (ended c seen)
          (Eval.eval level (Eval.invoke level limit (limit - c.active).toNat) node c.state) ∧
        ∀ sg ∈ seen, sg.active - c.active = sg.bodies.length - c.bodies.length ∧
          sg.active ≤ max limit c.active) ∧
    (∀ input list,
      let d := list.foldl (step ⟨level, some limit⟩ beyond)
        { state := (Session.start ⟨level, some limit⟩ input).state, active := 0 }
      d.Idle ∧ d.state = ((Session.start ⟨level, some limit⟩ input).steps list).state) ∧
    ∀ program, c.Idle →
      let x := run ⟨level, some limit⟩ beyond program c
      let d := finalMeter x
      (∃ seen,
        x = ending (ended c seen) (Eval.run ⟨level, some limit⟩ program c.state) ∧
        (∀ sg ∈ seen, sg.active = sg.bodies.length ∧ sg.active ≤ max limit 0) ∧
        (FailsDeep limit (Eval.run ⟨level, some limit⟩ program c.state) ↔
          ∃ sg ∈ seen, ∃ p args, sg.sight = .call p args ∧ p.Passes level args ∧
            (sg.bodies.length : Int) = max limit 0)) ∧
      d.Idle ∧
      ∀ next, run ⟨level, some limit⟩ beyond next d =
        mapMeter d.since (run ⟨level, some limit⟩ beyond next d.fresh) := by
  refine ⟨fun node => ?_, fun input list => ?_, fun program hc => ?_⟩
  · obtain ⟨seen, hsame, hfair, -⟩ := exists_ended (counts_eval beyond rfl node) rfl
    refine ⟨?_, seen, hsame, fun sg hsg => ⟨(hfair sg hsg).count, (hfair sg hsg).bounded⟩⟩
    rw [hsame, finalMeter_ending]
    rfl
  · exact idle_steps beyond (s := Session.start _ input) rfl rfl ⟨rfl, rfl, rfl⟩ list
  · have hrun := counts_run level limit beyond program
    obtain ⟨seen, hsame, hfair, hdeep⟩ := exists_ended hrun hc.active
    rw [hc.active, hc.bodies] at hfair
    refine ⟨⟨seen, hsame, fun sg hsg => ?_, hdeep.trans ?_⟩, idle_run hc, fun next => ?_⟩
    · obtain ⟨hcount, hbounded⟩ := hfair sg hsg
      simp only [List.length_nil] at hcount
      exact ⟨by omega, hbounded⟩
    · exact exists_congr fun sg => and_congr_right fun hsg => overruns_iff (hfair sg hsg)
    · exact run_of_idle (idle_run hc)

section

attribute [local instance] Machine.usual

-- A function that calls itself without end is stopped while two of its bodies are being evaluated,
-- and the interpreter can be used again.
theorem count_restored_endless :
    let again : Node := .call .start (.ident .start (.str "f")) (.list [])
    let endless : Node := .program .start (.list
      [.function .start (.str "f") (.list []) none (.block .start (.list [again])), again])
    let number : Node := .program .start (.list [.literal .start (.int 1) (.str "Integer")])
    let c : Meter := { state := (Session.start ⟨0, some 2⟩ "").state, active := 0 }
    let d := finalMeter (run ⟨0, some 2⟩ (fun _ => pure .null) endless c)
    c.Idle ∧ d.Idle ∧ (∃ sg ∈ d.sightings, sg.active = 2 ∧ sg.bodies.length = 2) ∧
      ∃ e : Meter, run ⟨0, some 2⟩ (fun _ => pure .null) number d = .ok (.int 1) (d.since e) := by
  intro again endless number c d
  have hc : c.Idle := ⟨rfl, rfl, rfl⟩
  have hdeep : FailsDeep 2 (Eval.run ⟨0, some 2⟩ endless c.state) := by decide +kernel
  obtain ⟨-, -, hrun⟩ := count_restored 0 2 (fun _ => pure .null) c
  obtain ⟨⟨seen, hsame, hcount, hfails⟩, hidle, hnext⟩ := hrun endless hc
  refine ⟨hc, hidle, ?_, ?_⟩
  · obtain ⟨sg, hsg, p, args, -, -, hbodies⟩ := hfails.1 hdeep
    have hend := congrArg finalMeter hsame
    rw [finalMeter_ending] at hend
    have hseen : d.sightings = seen ++ c.sightings := congrArg (·.sightings) hend
    have hactive := (hcount sg hsg).1
    exact ⟨sg, hseen ▸ List.mem_append_left _ hsg, by omega, by omega⟩
  · have hvalue : ∃ e, run ⟨0, some 2⟩ (fun _ => pure .null) number d.fresh = .ok (.int 1) e :=
      ⟨_, rfl⟩
    obtain ⟨e, he⟩ := hvalue
    exact ⟨e, (hnext number).trans (congrArg (mapMeter d.since) he)⟩

end

section

attribute [local instance] Machine.usual

-- At a negative limit no call has room, although no number of bodies is negative. And where calls
-- are traced one whose argument is no value fails before it is counted.
theorem not_forall_failsDeep_iff :
    (¬∀ (limit : Int) (program : Node) (c : Meter), c.Idle → c.sightings = [] →
      let x := run ⟨0, some limit⟩ (fun _ => pure .null) program c
      FailsDeep limit (Eval.run ⟨0, some limit⟩ program c.state) ↔
        ∃ sg ∈ (finalMeter x).sightings, ∃ p args, sg.sight = .call p args ∧
          (∃ frame, p.frame args = .ok frame) ∧ (sg.bodies.length : Int) = limit) ∧
    ¬∀ (level limit : Int) (program : Node) (c : Meter), 0 ≤ limit → c.Idle → c.sightings = [] →
      let x := run ⟨level, some limit⟩ (fun _ => pure .null) program c
      FailsDeep limit (Eval.run ⟨level, some limit⟩ program c.state) ↔
        ∃ sg ∈ (finalMeter x).sightings, ∃ p args, sg.sight = .call p args ∧
          (∃ frame, p.frame args = .ok frame) ∧ (sg.bodies.length : Int) = limit := by
  constructor
  · intro h
    let start : Meter := { state := (Session.start ⟨0, some (-1)⟩ "").state, active := 0 }
    let program : Node := .program .start (.list
      [.function .start (.str "f") (.list []) none (.block .start (.list
          [.literal .start (.int 1) (.str "Integer")])),
        .call .start (.ident .start (.str "f")) (.list [])])
    have hdeep : FailsDeep (-1) (Eval.run ⟨0, some (-1)⟩ program start.state) := by decide +kernel
    obtain ⟨sg, -, -, -, -, -, hbodies⟩ := (h (-1) program start ⟨rfl, rfl, rfl⟩ rfl).1 hdeep
    omega
  · intro h
    let start : Meter := { state := (Session.start ⟨3, some 0⟩ "").state, active := 0 }
    let program : Node := .program .start (.list
      [.function .start (.str "f") (.list [.parameter .start (.str "a") none]) none
          (.block .start (.list [])),
        .call .start (.ident .start (.str "f")) (.list [.literal .start .null (.str "Integer")])])
    have hexhausted : ¬FailsDeep 0 (Eval.run ⟨3, some 0⟩ program start.state) := by decide +kernel
    have hcall : (finalMeter (run ⟨3, some 0⟩ (fun _ => pure .null) program start)).sightings.any
        (fun sg => match sg.sight with
          | .call p args => (p.frame args).isOk && sg.bodies.isEmpty
          | .node _ => false) := by decide +kernel
    obtain ⟨⟨sight, active, bodies⟩, hsg, htest⟩ := List.any_eq_true.1 hcall
    refine hexhausted ((h 3 0 program start (by decide) ⟨rfl, rfl, rfl⟩ rfl).2 ⟨_, hsg, ?_⟩)
    cases sight with
    | node n => cases htest
    | call p args =>
      obtain ⟨hframe, hbodies⟩ := Bool.and_eq_true_iff.1 htest
      refine ⟨p, args, rfl, ?_, ?_⟩
      · cases hp : p.frame args with
        | ok frame => exact ⟨frame, rfl⟩
        | error e =>
          rw [hp] at hframe
          cases hframe
      · rw [List.isEmpty_iff.1 hbodies]
        rfl

end

end Metered

end TernLang
