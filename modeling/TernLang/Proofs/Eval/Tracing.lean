import TernLang.Proofs.Eval.Parallel
import TernLang.Proofs.Eval.Progress

-- Traces change nothing but the traces: a session with more of a trace gives the same answers,
-- writes and reads the same and leaves the same names, and its trace has the events of the other
-- one and those of the levels between.

namespace TernLang

-- The events of a trace up to a level.
def Event.upTo (level : Int) (events : List Event) : List Event :=
  events.filter fun e => (e.level : Int) ≤ level

namespace Eval

-- Two runs with traces of different levels. A failure that no proper program has loses the run
-- with the higher one.
def Pairing.traces {low high : Int} (hle : low ≤ high) : Pairing where
  level := high
  level' := low
  place := Eq
  trace a b := b.toList = Event.upTo low a.toList
  lost e := ∃ f, e = .fault f ∧ f ≠ .unreadableNumber
  level_le := hle
  located := located_of_eq
  push {a b e f} ht he hlevel := by
    rw [← he.eq] at hlevel ⊢
    simp [Event.upTo, ht, hlevel]
  pass {a b e} ht _ hlevel := by simp [Event.upTo, ht, hlevel]
  lost_locate := by
    rintro _ ⟨f, rfl, hf⟩ p
    exact ⟨f, rfl, hf⟩
  lost_fault _ f hf := ⟨f, rfl, hf⟩
  refl_of_lost _ _ := rfl

variable {low high : Int} {hle : low ≤ high}

theorem not_lost_of_isExpected {e : Failure} (h : e.IsExpected) :
    ¬(Pairing.traces hle).lost e := by
  rintro ⟨f, rfl, hf⟩
  exact hf (Failure.eq_unreadableNumber h)

-- Two ends are the same but for the events above the lower level.
structure SameEnd (hle : low ≤ high) (x y : EStateM.Result Failure State Value) : Prop where
  outcomes : outcome x = outcome y
  states : (Pairing.traces hle).Pairs (finalState x) (finalState y)

theorem sameEnd_of_meets {x y : EStateM.Result Failure State Value}
    (h : Meets (.traces hle) (Value.Twin Eq) x y) (hx : IsSettled Value.Proper x) :
    SameEnd hle x y := by
  cases h with
  | ok value states => exact ⟨by rw [value.eq]; rfl, states⟩
  | error failure states => exact ⟨by rw [failure.eq]; rfl, states⟩
  | lost failure _ => exact absurd failure (not_lost_of_isExpected hx.1)

theorem sameEnd_run [Machine] (depth : Option Int) {program : Node}
    (hprogram : program.IsProgram .any)
    {s t : State} (hs : s.scopes.Proper) (hst : (Pairing.traces hle).Pairs s t) :
    SameEnd hle (run ⟨high, depth⟩ program s) (run ⟨low, depth⟩ program t) := by
  cases hprogram with
  | @program place statements hplace hstatements =>
    have hstart := hst.emitted (.started statements.length)
    cases hstack : Settings.checkStack ⟨high, depth⟩ with
    | error failure =>
      have hstack' : Settings.checkStack ⟨low, depth⟩ = .error failure := hstack
      rw [run_of_checkStack_error hstack rfl rfl, run_of_checkStack_error hstack' rfl rfl]
      exact ⟨rfl, hstart⟩
    | ok d =>
      have hrun := keeps_run hstack (.program hplace hstatements) s hs
      have hexecute : Keeps Value.Proper (execute high d (.list statements)) :=
        keeps_execute d hstatements
      have hstack' : Settings.checkStack ⟨low, depth⟩ = .ok d := hstack
      rw [run_of_checkStack hstack rfl rfl] at hrun ⊢
      rw [run_of_checkStack hstack' rfl rfl]
      refine sameEnd_of_meets (meets_runFrom (c := .traces hle) ?_ ?_) hrun
      · exact (follows_execute (.traces hle) d (Node.Twin.refl_items (fun _ => rfl) _)).meets hstart
      · intro e u he hlost
        exact absurd hlost
          (not_lost_of_isExpected (hexecute.isExpected (by rwa [scopes_emitted]) he))

end Eval

namespace Session

open Eval

-- What a step gives the host: the value of a program, or nothing for a definition.
def answer [Machine] (s : Session) : Step → Except Failure (Option Value)
  | .run source => (s.runSource source).1.map some
  | .define name data => (s.define (.str name) data).map fun _ => none

-- What the steps of a session give, one after another.
def answers [Machine] (s : Session) : List Step → List (Except Failure (Option Value))
  | [] => []
  | st :: list => s.answer st :: (s.step st).answers list

variable {low high : Int} {hle : low ≤ high}

-- Two sessions after the same steps, the first with the higher level.
structure Traced (hle : low ≤ high) (depth : Option Int) (s t : Session) : Prop where
  settings : s.settings = ⟨high, depth⟩
  settings' : t.settings = ⟨low, depth⟩
  proper : s.state.scopes.Proper
  states : (Pairing.traces hle).Pairs s.state t.state

variable {depth : Option Int} {s t : Session}

theorem Traced.runSource [Machine] (h : Traced hle depth s t) (source : String) :
    (s.runSource source).1 = (t.runSource source).1 ∧
      (Pairing.traces hle).Pairs (s.runSource source).2.state (t.runSource source).2.state := by
  cases hparse : Node.parse source with
  | error failure =>
    rw [Session.runSource, Session.runSource, hparse]
    exact ⟨rfl, h.states⟩
  | ok program =>
    have hend := sameEnd_run depth (Node.isProgram_of_parse hparse) h.proper h.states
    rw [runSource_of_parse hparse, runSource_of_parse hparse, h.settings, h.settings', fst_perform,
      fst_perform, state_perform, state_perform]
    exact ⟨hend.outcomes, hend.states⟩

theorem Traced.step [Machine] (h : Traced hle depth s t) {st : Step} (hst : st.IsProper) :
    s.answer st = t.answer st ∧ Traced hle depth (s.step st) (t.step st) := by
  have hsettings := (settings_step s st).trans h.settings
  have hsettings' := (settings_step t st).trans h.settings'
  have hproper := proper_step h.proper hst
  cases st with
  | run source =>
    obtain ⟨hanswer, hstates⟩ := h.runSource source
    exact ⟨by rw [answer, answer, hanswer], hsettings, hsettings', hproper, hstates⟩
  | define name data =>
    obtain ⟨v, hdata, hv, -⟩ := hst
    have hdefine (u : Session) : u.define (.str name) data =
        .ok { u with state := { u.state with scopes := u.state.scopes.declare name v } } := by
      rw [define, hdata]
      rfl
    refine ⟨by rw [answer, answer, hdefine, hdefine]; rfl, hsettings, hsettings', hproper, ?_⟩
    simp only [Session.step, hdefine]
    exact { h.states with scopes := h.states.scopes.declare name (.refl (fun _ => rfl) v) }

theorem Traced.steps [Machine] (h : Traced hle depth s t) {list : List Step}
    (hlist : ∀ st ∈ list, st.IsProper) :
    s.answers list = t.answers list ∧ Traced hle depth (s.steps list) (t.steps list) := by
  induction list generalizing s t with
  | nil => exact ⟨rfl, h⟩
  | cons st list ih =>
    rw [List.forall_mem_cons] at hlist
    obtain ⟨hanswer, hstep⟩ := h.step hlist.1
    obtain ⟨hanswers, hsteps⟩ := ih hstep hlist.2
    exact ⟨by rw [answers, answers, hanswer, hanswers], hsteps⟩

theorem traced_start (hle : low ≤ high) (depth : Option Int) (input : String) :
    Traced hle depth (start ⟨high, depth⟩ input) (start ⟨low, depth⟩ input) where
  settings := rfl
  settings' := rfl
  proper := proper_start _ input
  states := ⟨.refl (fun _ => rfl) _, rfl, rfl, rfl, rfl⟩

-- The level of the trace shows in the trace only, and what a lower level has of it is what the
-- higher one has up to that level.
theorem steps_of_level_le [Machine] {low high : Int} (hle : low ≤ high) (depth : Option Int)
    (input : String)
    {list : List Step} (hlist : ∀ st ∈ list, st.IsProper) :
    (start ⟨low, depth⟩ input).answers list = (start ⟨high, depth⟩ input).answers list ∧
      ((start ⟨low, depth⟩ input).steps list).state.scopes =
        ((start ⟨high, depth⟩ input).steps list).state.scopes ∧
      ((start ⟨low, depth⟩ input).steps list).state.input =
        ((start ⟨high, depth⟩ input).steps list).state.input ∧
      ((start ⟨low, depth⟩ input).steps list).state.output =
        ((start ⟨high, depth⟩ input).steps list).state.output ∧
      ((start ⟨low, depth⟩ input).steps list).state.trace.toList =
        Event.upTo low ((start ⟨high, depth⟩ input).steps list).state.trace.toList := by
  obtain ⟨hanswers, hsteps⟩ := (traced_start hle depth input).steps hlist
  obtain ⟨hscopes, hinput, houtput, htrace, -⟩ := hsteps.states
  exact ⟨hanswers.symm, hscopes.eq.symm, hinput.symm, houtput.symm, htrace⟩

section

attribute [local instance] Machine.usual

theorem steps_of_level_le_number :
    (∀ st ∈ [Step.define "limit" (.int 9), .run "let a = limit; a()"], st.IsProper) ∧
      (start ⟨1, some 20⟩ "").answers [.define "limit" (.int 9), .run "let a = limit; a()"] =
        (start ⟨4, some 20⟩ "").answers [.define "limit" (.int 9), .run "let a = limit; a()"] ∧
      ((start ⟨1, some 20⟩ "").steps
          [.define "limit" (.int 9), .run "let a = limit; a()"]).state.trace.toList =
        Event.upTo 1 ((start ⟨4, some 20⟩ "").steps
          [.define "limit" (.int 9), .run "let a = limit; a()"]).state.trace.toList := by
  have hsteps : ∀ st ∈ [Step.define "limit" (.int 9), .run "let a = limit; a()"],
      st.IsProper := by
    have hfits : Word.Fits 9 := by decide
    simp only [List.mem_cons, List.not_mem_nil, or_false, forall_eq_or_imp, forall_eq]
    exact ⟨⟨.int 9, rfl, .int 9, .int hfits⟩, trivial⟩
  have hle : (1 : Int) ≤ 4 := by decide
  obtain ⟨hanswers, -, -, -, htrace⟩ := steps_of_level_le hle (some 20) "" hsteps
  exact ⟨hsteps, hanswers, htrace⟩

end

end Session

end TernLang
