import Mathlib.Tactic.Common
import TernLang.Session

-- Computations inside others. A node that is evaluated, a scope that is opened and a run that is
-- reported are each a computation with something done before it and after it.

namespace TernLang

namespace Eval

section Runs

variable {σ α β : Type} {m : EStateM Failure σ α} {k : α → EStateM Failure σ β} {s t : σ}

theorem bind_eq_of_ok {a : α} (h : m s = .ok a t) : (m >>= k) s = k a t := by
  simp only [Bind.bind, EStateM.bind, h]

theorem bind_eq_of_error {e : Failure} (h : m s = .error e t) : (m >>= k) s = .error e t := by
  simp only [Bind.bind, EStateM.bind, h]

theorem exists_of_bind {b : β} {u : σ} (h : (m >>= k) s = .ok b u) :
    ∃ a t, m s = .ok a t ∧ k a t = .ok b u := by
  cases hm : m s with
  | ok a t => exact ⟨a, t, rfl, by rwa [bind_eq_of_ok hm] at h⟩
  | error e t =>
    rw [bind_eq_of_error hm] at h
    cases h

end Runs

variable {α : Type}

-- A computation that starts in a state of its own, and whose end or failure is changed afterwards.
def around (start finish : State → State) (handle : Failure → State → Failure × State)
    (m : Eval α) : Eval α := fun s =>
  match m (start s) with
  | .ok a t => .ok a (finish t)
  | .error e t => .error (handle e t).1 (handle e t).2

section Around

variable {start finish : State → State} {handle : Failure → State → Failure × State}
variable {m : Eval α} {s t : State}

theorem around_of_ok {a : α} (h : m (start s) = .ok a t) :
    around start finish handle m s = .ok a (finish t) := by
  simp only [around, h]

theorem around_of_error {e : Failure} (h : m (start s) = .error e t) :
    around start finish handle m s = .error (handle e t).1 (handle e t).2 := by
  simp only [around, h]

theorem exists_of_around_ok {a : α} (h : around start finish handle m s = .ok a t) :
    ∃ u, m (start s) = .ok a u := by
  cases hm : m (start s) with
  | ok b u =>
    rw [around_of_ok hm] at h
    cases h
    exact ⟨u, rfl⟩
  | error e u =>
    rw [around_of_error hm] at h
    cases h

end Around

theorem located_eq_around (place : Place) (m : Eval α) :
    located place m = around id id (fun e t => (e.locate place, t)) m := by
  funext s
  cases hm : m s <;> simp only [located, around, id, hm]

theorem inScope_eq_around (frame : Frame Value) (m : Eval α) :
    inScope frame m =
      around (fun s => { s with scopes := s.scopes.push frame })
        (fun t => { t with scopes := t.scopes.pop })
        (fun e t => (e, { t with scopes := t.scopes.pop })) m := by
  funext s
  cases hm : m { s with scopes := s.scopes.push frame } <;> simp only [inScope, around, hm]

-- How a run fails that reports its failure first.
def reportedFailure (report : Error → Eval Unit) (e : Error) (t : State) : Failure × State :=
  match report e t with
  | .ok () u => (.error e, u)
  | .error failure u => (failure, u)

theorem reported_eq (report : Error → Eval Unit) (e : Error) (t : State) :
    (reporting.reported report e : Eval α) t =
      .error (reportedFailure report e t).1 (reportedFailure report e t).2 := by
  simp only [reporting.reported, reportedFailure, Bind.bind, EStateM.bind]
  cases report e t <;> rfl

theorem reporting_eq_around (report : Error → Eval Unit) (m : Eval α) :
    reporting report m =
      around id id
        (fun e t =>
          match e with
          | .error e => reportedFailure report e t
          | .fault .endlessText => reportedFailure report ⟨.stackExhausted, .unknown⟩ t
          | .fault f => (.fault f, t)) m := by
  funext s
  simp only [reporting, around, id]
  cases m s with
  | ok a t => rfl
  | error e t =>
    cases e with
    | error e => exact reported_eq report e t
    | fault f =>
      cases f with
      | endlessText => exact reported_eq report _ t
      | _ => rfl

theorem invoke_zero (level limit : Int) (p : Procedure Value) (args : List Value) :
    invoke level limit 0 p args = (do
      let _ ← lift (p.frame args)
      emit level (.called p.name args)
      fail (.callDepth limit)) := by
  simp only [invoke, discard, Functor.discard, map_const, Function.comp_apply, bind_map_left]

-- A call around whatever is done with the scope of its arguments.
def calling (level : Int) (p : Procedure Value) (args : List Value)
    (body : Frame Value → Eval Value) : Eval Value := do
  let frame ← lift (p.frame args)
  emit level (.called p.name args)
  let value ← body frame
  lift (p.checkResult value)
  emit level (.returned p.name value)
  pure value

-- A call without room gets as far as to its body.
theorem invoke_zero_eq (level limit : Int) (p : Procedure Value) (args : List Value) :
    invoke level limit 0 p args = calling level p args fun _ => fail (.callDepth limit) := by
  rw [invoke_zero]
  rfl

theorem invoke_succ_eq (level limit : Int) (room : Nat) (p : Procedure Value) (args : List Value) :
    invoke level limit (room + 1) p args = calling level p args fun frame =>
      inScope frame (runBody level (invoke level limit room) p.body) := rfl

end Eval

end TernLang
