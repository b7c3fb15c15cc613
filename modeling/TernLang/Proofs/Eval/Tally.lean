import TernLang.Proofs.Eval.Destructuring

-- Calls that are counted when they begin and when they end. The count is all that the room for
-- calls depends on, so a call of the evaluator is a call that is counted.

namespace TernLang

-- A state, and how many calls stand inside each other in it.
structure Tally where
  state : State
  active : Int

-- A computation that may count calls.
abbrev Counting := EStateM Failure Tally

namespace Counting

open Eval

variable {α β : Type} {c : Tally} {limit : Int}

-- A computation that leaves the count as it is.
def uncounted (m : Eval α) : Counting α := fun c =>
  match m c.state with
  | .ok a s => .ok a { c with state := s }
  | .error e s => .error e { c with state := s }

-- Counts a call that begins. If there are too many it is taken back.
def enter (limit : Int) : Counting Unit := fun c =>
  let counted := { c with active := c.active + 1 }
  if limit < counted.active then
    .error (.ofCause (.callDepth limit)) { counted with active := counted.active - 1 }
  else .ok () counted

-- The scope of a body is opened.
def opened (frame : Frame Value) (c : Tally) : Tally :=
  { c with state := { c.state with scopes := c.state.scopes.push frame } }

-- The scope of a body is left, and the call is over.
def left (c : Tally) : Tally where
  state := { c.state with scopes := c.state.scopes.pop }
  active := c.active - 1

-- Leaves a call whether it ends well or not.
def leaving (m : Counting α) : Counting α := fun c =>
  match m c with
  | .ok a c => .ok a (left c)
  | .error e c => .error e (left c)

-- What comes after a body.
def finish (level : Int) (p : Procedure Value) (m : Counting Value) : Counting Value := do
  let value ← leaving m
  uncounted (lift (p.checkResult value))
  uncounted (emit level (.returned p.name value))
  pure value

-- Calls a declared function, whose body is evaluated by `evaluate`.
def call (level limit : Int) (evaluate : Node → Counting Value) (p : Procedure Value)
    (args : List Value) : Counting Value := do
  let frame ← uncounted (lift (p.frame args))
  uncounted (emit level (.called p.name args))
  enter limit
  modify (opened frame)
  finish level p (evaluate p.body)

-- The evaluator for bodies. There is room for as many calls as may still be counted.
def bodies (level limit : Int) (body : Node) : Counting Value := fun c =>
  uncounted (runBody level (invoke level limit (limit - c.active).toNat) body) c

theorem enter_of_lt (h : c.active < limit) :
    enter limit c = .ok () { c with active := c.active + 1 } := by
  have hroom : ¬limit < c.active + 1 := by omega
  exact if_neg hroom

theorem enter_of_le (h : limit ≤ c.active) :
    enter limit c = .error (.ofCause (.callDepth limit)) c := by
  have hfull : limit < c.active + 1 := by omega
  have hback : c.active + 1 - 1 = c.active := by omega
  simp only [enter, if_pos hfull, hback]

theorem uncounted_of_ok {m : Eval α} {a : α} {s : State} (h : m c.state = .ok a s) :
    uncounted m c = .ok a { c with state := s } := by
  rw [uncounted, h]

theorem uncounted_of_error {m : Eval α} {e : Failure} {s : State} (h : m c.state = .error e s) :
    uncounted m c = .error e { c with state := s } := by
  rw [uncounted, h]

theorem uncounted_bind (m : Eval α) (k : α → Eval β) :
    uncounted (m >>= k) = uncounted m >>= fun a => uncounted (k a) := by
  funext c
  cases h : m c.state with
  | ok a s => rw [bind_eq_of_ok (uncounted_of_ok h), uncounted, uncounted, bind_eq_of_ok h]
  | error e s =>
    rw [bind_eq_of_error (uncounted_of_error h), uncounted_of_error (bind_eq_of_error h)]

theorem bind_congr_run {m m' : Counting α} {k : α → Counting β} {d : Tally} (h : m c = m' d) :
    (m >>= k) c = (m' >>= k) d := by
  simp only [Bind.bind, EStateM.bind, h]

-- What follows a computation that leaves the count may rely on the count before it.
theorem uncounted_bind_congr {m : Eval α} {k k' : α → Counting β}
    (h : ∀ a d, d.active = c.active → k a d = k' a d) :
    (uncounted m >>= k) c = (uncounted m >>= k') c := by
  cases hm : m c.state with
  | ok a s =>
    rw [bind_eq_of_ok (uncounted_of_ok hm), bind_eq_of_ok (uncounted_of_ok hm)]
    exact h a _ rfl
  | error e s =>
    rw [bind_eq_of_error (uncounted_of_error hm), bind_eq_of_error (uncounted_of_error hm)]

-- A body that is counted has one call less to go than there were before it.
theorem leaving_bodies (level limit : Int) (frame : Frame Value) (body : Node) (c : Tally) :
    leaving (bodies level limit body) (opened frame { c with active := c.active + 1 }) =
      uncounted (inScope frame
        (runBody level (invoke level limit (limit - (c.active + 1)).toNat) body)) c := by
  have hback : c.active + 1 - 1 = c.active := by omega
  simp only [leaving, bodies, uncounted, inScope, opened]
  cases runBody level (invoke level limit (limit - (c.active + 1)).toNat) body
      { c.state with scopes := c.state.scopes.push frame } with
  | ok value s => simp only [left, hback]
  | error e s => simp only [left, hback]

theorem call_bodies (level limit : Int) (p : Procedure Value) (args : List Value) (c : Tally) :
    call level limit (bodies level limit) p args c =
      uncounted (invoke level limit (limit - c.active).toNat p args) c := by
  -- Nothing before the body changes the count, so that it decides here whether there is room.
  rcases Int.lt_or_le c.active limit with hlt | hle
  · obtain ⟨room, hroom⟩ : ∃ room, (limit - c.active).toNat = room + 1 :=
      ⟨(limit - c.active - 1).toNat, by omega⟩
    have hrest : (limit - (c.active + 1)).toNat = room := by omega
    rw [hroom, invoke]
    simp only [uncounted_bind]
    refine uncounted_bind_congr fun frame d hd => uncounted_bind_congr fun _ d' hd' => ?_
    have hactive : d'.active = c.active := hd'.trans hd
    have hopen (e : Tally) : (modify (opened frame) : Counting Unit) e = .ok () (opened frame e) :=
      rfl
    have hbody := leaving_bodies level limit frame p.body d'
    rw [hactive, hrest] at hbody
    rw [bind_eq_of_ok (enter_of_lt (hactive ▸ hlt)), bind_eq_of_ok (hopen _), hactive, finish]
    exact bind_congr_run hbody
  · have hroom : (limit - c.active).toNat = 0 := by omega
    rw [hroom, invoke_zero]
    simp only [uncounted_bind]
    refine uncounted_bind_congr fun frame d hd => uncounted_bind_congr fun _ d' hd' => ?_
    have hactive : d'.active = c.active := hd'.trans hd
    rw [bind_eq_of_error (enter_of_le (hactive ▸ hle))]
    rfl

end Counting

end TernLang
