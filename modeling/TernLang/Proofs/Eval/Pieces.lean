import TernLang.Proofs.Eval.Parallel
import TernLang.Proofs.Eval.Progress
import TernLang.Proofs.Syntax.Joined

-- A source text is the same as its pieces run one after another: two texts with a semicolon between
-- them do what the first does and then, if that ended well, what the second does.

namespace TernLang

-- The places that were there before stay; those of the second text are so many lines down.
def Place.Moved (old : Place → Prop) (k : Nat) (p q : Place) : Prop :=
  old p ∧ q = p ∨ Place.Below k p q

theorem Place.Below.known {k : Nat} {p q : Place} (h : Place.Below k p q) :
    p.Known ↔ q.Known := by
  obtain ⟨pos, hline, rfl, rfl⟩ := h
  simp only [Place.known_ofPosition, Position.Known, Position.down]
  omega

theorem Place.Moved.known {old : Place → Prop} {k : Nat} {p q : Place}
    (h : Place.Moved old k p q) : p.Known ↔ q.Known := by
  rcases h with ⟨-, rfl⟩ | h
  · exact Iff.rfl
  · exact h.known

-- All the places in these scopes are old.
def Chain.Within (old : Place → Prop) (c : Chain Value) : Prop :=
  c.Twin (fun p q => old p ∧ q = p) c

-- The same states but for the trace, and for the places of functions.
structure State.Twin (R : Place → Place → Prop) (s t : State) : Prop where
  scopes : s.scopes.Twin R t.scopes
  input : s.input = t.input
  output : s.output = t.output
  results : s.results = t.results

namespace Eval

-- Two runs of programs in different places, whatever their traces are.
def Pairing.places (level : Int) {R : Place → Place → Prop}
    (located : ∀ {p q e f}, R p q → Failure.Twin R e f →
      Failure.Twin R (e.locate p) (f.locate q)) : Pairing where
  level
  level' := level
  place := R
  trace _ _ := True
  lost _ := False
  level_le := Int.le_refl level
  located
  push _ _ _ := trivial
  pass _ _ _ := trivial
  lost_locate h := h.elim
  lost_fault h := absurd h (Int.lt_irrefl level)
  refl_of_lost h := h.elim

section Ends

variable {level : Int} {R : Place → Place → Prop} {s t : State}
variable {located : ∀ {p q e f}, R p q → Failure.Twin R e f →
  Failure.Twin R (e.locate p) (f.locate q)}

theorem pairs_of_twin (h : s.Twin R t) : (Pairing.places level located).Pairs s t :=
  ⟨h.scopes, h.input, h.output, trivial, h.results⟩

theorem twin_of_pairs (h : (Pairing.places level located).Pairs s t) : s.Twin R t :=
  ⟨h.scopes, h.input, h.output, h.results⟩

theorem twin_emitted_left (h : s.Twin R t) (e : Event) : (emitted level e s).Twin R t := by
  unfold emitted
  split
  · exact ⟨h.scopes, h.input, h.output, h.results⟩
  · exact h

theorem twin_emitted_right (h : s.Twin R t) (e : Event) : s.Twin R (emitted level e t) := by
  unfold emitted
  split
  · exact ⟨h.scopes, h.input, h.output, h.results⟩
  · exact h

-- The ends of two runs, but for what they report.
structure EndTwin (R : Place → Place → Prop) (x y : EStateM.Result Failure State Value) : Prop where
  outcomes : Outcome.Twin R (Value.Twin R) (outcome x) (outcome y)
  states : (finalState x).Twin R (finalState y)

theorem endTwin_of_meets {x y : EStateM.Result Failure State Value}
    (h : Meets (Pairing.places level located) (Value.Twin R) x y) : EndTwin R x y := by
  cases h with
  | ok value states => exact ⟨.ok value, twin_of_pairs states⟩
  | error failure states => exact ⟨.error failure, twin_of_pairs states⟩
  | lost failure _ => exact failure.elim

-- Twin programs end alike in twin states.
theorem endTwin_runFrom [Machine] (known : ∀ {p q}, R p q → (p.Known ↔ q.Known)) {depth : Int}
    {a b : Items Node} (hab : Items.Twin (Node.Twin R) a b) (h : s.Twin R t) :
    EndTwin R (runFrom level depth a s) (runFrom level depth b t) := by
  have hlocated {p q : Place} {e f : Failure} (hpq : R p q) (hef : Failure.Twin R e f) :
      Failure.Twin R (e.locate p) (f.locate q) := hef.locate known hpq
  have hmeets := (follows_execute (.places level hlocated) depth hab).meets (pairs_of_twin h)
  exact endTwin_of_meets (meets_runFrom hmeets fun _ _ _ hlost => hlost.elim)

end Ends

section Execute

variable (level depth : Int)

variable {level depth}

theorem runFrom_of_error [Machine] {body : Items Node} {e : Failure} {s t : State}
    (h : execute level depth body s = .error e t) :
    runFrom level depth body s = .error (reportedAs level e t).1 (reportedAs level e t).2 := by
  have hreporting : reporting (fun e => emit level (.failed e)) (execute level depth body) s =
      .error (reportedAs level e t).1 (reportedAs level e t).2 := by
    rw [reporting_eq]
    exact around_of_error h
  simp only [runFrom, Bind.bind, EStateM.bind, hreporting]

theorem runFrom_of_ok [Machine] {body : Items Node} {v : Value} {s t : State}
    (h : execute level depth body s = .ok v t) : runFrom level depth body s = finish level v t := by
  have hreporting : reporting (fun e => emit level (.failed e)) (execute level depth body) s =
      .ok v t := by
    rw [reporting_eq]
    exact around_of_ok h
  simp only [runFrom, Bind.bind, EStateM.bind, hreporting]

theorem finish_of_hasText {v : Value} (h : v.hasText) (t : State) :
    finish level v t = .ok v (emitted level (.finished v) t) := by
  have hfault : (Event.finished v).fault? = none := by
    simp [Event.fault?, Event.values, Value.haveText, h]
  simp only [finish, h, if_true, emit_eq_modify hfault]
  rfl

theorem finish_of_not_hasText {v : Value} (h : ¬v.hasText) (t : State) :
    finish level v t = .error (.fault .endlessText) t := by
  simp only [finish, h]
  rfl

variable {as bs : List Node} {s t : State}

end Execute

section Sequels

variable {settings : Settings} {depth : Int} {k : Nat} {as bs moved : List Node}

variable [Machine]

end Sequels

section Readings

variable [Machine] {settings : Settings} {k : Nat} {bs : List Node}
variable {x z : EStateM.Result Failure State Value}

end Readings

end Eval

namespace Session

open Eval

section

attribute [local instance] Machine.usual

end

end Session

end TernLang
