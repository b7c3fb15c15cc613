import TernLang.Proofs.Eval.Parallel
import TernLang.Proofs.Eval.Progress

-- More room for calls inside each other changes nothing, unless it was missing: a program cannot
-- tell how much of it there is.

namespace TernLang

namespace Eval

-- Two runs with different room for calls. The first is lost when it has none left.
def Pairing.depths (level : Int) : Pairing where
  level
  level' := level
  place := Eq
  trace := Eq
  lost e := ∃ error, e = .error error ∧ error.cause.cls = .recursionDepth
  level_le := Int.le_refl level
  located := located_of_eq
  push := @push_of_eq level
  pass := @pass_of_eq level
  lost_locate := by
    rintro _ ⟨error, rfl, hclass⟩ p
    exact ⟨error.locate p, rfl, by rw [Error.cause_locate]; exact hclass⟩
  lost_fault h := absurd h (Int.lt_irrefl level)
  refl_of_lost _ _ := rfl

theorem lost_callDepth (level limit : Int) :
    (Pairing.depths level).lost (.ofCause (.callDepth limit)) := ⟨_, rfl, rfl⟩

theorem lost_stackExhausted (level : Int) :
    (Pairing.depths level).lost (.ofCause .stackExhausted) := ⟨_, rfl, rfl⟩

-- A longer stretch goes on where a shorter one ends.
theorem takeWhile_eq_append {α : Type} {p q : α → Bool} (hpq : ∀ a, p a → q a) (as : List α) :
    as.takeWhile q = as.takeWhile p ++ (as.dropWhile p).takeWhile q := by
  induction as with
  | nil => rfl
  | cons a as ih =>
    by_cases hp : p a
    · simp [hp, hpq a hp, ih]
    · simp [hp]

theorem hasRoom_mono [Machine] {d d' : Int} (hle : d ≤ d') (n : Node) (h : Settings.hasRoom d n) :
    Settings.hasRoom d' n :=
  decide_eq_true (Nat.le_trans (of_decide_eq_true h) (Machine.levels_mono hle))

-- The statements for which there is room in either run are evaluated alike; the first run is lost
-- if there are others.
theorem follows_execute_le [Machine] (level : Int) {d d' : Int} (hle : d ≤ d') (body : Items Node) :
    Follows (.depths level) (Value.Twin Eq) (execute level d body) (execute level d' body) := by
  have hrefl : ∀ p : Place, p = p := fun _ => rfl
  have hcall : CallsFollow (.depths level) (invoke level d d.toNat) (invoke level d' d'.toNat) :=
    callsFollow_invoke_le (.depths level) (lost_callDepth level d) (by omega)
  cases body with
  | other t => exact follows_evalBody (c := .depths level) (.other t)
  | list statements =>
    have hsequence (as : List Node) : Follows (.depths level) (Value.Twin Eq)
        (evalSequence level (invoke level d d.toNat) .null as)
        (evalSequence level (invoke level d' d'.toNat) .null as) :=
      follows_evalSequence (c := .depths level)
        (List.forall₂_same.2 fun n _ => follows_eval hcall (.refl hrefl n)) .null
    have hlonger := takeWhile_eq_append (hasRoom_mono hle) statements
    by_cases hall : (statements.takeWhile (Settings.hasRoom d)).length = statements.length
    · have hfitting : statements.takeWhile (Settings.hasRoom d) = statements :=
        (List.takeWhile_prefix _).eq_of_length hall
      have hfitting' : statements.takeWhile (Settings.hasRoom d') = statements := by
        refine (List.takeWhile_prefix _).eq_of_length (Nat.le_antisymm ?_ ?_)
        · exact (List.takeWhile_prefix _).length_le
        · rw [hlonger, hfitting, List.length_append]
          omega
      simp only [execute, hfitting, hfitting']
      exact (hsequence statements).bind fun _ _ hv => .pure hv
    · simp only [execute, if_neg hall, hlonger, evalSequence_append, bind_assoc]
      refine (hsequence _).bind fun _ w _ => .losing (lost_stackExhausted level) ?_
      refine extends_of_itself level ?_ (lost_stackExhausted level)
      have hself : CallsFollow (.itself level) (invoke level d' d'.toNat)
          (invoke level d' d'.toNat) := callsFollow_invoke (.itself level) d' d'.toNat
      have hrest (as : List Node) := follows_evalSequence (c := .itself level)
        (List.forall₂_same.2 fun n (_ : n ∈ as) => follows_eval hself (.refl hrefl n))
        (.refl hrefl w)
      refine (hrest _).bind fun _ _ hv => ?_
      split
      · exact .pure hv
      · exact .fail _

-- The ends of runs in which a call or a statement found no room.
def EndsDeep (x : EStateM.Result Failure State Value) : Prop :=
  ∃ e t, x = .error (.error e) t ∧ e.cause.cls = .recursionDepth

theorem meets_run_le [Machine] (level : Int) {d d' : Int} (hd : Settings.HasStack d)
    (hd' : Settings.HasStack d') (hle : d ≤ d') (program : Node) (s : State) :
    Meets (.depths level) (Value.Twin Eq) (run ⟨level, some d⟩ program s)
      (run ⟨level, some d'⟩ program s) := by
  have hrefl : ∀ p : Place, p = p := fun _ => rfl
  have hpairs (s : State) : (Pairing.depths level).Pairs s s :=
    ⟨.refl hrefl _, rfl, rfl, rfl, rfl⟩
  cases hbody : program.body? with
  | none =>
    simp only [run, hbody, Option.map_none]
    exact .error (.fault _) (hpairs s)
  | some body =>
    cases hsize : body.size? with
    | none =>
      simp only [run, hbody, hsize, Option.map_some]
      exact .error (.fault _) (hpairs s)
    | some size =>
      rw [run_of_checkStack (Settings.checkStack_of_hasStack level hd) hbody hsize,
        run_of_checkStack (Settings.checkStack_of_hasStack level hd') hbody hsize]
      refine meets_runFrom (c := .depths level) ((follows_execute_le level hle body).meets
        (hpairs _)) ?_
      rintro _ u he ⟨error, rfl, -⟩
      simp

theorem eq_of_pairs {level : Int} {s t : State} (h : (Pairing.depths level).Pairs s t) : s = t := by
  obtain ⟨hscopes, hinput, houtput, htrace, hresults⟩ := h
  have hchain := hscopes.eq
  cases s
  cases t
  simp_all only [Pairing.depths]

theorem eq_or_extends_of_meets {level : Int} {x y : EStateM.Result Failure State Value}
    (h : Meets (.depths level) (Value.Twin Eq) x y) :
    y = x ∨ EndsDeep x ∧ ∃ more, (finalState y).output = (finalState x).output ++ more := by
  cases h with
  | ok value states => exact .inl (by rw [value.eq, eq_of_pairs states])
  | error failure states => exact .inl (by rw [failure.eq, eq_of_pairs states])
  | lost failure more =>
    obtain ⟨error, rfl, hclass⟩ := failure
    exact .inr ⟨⟨error, _, rfl, hclass⟩, more.output⟩

-- A run that does not end for want of room ends in the same way with more of it, and in the same
-- state; and one that does has written the beginning of what the other writes.
theorem run_of_depth_le [Machine] {d d' : Int} (hd : Settings.HasStack d)
    (hd' : Settings.HasStack d')
    (hle : d ≤ d') (level : Int) (program : Node) (s : State) :
    (¬EndsDeep (run ⟨level, some d⟩ program s) →
      run ⟨level, some d'⟩ program s = run ⟨level, some d⟩ program s) ∧
    (EndsDeep (run ⟨level, some d⟩ program s) →
      ∃ more, (finalState (run ⟨level, some d'⟩ program s)).output =
        (finalState (run ⟨level, some d⟩ program s)).output ++ more) := by
  rcases eq_or_extends_of_meets (meets_run_le level hd hd' hle program s) with heq | ⟨hdeep, hmore⟩
  · exact ⟨fun _ => heq, fun _ => ⟨"", by rw [heq, String.append_empty]⟩⟩
  · exact ⟨fun hnot => absurd hdeep hnot, fun _ => hmore⟩

section

attribute [local instance] Machine.usual

theorem run_of_depth_le_number :
    (Settings.HasStack 10 ∧ Settings.HasStack 1000) ∧
      run ⟨0, some 1000⟩ (.program .start (.list [.literal .start (.int 1) (.str "Integer")]))
          (Session.start ⟨0, some 10⟩ "").state =
        run ⟨0, some 10⟩ (.program .start (.list [.literal .start (.int 1) (.str "Integer")]))
          (Session.start ⟨0, some 10⟩ "").state := by
  have hstack : Settings.HasStack 10 := ⟨by decide, by decide⟩
  have hstack' : Settings.HasStack 1000 := ⟨by decide, by decide⟩
  refine ⟨⟨hstack, hstack'⟩, (run_of_depth_le hstack hstack' (by decide) 0 _ _).1 ?_⟩
  have hvalue : outcome (run ⟨0, some 10⟩
      (.program .start (.list [.literal .start (.int 1) (.str "Integer")]))
      (Session.start ⟨0, some 10⟩ "").state) = .ok (.int 1) := rfl
  rintro ⟨e, t, he, -⟩
  rw [he] at hvalue
  exact absurd hvalue (by simp [outcome])

-- There need not be a stack for more calls: the program `1` has no value at the depth 2 ^ 27.
theorem not_run_of_depth_le :
    ¬∀ d d' : Int, d ≤ d' → ∀ (level : Int) (program : Node) (s : State),
      ¬EndsDeep (run ⟨level, some d⟩ program s) →
        run ⟨level, some d'⟩ program s = run ⟨level, some d⟩ program s := by
  intro h
  have hvalue : outcome (run ⟨0, some 1000⟩
      (.program .start (.list [.literal .start (.int 1) (.str "Integer")]))
      (Session.start ⟨0, some 1000⟩ "").state) = .ok (.int 1) := rfl
  have hfault : outcome (run ⟨0, some 134217728⟩
      (.program .start (.list [.literal .start (.int 1) (.str "Integer")]))
      (Session.start ⟨0, some 1000⟩ "").state) = .error (.fault .boundlessStack) := rfl
  rw [h 1000 134217728 (by decide), hvalue] at hfault
  · exact absurd hfault (by simp)
  · rintro ⟨e, t, he, -⟩
    rw [he] at hvalue
    exact absurd hvalue (by simp [outcome])

end

end Eval

end TernLang
