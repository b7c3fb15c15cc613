import TernLang.Proofs.Eval.Around
import TernLang.Proofs.Eval.Fuel
import TernLang.Proofs.Eval.Likeness

-- Every run ends: with enough fuel it comes to its outcome, and more fuel changes nothing.

namespace TernLang

namespace Fuelled

variable {α β : Type}

-- For every amount of fuel the computation runs out of it or has the outcome of `m`, and from some
-- amount on it always has the outcome.
structure Reaches (f : Nat → Fuelled α) (m : Eval α) : Prop where
  agrees (n : Nat) (s : State) :
    (∃ t, (f n).run s = .ok none t) ∨ (f n).run s = (some <$> m) s
  enough (s : State) : ∃ least, ∀ n, least ≤ n → (f n).run s = (some <$> m) s

namespace Reaches

variable {f : Nat → Fuelled α} {m : Eval α} {g : Nat → α → Fuelled β} {k : α → Eval β}

theorem step (m : Eval α) : Reaches (fun _ => Fuelled.step m) m where
  agrees _ _ := .inr rfl
  enough _ := ⟨0, fun _ _ => rfl⟩

theorem pure (a : α) : Reaches (fun _ => (Pure.pure a : Fuelled α)) (Pure.pure a) where
  agrees _ _ := .inr rfl
  enough _ := ⟨0, fun _ _ => rfl⟩

theorem map_some_ok {m : Eval α} {s t : State} {a : α} (h : m s = .ok a t) :
    (some <$> m) s = .ok (some a) t := by
  change (m >>= fun a => Pure.pure (some a)) s = _
  simp only [Bind.bind, EStateM.bind, h]
  rfl

theorem map_some_error {m : Eval α} {s t : State} {e : Failure} (h : m s = .error e t) :
    (some <$> m) s = .error e t := by
  change (m >>= fun a => Pure.pure (some a)) s = _
  simp only [Bind.bind, EStateM.bind, h]

-- One computation after another, where the first has its outcome.
theorem run_bind_of_ok {x : Fuelled α} {y : α → Fuelled β} {s t : State} {a : α}
    (h : x.run s = .ok (some a) t) : (x >>= y).run s = (y a).run t := by
  rw [OptionT.run_bind]
  simp only [Option.elimM, Bind.bind, EStateM.bind, h, Option.elim]

theorem run_bind_of_none {x : Fuelled α} {y : α → Fuelled β} {s t : State}
    (h : x.run s = .ok none t) : (x >>= y).run s = .ok none t := by
  rw [OptionT.run_bind]
  simp only [Option.elimM, Bind.bind, EStateM.bind, h, Option.elim]
  rfl

theorem run_bind_of_error {x : Fuelled α} {y : α → Fuelled β} {s t : State} {e : Failure}
    (h : x.run s = .error e t) : (x >>= y).run s = .error e t := by
  rw [OptionT.run_bind]
  simp only [Option.elimM, Bind.bind, EStateM.bind, h]

theorem bind (hf : Reaches f m)
    (hg : ∀ a s t, m s = .ok a t → Reaches (fun n => g n a) (k a)) :
    Reaches (fun n => f n >>= g n) (m >>= k) := by
  -- What follows once the first computation has its outcome.
  have hnext (s : State) (n : Nat) (h : (f n).run s = (some <$> m) s) :
      (∃ a t, m s = .ok a t ∧ (f n >>= g n).run s = (g n a).run t ∧
        (some <$> (m >>= k)) s = (some <$> k a) t) ∨
      (f n >>= g n).run s = (some <$> (m >>= k)) s := by
    cases hm : m s with
    | ok a t =>
      have hbind : (some <$> (m >>= k)) s = (some <$> k a) t := by
        change (m >>= k >>= fun b => Pure.pure (some b)) s = (k a >>= fun b => Pure.pure (some b)) t
        simp only [Bind.bind, EStateM.bind, hm]
      exact .inl ⟨a, t, rfl, run_bind_of_ok (h.trans (map_some_ok hm)), hbind⟩
    | error e t =>
      have hbind : (m >>= k) s = .error e t := by
        simp only [Bind.bind, EStateM.bind, hm]
      exact .inr ((run_bind_of_error (h.trans (map_some_error hm))).trans
        (map_some_error hbind).symm)
  constructor
  · intro n s
    rcases hf.agrees n s with ⟨t, hout⟩ | h
    · exact .inl ⟨t, run_bind_of_none hout⟩
    · rcases hnext s n h with ⟨a, t, hok, hrun, hbind⟩ | h
      · rw [hrun, hbind]
        exact (hg a s t hok).agrees n t
      · exact .inr h
  · intro s
    obtain ⟨first, hfirst⟩ := hf.enough s
    cases hm : m s with
    | ok a t =>
      obtain ⟨second, hsecond⟩ := (hg a s t hm).enough t
      refine ⟨max first second, fun n hn => ?_⟩
      rcases hnext s n (hfirst n (by omega)) with ⟨b, u, hok, hrun, hbind⟩ | h
      · rw [hm, EStateM.Result.ok.injEq] at hok
        obtain ⟨rfl, rfl⟩ := hok
        rw [hrun, hbind]
        exact hsecond n (by omega)
      · exact h
    | error e t =>
      refine ⟨first, fun n hn => ?_⟩
      rcases hnext s n (hfirst n hn) with ⟨b, u, hok, -, -⟩ | h
      · rw [hm] at hok
        exact absurd hok (by simp)
      · exact h

theorem around (start finish : State → State) (handle : Failure → State → Failure × State)
    (h : Reaches f m) :
    Reaches (fun n => OptionT.mk (Eval.around start finish handle (OptionT.run (f n))))
      (Eval.around start finish handle m) := by
  have hsome (x : Eval (Option α)) (s : State) (hx : x (start s) = (some <$> m) (start s)) :
      Eval.around start finish handle x s = (some <$> Eval.around start finish handle m) s := by
    cases hm : m (start s) with
    | ok a t =>
      rw [map_some_ok (Eval.around_of_ok hm)]
      exact Eval.around_of_ok (hx.trans (map_some_ok hm))
    | error e t =>
      rw [map_some_error (Eval.around_of_error hm)]
      exact Eval.around_of_error (hx.trans (map_some_error hm))
  constructor
  · intro n s
    rcases h.agrees n (start s) with ⟨t, hout⟩ | hrun
    · exact .inl ⟨finish t, Eval.around_of_ok hout⟩
    · exact .inr (hsome _ s hrun)
  · intro s
    obtain ⟨least, hleast⟩ := h.enough (start s)
    exact ⟨least, fun n hn => hsome _ s (hleast n hn)⟩

theorem located (place : Place) (h : Reaches f m) :
    Reaches (fun n => Fuelled.located place (f n)) (Eval.located place m) := by
  simp only [Fuelled.located, Eval.located_eq_around]
  exact h.around _ _ _

theorem inScope (frame : Frame Value) (h : Reaches f m) :
    Reaches (fun n => Fuelled.inScope frame (f n)) (Eval.inScope frame m) := by
  simp only [Fuelled.inScope, Eval.inScope_eq_around]
  exact h.around _ _ _

theorem reporting (report : Error → Eval Unit) (h : Reaches f m) :
    Reaches (fun n => Fuelled.reporting report (f n)) (Eval.reporting report m) := by
  simp only [Fuelled.reporting, Eval.reporting_eq_around]
  exact h.around _ _ _

theorem visit (level : Int) (node : Node) {f : Nat → Fuelled Value} {m : Eval Value}
    (h : Reaches f m) :
    Reaches (fun n => Fuelled.visit level node (f n)) (Eval.visit level node m) := by
  unfold Fuelled.visit Eval.visit
  cases node.place? with
  | some place => exact (step _).bind fun _ _ _ _ => h.located place
  | none => exact h

-- A computation that takes a unit of fuel before all else.
theorem of_succ (hzero : f 0 = failure) (h : Reaches (fun n => f (n + 1)) m) : Reaches f m := by
  constructor
  · intro n s
    cases n with
    | zero => exact .inl ⟨s, by rw [hzero]; rfl⟩
    | succ n => exact h.agrees n s
  · intro s
    obtain ⟨least, hleast⟩ := h.enough s
    refine ⟨least + 1, fun n hn => ?_⟩
    obtain ⟨k, rfl⟩ : ∃ k, n = k + 1 := ⟨n - 1, by omega⟩
    exact hleast k (by omega)

end Reaches

-- To come to an outcome is to do what is done without fuel.
def uniform (level : Int) : (handler level).Uniform Nat where
  Like := Reaches
  pure := .pure
  bind := .bind
  own _ := .step _
  fault _ _ := .step _
  bindTarget _ _ _ _ := .step _
  inScope frame := .inScope frame
  visit node := .visit level node

abbrev likeness (level : Int) : (handler level).Likeness Nat := (uniform level).likeness

section Nodes

variable {level limit depth : Int} {call : Caller}

-- The calls that are made with `depth` calls around them.
abbrev ReachesCalls (level limit depth : Int) (call : Caller) : Prop :=
  (likeness level).Calls
    (fun n => invoke level limit depth (eval level limit n (depth + 1))) call

theorem evals_eval (hcall : ReachesCalls level limit depth call) (node : Node) :
    (likeness level).Evals (fun n => eval level limit n depth) call node :=
  Handler.Likeness.evals hcall (fun hlike => ⟨.of_succ rfl hlike.1, hlike.2⟩) trivial

-- The calls around a node and those that may still be made inside it are `limit` together, so each
-- call leaves less room than it had.
theorem reachesCalls_invoke (room : Nat) (hroom : room = (limit - depth).toNat) :
    ReachesCalls level limit depth (Eval.invoke level limit room) := by
  induction room generalizing depth with
  | zero =>
    intro c node p args hisCall hnode hp hargs
    have hfull : limit < depth + 1 := by omega
    rw [Eval.invoke_zero_eq]
    refine Handler.Likeness.invoke hisCall hnode hp hargs fun frame _ => ?_
    simp only [hfull, if_true]
    exact (uniform level).like (.step _)
  | succ room ih =>
    intro c node p args hisCall hnode hp hargs
    have hfree : ¬limit < depth + 1 := by omega
    rw [Eval.invoke_succ_eq]
    refine Handler.Likeness.invoke hisCall hnode hp hargs fun frame hframe => ?_
    simp only [hfree, if_false]
    exact (likeness level).inScope hframe <|
      Handler.Likeness.runBody hnode trivial fun n _ => evals_eval (ih (by omega)) n

end Nodes

section Programs

variable (level depth : Int)

theorem reaches_execute [Machine] (program : Node) (body : Items Node) :
    Reaches (fun n => execute level depth n program body) (Eval.execute level depth body) := by
  have hcall : ReachesCalls level depth 0 (Eval.invoke level depth depth.toNat) :=
    reachesCalls_invoke depth.toNat (by omega)
  exact (uniform level).execute program depth body (evals_eval hcall)

theorem reaches_runProgram [Machine] (settings : Settings) (program : Node) :
    Reaches (fun n => runProgram settings n program) (Eval.run settings program) := by
  unfold runProgram Handler.run Eval.run
  cases program.body?.map fun body => (body, body.size?) with
  | none => exact .step _
  | some found =>
    obtain ⟨body, size⟩ := found
    cases size with
    | none => exact .step _
    | some size =>
      exact (Reaches.step _).bind fun _ _ _ _ => (Reaches.step _).bind fun depth _ _ _ =>
        ((reaches_execute _ depth program body).reporting _).bind fun value _ _ _ => .step _

end Programs

-- A run of any program in any state has an outcome, a value or a failure: some amount of fuel
-- suffices for it, more fuel gives the same, and with less the run has this outcome or none.
theorem exists_fuel_runProgram [Machine] (settings : Settings) (program : Node) (s : State) :
    ∃ fuel outcome, (∀ t, outcome ≠ .ok none t) ∧
      (∀ n, fuel ≤ n → OptionT.run (runProgram settings n program) s = outcome) ∧
      (∀ n, (∃ t, OptionT.run (runProgram settings n program) s = .ok none t) ∨
        OptionT.run (runProgram settings n program) s = outcome) ∧
      (some <$> Eval.run settings program) s = outcome := by
  have hreaches := reaches_runProgram settings program
  obtain ⟨fuel, hfuel⟩ := hreaches.enough s
  refine ⟨fuel, _, fun t => ?_, hfuel, fun n => hreaches.agrees n s, rfl⟩
  cases hm : Eval.run settings program s with
  | ok a u =>
    rw [Reaches.map_some_ok hm]
    simp
  | error e u =>
    rw [Reaches.map_some_error hm]
    simp

end Fuelled

end TernLang
