import TernLang.Proofs.Eval.Scoping

-- Constants stay constant. At every point of a session every scope has names of capitals among its
-- constants only and all others among its variables only, but for the names that the root has from
-- the start; and a constant gets another value only when it is declared anew in its own scope.

namespace TernLang

-- Only the root has constants that are given.
def Chain.Ordered {α : Type} (given : Bindings α) (c : Chain α) : Prop :=
  ∀ i f, c.scope? i = some f → f.Ordered (if i = 0 then given else [])

namespace Chain

variable {α : Type} {given : Bindings α} {c : Chain α}

theorem Ordered.move (h : c.Ordered given) (hgiven : ∀ b ∈ given, isConstantName b.1 = false)
    (m : Move α) : (c.move m).Ordered given := by
  intro i g hg
  rcases exists_of_scope?_move hg with ⟨hi, rfl⟩ | ⟨f, hf, hfg⟩
  · have hinner : i ≠ 0 := by simp [hi, frames]
    rw [if_neg hinner]
    exact Frame.ordered_empty
  · have hordered := h i f hf
    rcases hfg with rfl | ⟨name, value, -, -, rfl⟩ | ⟨name, value, hassign⟩
    · exact hordered
    · refine hordered.declare (fun b hb => hgiven b ?_) name value
      split at hb
      · exact hb
      · simp at hb
    · exact hordered.of_assign? hassign

theorem Ordered.after (h : c.Ordered given) (hgiven : ∀ b ∈ given, isConstantName b.1 = false)
    (ms : List (Move α)) : (c.after ms).Ordered given := by
  induction ms generalizing c with
  | nil => exact h
  | cons m ms ih => exact ih (h.move hgiven m)

theorem exists_mem_of_assignIn? {name : String} {value : α} {fs gs : List (Frame α)}
    (h : assignIn? name value fs = some gs) : ∃ f ∈ fs, name ∈ f.vars.names := by
  induction fs generalizing gs with
  | nil => exact absurd h (by simp [assignIn?])
  | cons f fs ih =>
    rw [assignIn?] at h
    split at h
    · rename_i g hg
      exact ⟨f, List.mem_cons_self, (Frame.eq_of_assign? hg).1⟩
    · obtain ⟨rest, hrest, rfl⟩ := Option.map_eq_some_iff.1 h
      obtain ⟨f, hf, hname⟩ := ih hrest
      exact ⟨f, List.mem_cons_of_mem _ hf, hname⟩

-- No scope has a variable with the name of a constant.
theorem Ordered.assign?_eq_none (h : c.Ordered given) {name : String}
    (hname : isConstantName name = true) (value : α) : c.assign? name value = none := by
  rw [Option.eq_none_iff_forall_not_mem]
  intro d hd
  obtain ⟨f, hf, hmem⟩ := exists_mem_of_assignIn? (frames_of_assign? hd)
  obtain ⟨i, hi⟩ := List.mem_iff_getElem?.1 (List.mem_reverse.2 hf)
  have hnot := (h i f hi).not_isConstantName hmem
  rw [hname] at hnot
  exact Bool.noConfusion hnot

-- What makes a constant of a scope change.
theorem exists_of_consts_ne {m : Move α} {i : Nat} {f g : Frame α} {name : String}
    (hf : c.scope? i = some f) (hg : (c.move m).scope? i = some g)
    (hne : g.consts.get? name ≠ f.consts.get? name) :
    ∃ value, m = .declare name value ∧ isConstantName name = true ∧ i + 1 = c.frames.length ∧
      g.consts.get? name = some value := by
  rcases exists_of_scope?_move hg with ⟨rfl, rfl⟩ | ⟨f', hf', hfg⟩
  · simp [scope?] at hf
  · obtain rfl : f = f' := Option.some.inj (hf.symm.trans hf')
    rcases hfg with rfl | ⟨other, value, rfl, hi, rfl⟩ | ⟨other, value, hassign⟩
    · exact absurd rfl hne
    · unfold Frame.declare at hne ⊢
      split at hne
      · rename_i hother
        have heq : other = name := by
          by_contra hdiff
          exact hne (Bindings.get?_put_of_ne _ value hdiff)
        subst heq
        exact ⟨value, rfl, hother, hi, by simp [hother]⟩
      · exact absurd rfl hne
    · obtain ⟨-, rfl⟩ := Frame.eq_of_assign? hassign
      exact absurd rfl hne

end Chain

namespace Session

-- What a host does with a session. Programs may be any trees.
inductive Action where
  | run (program : Node)
  | runSource (source : String)
  | define (name : Tree) (data : Host)

section Courses

variable [Machine]

-- The session after an action, be it done or refused.
def act (s : Session) : Action → Session
  | .run program => (s.run program).2
  | .runSource source => (s.runSource source).2
  | .define name data =>
    match s.define name data with
    | .ok t => t
    | .error _ => s

def acts (s : Session) (actions : List Action) : Session := actions.foldl act s

-- An action as a computation on the state of the session.
def Action.eval (settings : Settings) : Action → Eval Value
  | .run program => Eval.run settings program
  | .runSource source => do
    let program ← Eval.lift (Node.parse source)
    Eval.run settings program
  | .define name data => do
    let value ← Eval.lift data.toValue
    Eval.declare name value
    pure value

theorem act_eq (s : Session) (a : Action) : s.act a = (s.perform (a.eval s.settings)).2 := by
  cases a with
  | run program => rfl
  | runSource source =>
    rw [act, runSource, Action.eval]
    cases Node.parse source <;> rfl
  | define name data =>
    simp only [act, define, Action.eval, Eval.declare]
    cases data.toValue with
    | error failure => rfl
    | ok value => cases Name.bindable name <;> rfl

theorem hasCourse_action (settings : Settings) (a : Action) :
    Eval.HasCourse true (a.eval settings) := by
  cases a with
  | run program => exact Eval.hasCourse_run settings program
  | runSource source =>
    exact (Eval.HasCourse.lift _).bind fun program => Eval.hasCourse_run settings program
  | define name data =>
    exact (Eval.HasCourse.lift _).bind fun value =>
      (Eval.HasCourse.declare name value).bind fun _ => .pure value

-- The course of a session: those of its actions, one after the other.
inductive Course : Session → List Action → List (Move Value) → Prop where
  | nil (s : Session) : Course s [] []
  | cons {s : Session} {a : Action} {actions : List Action} {ms ns : List (Move Value)}
    (first : Eval.Course true (a.eval s.settings) s.state ms) (rest : Course (s.act a) actions ns) :
    Course s (a :: actions) (ms ++ ns)

theorem exists_course (s : Session) (actions : List Action) : ∃ ms, s.Course actions ms := by
  induction actions generalizing s with
  | nil => exact ⟨[], .nil s⟩
  | cons a actions ih =>
    obtain ⟨ms, hms⟩ := hasCourse_action s.settings a s.state
    obtain ⟨ns, hns⟩ := ih (s.act a)
    exact ⟨ms ++ ns, .cons hms hns⟩

end Courses

theorem Course.scopes [Machine] {s : Session} {actions : List Action} {ms : List (Move Value)}
    (h : s.Course actions ms) :
    (s.acts actions).state.scopes = s.state.scopes.after ms := by
  induction h with
  | nil s => rfl
  | @cons s a actions ms ns first _ ih =>
    rw [Chain.after_append, ← first.scopes, ← state_perform, ← act_eq]
    exact ih

theorem ordered_start (settings : Settings) (input : String) :
    (start settings input).state.scopes.Ordered seeds := by
  intro i f hf
  obtain ⟨rfl, rfl⟩ : i = 0 ∧ f = { consts := seeds } := by
    simpa [start] using Chain.scope?_eq_some_iff.1 hf
  refine ⟨by simp, fun b hb => .inr hb, ?_⟩
  simp [seeds, Bindings.get?_cons]

-- Any actions on a session from its start, whether they succeed or not. They have a course, and all
-- courses of them lead to the scopes that the session ends with. At every point of a course names
-- of capitals are those of constants and all others those of variables, in every scope, but for the
-- six that the root starts with, and these are bound to what they were; a constant cannot be
-- assigned to; and what is done next gives another value to a constant of a scope only if it is the
-- current one and the constant is declared in it.
theorem constants_of_course [Machine] (settings : Settings) (input : String)
    (actions : List Action) :
    (∃ ms, (start settings input).Course actions ms) ∧
    ∀ ms, (start settings input).Course actions ms →
      ((start settings input).acts actions).state.scopes =
        (start settings input).state.scopes.after ms ∧
      ∀ before later, ms = before ++ later →
        let c := (start settings input).state.scopes.after before
        c.Ordered seeds ∧
        (∀ name value s, isConstantName name = true → s.scopes = c →
          Eval.assign (.str name) value s = .error (.ofCause (.undefinedName name)) s) ∧
        ∀ m i f g name, later.head? = some m → c.scope? i = some f →
          (c.move m).scope? i = some g → g.consts.get? name ≠ f.consts.get? name →
          ∃ value, m = .declare name value ∧ isConstantName name = true ∧
            i + 1 = c.frames.length ∧ g.consts.get? name = some value := by
  have hgiven : ∀ b ∈ seeds, isConstantName b.1 = false := by decide
  refine ⟨exists_course _ actions, fun ms hms => ⟨hms.scopes, fun before later _ => ?_⟩⟩
  have hordered := (ordered_start settings input).after hgiven before
  refine ⟨hordered, ?_, fun m i f g name _ hf hg hne => Chain.exists_of_consts_ne hf hg hne⟩
  intro name value s hname hs
  have hnone : s.scopes.assign? name value = none := by
    rw [hs]
    exact hordered.assign?_eq_none hname value
  rw [Eval.assign_eq, Name.lookup_str_of_none hnone]

end Session

end TernLang
