import TernLang.Proofs.Eval.Parallel
import TernLang.Proofs.Scope.Moves

-- The course of a computation: what it does to the scopes, move by move, whether it ends well or
-- not. All that a run ever does to its scopes is a move of its course.

namespace TernLang

theorem Tree.eq_str_of_text? {t : Tree} {text : String} (h : t.text? = some text) :
    t = .str text := by
  cases t with
  | str s => exact congrArg Tree.str (Option.some.inj h)
  | _ => cases h

theorem Name.exists_lookup_error {name : Tree} (h : name.text? = none) :
    ∃ e, ∀ {α : Type} (find : String → Option α), Name.lookup find name = .error e := by
  by_cases hkey : name.isKey
  · refine ⟨.ofCause (.undefinedName name.shown), fun find => ?_⟩
    simp only [Name.lookup, hkey, h, if_true, Option.bind_none]
  · refine ⟨.fault .wrongData, fun find => ?_⟩
    simp only [Name.lookup, if_neg hkey]

def State.withScopes (s : State) (c : Chain Value) : State := { s with scopes := c }

namespace Eval

-- The same end in another state.
def mapState {α : Type} (f : State → State) :
    EStateM.Result Failure State α → EStateM.Result Failure State α
  | .ok a s => .ok a (f s)
  | .error e s => .error e (f s)

-- A computation that does the same whatever the scopes are, and leaves them as they are.
def Blind {α : Type} (m : Eval α) : Prop :=
  ∀ s c, m (s.withScopes c) = mapState (·.withScopes c) (m s)

def BlindHandler (handle : Failure → State → Failure × State) : Prop :=
  ∀ e s c, handle e (s.withScopes c) = ((handle e s).1, (handle e s).2.withScopes c)

-- The steps of a computation that have nothing to do with scopes.
inductive Quiet : {α : Type} → Eval α → Prop where
  | pure {α : Type} (a : α) : Quiet (Pure.pure a : Eval α)
  | throw {α : Type} (e : Failure) : Quiet (MonadExcept.throw e : Eval α)
  | emit (level : Int) (event : Event) : Quiet (Eval.emit level event)
  | write (text : String) : Quiet (Eval.write text)
  | readLine : Quiet Eval.readLine
  | result (outcome : Except Failure Value) : Quiet (Eval.result outcome)

section Blind

variable {α : Type} {m : Eval α}

@[simp]
theorem finalState_mapState (f : State → State) (x : EStateM.Result Failure State α) :
    finalState (mapState f x) = f (finalState x) := by
  cases x <;> rfl

theorem mapState_mapState (f g : State → State) (x : EStateM.Result Failure State α) :
    mapState f (mapState g x) = mapState (fun t => f (g t)) x := by
  cases x <;> rfl

theorem mapState_congr {f g : State → State} {x : EStateM.Result Failure State α}
    (h : f (finalState x) = g (finalState x)) : mapState f x = mapState g x := by
  cases x with
  | ok a t => exact congrArg _ h
  | error e t => exact congrArg _ h

theorem inScope_eq (f : Frame Value) (m : Eval α) (s : State) :
    inScope f m s =
      mapState (fun t => t.withScopes t.scopes.pop) (m (s.withScopes (s.scopes.push f))) := by
  simp only [inScope, State.withScopes]
  cases m { s with scopes := s.scopes.push f } <;> rfl

theorem Blind.scopes (h : Blind m) (s : State) : (finalState (m s)).scopes = s.scopes := by
  have hsame : m s = mapState (·.withScopes s.scopes) (m s) := h s s.scopes
  rw [hsame, finalState_mapState]
  rfl

theorem BlindHandler.scopes {handle : Failure → State → Failure × State} (h : BlindHandler handle)
    (e : Failure) (s : State) : (handle e s).2.scopes = s.scopes := by
  have hsame : handle e s = ((handle e s).1, (handle e s).2.withScopes s.scopes) := h e s s.scopes
  rw [hsame]
  rfl

theorem Quiet.lift (x : Except Failure α) : Quiet (Eval.lift x) := by
  cases x with
  | ok a => exact .pure a
  | error e => exact .throw e

theorem Quiet.blind (h : Quiet m) : Blind m := by
  cases h with
  | emit level event =>
    unfold Eval.emit
    split
    · split <;> exact fun _ _ => rfl
    · exact fun _ _ => rfl
  | result outcome => cases outcome <;> exact fun _ _ => rfl
  | _ => exact fun _ _ => rfl

-- What does not look at the scopes can be done before a scope is opened.
theorem Blind.inScope_bind {β : Type} (h : Blind m) (f : Frame Value) (k : α → Eval β) :
    inScope f (m >>= k) = m >>= fun a => inScope f (k a) := by
  funext s
  have hm := h s (s.scopes.push f)
  have hscopes := h.scopes s
  rw [inScope_eq]
  cases hrun : m s with
  | ok a t =>
    rw [hrun] at hm hscopes
    simp only [Bind.bind, EStateM.bind, hm, hrun, mapState, inScope_eq]
    simp only [finalState] at hscopes
    rw [hscopes]
  | error e t =>
    rw [hrun] at hm hscopes
    simp only [Bind.bind, EStateM.bind, hm, hrun, mapState]
    exact congrArg (fun c => EStateM.Result.error e (t.withScopes c)) hscopes.symm

end Blind

theorem lookup_eq (name : Tree) (s : State) :
    lookup name s =
      match Name.lookup s.scopes.lookup? name with
      | .ok value => .ok value s
      | .error e => .error e s := by
  change lift (Name.lookup s.scopes.lookup? name) s = _
  cases Name.lookup s.scopes.lookup? name <;> rfl

theorem assign_eq (name : Tree) (value : Value) (s : State) :
    assign name value s =
      match Name.lookup (s.scopes.assign? · value) name with
      | .ok scopes => .ok () { s with scopes }
      | .error e => .error e s := by
  change (lift (Name.lookup (s.scopes.assign? · value) name) >>= fun scopes =>
    modify fun t => { t with scopes }) s = _
  cases Name.lookup (s.scopes.assign? · value) name <;> rfl

-- What a computation does to the scopes when it starts in a state. A failure ends the course, but
-- the scopes that are open are left all the same. Unless `declares` is true nothing is declared in
-- the scope that the computation starts in.
inductive Course : Bool → {α : Type} → Eval α → State → List (Move Value) → Prop where
  | quiet {declares : Bool} {α : Type} {m : Eval α} (step : Quiet m) (s : State) :
    Course declares m s []
  | bindOk {declares : Bool} {α β : Type} {m : Eval α} {k : α → Eval β} {s t : State} {a : α}
    {ms ns : List (Move Value)} (first : Course declares m s ms) (ok : m s = .ok a t)
    (second : Course declares (k a) t ns) : Course declares (m >>= k) s (ms ++ ns)
  | bindError {declares : Bool} {α β : Type} {m : Eval α} {k : α → Eval β} {s t : State}
    {e : Failure} {ms : List (Move Value)} (first : Course declares m s ms)
    (error : m s = .error e t) : Course declares (m >>= k) s ms
  | lookup {declares : Bool} (name : String) (s : State) :
    Course declares (Eval.lookup (.str name)) s []
  | declare (name : String) (value : Value) (s : State) :
    Course true (modify fun s => { s with scopes := s.scopes.declare name value }) s
      [.declare name value]
  | assign {declares : Bool} (name : String) (value : Value) (s : State) :
    Course declares (Eval.assign (.str name) value) s [.assign name value]
  | handled {declares : Bool} {α : Type} {m : Eval α} {s : State} {ms : List (Move Value)}
    {handle : Failure → State → Failure × State} (still : BlindHandler handle)
    (inner : Course declares m s ms) : Course declares (around id id handle m) s ms
  | inScope {declares : Bool} {α : Type} {m : Eval α} {s : State} {ms : List (Move Value)}
    (inner : Course true m (s.withScopes (s.scopes.push .empty)) ms) :
    Course declares (Eval.inScope .empty m) s (.enter :: (ms ++ [.leave]))

namespace Course

variable {declares : Bool} {α : Type} {m : Eval α} {s : State} {ms : List (Move Value)}

theorem balanced (h : Course declares m s ms) : Balanced declares ms := by
  induction h with
  | quiet | lookup => exact .nil
  | bindOk _ _ _ ihm ihk => exact ihm.append ihk
  | bindError _ _ ih => exact ih
  | declare name value => exact .declare name value
  | assign name value => exact .assign name value
  | handled _ _ ih => exact ih
  | inScope _ ih => exact .scope ih

theorem declaring (h : Course declares m s ms) : Course true m s ms := by
  induction h with
  | quiet step s => exact .quiet step s
  | bindOk _ ok _ ihm ihk => exact .bindOk ihm ok ihk
  | bindError _ error ih => exact .bindError ih error
  | lookup name s => exact .lookup name s
  | declare name value s => exact .declare name value s
  | assign name value s => exact .assign name value s
  | handled still _ ih => exact .handled still ih
  | inScope inner _ => exact .inScope inner

-- The scopes that a computation ends with are those that its moves lead to.
theorem scopes (h : Course declares m s ms) : (finalState (m s)).scopes = s.scopes.after ms := by
  induction h with
  | quiet step s => exact step.blind.scopes s
  | @bindOk _ _ _ m k s t a _ _ _ ok _ ihm ihk =>
    have hbind : (m >>= k) s = k a t := by
      simp only [Bind.bind, EStateM.bind, ok]
    rw [ok] at ihm
    rw [hbind, ihk, Chain.after_append, ← ihm]
    rfl
  | @bindError _ _ _ m k s t e _ _ error ih =>
    have hbind : (m >>= k) s = .error e t := by
      simp only [Bind.bind, EStateM.bind, error]
    rw [error] at ih
    rw [hbind]
    exact ih
  | lookup name s =>
    rw [lookup_eq]
    cases Name.lookup s.scopes.lookup? (.str name) <;> rfl
  | declare name value s => rfl
  | assign name value s =>
    rw [assign_eq, Chain.after_cons, Chain.after_nil, Chain.move]
    cases hd : s.scopes.assign? name value with
    | none =>
      rw [Name.lookup_str_of_none hd]
      rfl
    | some d =>
      rw [Name.lookup_str_of_some hd]
      rfl
  | @handled _ _ m s _ handle still _ ih =>
    cases hm : m s with
    | ok a t =>
      rw [hm] at ih
      rw [around_of_ok hm]
      exact ih
    | error e t =>
      rw [hm] at ih
      rw [around_of_error hm, ← ih]
      exact still.scopes e t
  | @inScope _ _ m s ms _ ih =>
    rw [inScope_eq, finalState_mapState, Chain.after_cons, Chain.after_append]
    exact congrArg Chain.pop ih

theorem framed (h : Course declares m s ms) :
    Chain.Framed declares s.scopes (finalState (m s)).scopes :=
  h.scopes ▸ Chain.framed_after h.balanced s.scopes

end Course

-- A computation has a course from every state.
def HasCourse (declares : Bool) {α : Type} (m : Eval α) : Prop :=
  ∀ s, ∃ ms, Course declares m s ms

namespace HasCourse

variable {declares : Bool} {α β : Type} {m : Eval α} {k : α → Eval β}

theorem declaring (hm : HasCourse declares m) : HasCourse true m :=
  fun s => (hm s).imp fun _ hms => hms.declaring

theorem quiet (h : Quiet m) : HasCourse declares m := fun s => ⟨[], .quiet h s⟩

theorem bind (hm : HasCourse declares m) (hk : ∀ a, HasCourse declares (k a)) :
    HasCourse declares (m >>= k) := by
  intro s
  obtain ⟨ms, hms⟩ := hm s
  cases hrun : m s with
  | ok a t =>
    obtain ⟨ns, hns⟩ := hk a t
    exact ⟨ms ++ ns, .bindOk hms hrun hns⟩
  | error e t => exact ⟨ms, .bindError hms hrun⟩

theorem pure (a : α) : HasCourse declares (Pure.pure a : Eval α) := .quiet (.pure a)

theorem throw (e : Failure) : HasCourse declares (MonadExcept.throw e : Eval α) :=
  .quiet (.throw e)

theorem fail (cause : Error.Cause) : HasCourse declares (Eval.fail cause : Eval α) := .throw _

theorem lift (x : Except Failure α) : HasCourse declares (Eval.lift x) := .quiet (.lift x)

theorem emit (level : Int) (event : Event) : HasCourse declares (Eval.emit level event) :=
  .quiet (.emit level event)

theorem located (place : Place) (hm : HasCourse declares m) :
    HasCourse declares (Eval.located place m) := by
  intro s
  obtain ⟨ms, hms⟩ := hm s
  rw [located_eq_around]
  exact ⟨ms, .handled (fun _ _ _ => rfl) hms⟩

theorem inScope (hm : HasCourse true m) : HasCourse declares (Eval.inScope .empty m) := by
  intro s
  obtain ⟨ms, hms⟩ := hm (s.withScopes (s.scopes.push .empty))
  exact ⟨_, .inScope hms⟩

-- What is no text is looked up in vain in all scopes alike.
theorem lookup (name : Tree) : HasCourse declares (Eval.lookup name) := by
  cases hname : name.text? with
  | some text =>
    rw [Tree.eq_str_of_text? hname]
    exact fun s => ⟨[], .lookup text s⟩
  | none =>
    obtain ⟨e, he⟩ := Name.exists_lookup_error hname
    have hlookup : Eval.lookup name = MonadExcept.throw e := by
      funext s
      rw [lookup_eq, he]
      rfl
    rw [hlookup]
    exact .throw e

theorem assign (name : Tree) (value : Value) : HasCourse declares (Eval.assign name value) := by
  cases hname : name.text? with
  | some text =>
    rw [Tree.eq_str_of_text? hname]
    exact fun s => ⟨_, .assign text value s⟩
  | none =>
    obtain ⟨e, he⟩ := Name.exists_lookup_error hname
    have hassign : Eval.assign name value = MonadExcept.throw e := by
      funext s
      rw [assign_eq, he]
      rfl
    rw [hassign]
    exact .throw e

theorem declare (name : Tree) (value : Value) : HasCourse true (Eval.declare name value) :=
  (lift (Name.bindable name)).bind fun name s => ⟨_, .declare name value s⟩

end HasCourse

end Eval

end TernLang
