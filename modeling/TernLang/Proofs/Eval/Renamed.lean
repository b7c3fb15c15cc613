import TernLang.Proofs.Eval.Course
import TernLang.Proofs.Scope.Contents
import TernLang.Proofs.Value.Guarded
import TernLang.Proofs.Value.Renaming

-- Computations under other names. What a computation does is done by another one under the other
-- names: it ends with the same value, apart from the names, or fails in the same way, and it leaves
-- the same state, apart from the names in its scopes.

namespace TernLang

namespace Failure

-- Two failures of which one is the other under other names: errors of one class at one place, or
-- the same fault. What an error says of the names is left open.
inductive Renamed : Failure → Failure → Prop where
  | error {c d : Error.Cause} (place : Place) (cls : c.cls = d.cls) :
    Renamed (.error ⟨c, place⟩) (.error ⟨d, place⟩)
  | fault (f : Fault) : Renamed (.fault f) (.fault f)

namespace Renamed

variable {e f : Failure}

theorem refl (e : Failure) : e.Renamed e := by
  cases e with
  | error e => exact .error e.place rfl
  | fault f => exact .fault f

theorem ofCause {c d : Error.Cause} (cls : c.cls = d.cls) :
    (Failure.ofCause c).Renamed (.ofCause d) := .error _ cls

theorem locate (h : e.Renamed f) (place : Place) : (e.locate place).Renamed (f.locate place) := by
  cases h with
  | error known cls =>
    simp only [Failure.locate, Error.locate]
    by_cases hknown : known.Known
    · rw [if_pos hknown, if_pos hknown]
      exact .error known cls
    · rw [if_neg hknown, if_neg hknown]
      by_cases hplace : place.Known
      · rw [if_pos hplace, if_pos hplace]
        exact .error place cls
      · rw [if_neg hplace, if_neg hplace]
        exact .error known cls
  | fault f => exact .fault f

end Renamed

end Failure

-- The outcome of an operation and that of the operation under other names, which `f` changes.
inductive Outcome.Renamed {α β : Type} (P : α → Prop) (f : α → β) :
    Except Failure α → Except Failure β → Prop where
  | ok {a : α} (value : P a) : Renamed P f (.ok a) (.ok (f a))
  | error {e e' : Failure} (failure : e.Renamed e') : Renamed P f (.error e) (.error e')

namespace Outcome.Renamed

variable {α β γ δ : Type} {P : α → Prop} {f : α → β} {Q : γ → Prop} {g : γ → δ}
variable {x : Except Failure α} {y : Except Failure β}

theorem bind {k : α → Except Failure γ} {l : β → Except Failure δ} (h : Outcome.Renamed P f x y)
    (hkl : ∀ a, P a → Outcome.Renamed Q g (k a) (l (f a))) :
    Outcome.Renamed Q g (x >>= k) (y >>= l) := by
  cases h with
  | ok value => exact hkl _ value
  | error failure => exact .error failure

-- An operation that does the same under other names.
theorem of_grants (h : Grants P x) : Outcome.Renamed P f x (x.map f) := by
  cases x with
  | ok a => exact .ok h
  | error e => exact .error (.refl e)

theorem refl (x : Except Failure α) : Outcome.Renamed (fun _ => True) id x x := by
  cases x with
  | ok a => exact .ok trivial
  | error e => exact .error (.refl e)

theorem lookup {ρ : Renaming} {find : String → Option α} {find' : String → Option β}
    (hP : ∀ s a, find s = some a → P a) (h : ∀ s, find' (ρ s) = (find s).map f) (name : Tree) :
    Outcome.Renamed P f (Name.lookup find name) (Name.lookup find' (Name.rename ρ name)) := by
  cases hname : name.text? with
  | none =>
    have hstays : Name.rename ρ name = name := by
      cases name with
      | str s => cases hname
      | _ => rfl
    obtain ⟨e, he⟩ := Name.exists_lookup_error hname
    rw [hstays, he, he]
    exact .error (.refl e)
  | some s =>
    obtain rfl := Tree.eq_str_of_text? hname
    have hrenamed := h s
    cases hfind : find s with
    | some a =>
      rw [hfind] at hrenamed
      rw [Name.lookup_str_of_some hfind, Name.rename, Name.lookup_str_of_some hrenamed]
      exact .ok (hP s a hfind)
    | none =>
      rw [hfind] at hrenamed
      rw [Name.lookup_str_of_none hfind, Name.rename, Name.lookup_str_of_none hrenamed]
      exact .error (.ofCause rfl)

end Outcome.Renamed

-- A declared function keeps its name.
def Node.KeepsName (ρ : Renaming) : Node → Prop
  | .function _ (.str name) _ _ _ => ρ name = name
  | _ => True

instance (ρ : Renaming) : DecidablePred (Node.KeepsName ρ) := fun n => by
  unfold Node.KeepsName
  split <;> infer_instance

theorem Node.rename_eq_of_keepsName {ρ : Renaming} {place : Place} {name : Tree}
    {parameters : Items Node} {result : Option Node} {body : Node}
    (h : (function place name parameters result body).KeepsName ρ) :
    Name.rename ρ name = name := by
  cases name with
  | str s => exact congrArg Tree.str h
  | _ => rfl

-- All functions that are declared in function bodies keep their names.
def Guard.keeping (ρ : Renaming) : Guard where
  int _ := True
  body := Node.Everywhere (Node.KeepsName ρ)
  fits _ _ := trivial

abbrev Value.Kept (ρ : Renaming) (v : Value) : Prop := v.Guarded (.keeping ρ)

-- A state, and the state under other names. Their traces may differ.
structure State.Renamed (ρ : Renaming) (s t : State) : Prop where
  scopes : t.scopes = s.scopes.rename ρ (Value.rename ρ)
  input : t.input = s.input
  output : t.output = s.output
  results : t.results = s.results
  kept : s.scopes.Each (Value.Kept ρ)

namespace State.Renamed

variable {ρ : Renaming} {s t : State}

theorem push (h : s.Renamed ρ t) {frame : Frame Value} (hframe : frame.Each (Value.Kept ρ)) :
    State.Renamed ρ { s with scopes := s.scopes.push frame }
      { t with scopes := t.scopes.push (frame.rename ρ (Value.rename ρ)) } :=
  { h with
    scopes := by simp only [h.scopes, Chain.rename_push]
    kept := h.kept.push hframe }

theorem pop (h : s.Renamed ρ t) :
    State.Renamed ρ { s with scopes := s.scopes.pop } { t with scopes := t.scopes.pop } :=
  { h with
    scopes := by simp only [h.scopes, Chain.rename_pop]
    kept := h.kept.pop }

end State.Renamed

-- An event, and the event under other names.
inductive Event.Renamed (ρ : Renaming) : Event → Event → Prop where
  | started (n : Nat) : Renamed ρ (.started n) (.started n)
  | finished (v : Value) : Renamed ρ (.finished v) (.finished (v.rename ρ))
  | failed (e f : Error) : Renamed ρ (.failed e) (.failed f)
  | declared (name name' : String) (v : Value) :
    Renamed ρ (.declared name v) (.declared name' (v.rename ρ))
  | assigned (name name' : String) (v : Value) :
    Renamed ρ (.assigned name v) (.assigned name' (v.rename ρ))
  | defined (name : String) (parameters : List Tree) :
    Renamed ρ (.defined name parameters) (.defined name (parameters.map (Name.rename ρ)))
  | tested (v : Value) : Renamed ρ (.tested v) (.tested (v.rename ρ))
  | matched (v : Value) (arm : Nat) : Renamed ρ (.matched v arm) (.matched (v.rename ρ) arm)
  | calledBuiltin (b : Builtin) : Renamed ρ (.calledBuiltin b) (.calledBuiltin b)
  | calledMethod (m : Method) : Renamed ρ (.calledMethod m) (.calledMethod m)
  | called (name : String) (args : List Value) :
    Renamed ρ (.called name args) (.called name (Value.renameAll ρ args))
  | returned (name : String) (v : Value) :
    Renamed ρ (.returned name v) (.returned name (v.rename ρ))
  | visited (type : String) (place : Place) : Renamed ρ (.visited type place) (.visited type place)

namespace Event.Renamed

variable {ρ : Renaming} {e f : Event}

theorem level (h : e.Renamed ρ f) : f.level = e.level := by
  cases h <;> rfl

theorem values (h : e.Renamed ρ f) : f.values = Value.renameAll ρ e.values := by
  cases h <;> rfl

theorem fault? (h : e.Renamed ρ f) : f.fault? = e.fault? := by
  have htext : Value.haveText f.values = Value.haveText e.values := by
    rw [h.values, Value.haveText_rename]
  cases h with
  | defined name parameters =>
    have hall : (parameters.map (Name.rename ρ)).all (·.text?.isSome) =
        parameters.all (·.text?.isSome) := by
      rw [List.all_map]
      refine List.all_congr rfl fun name => ?_
      cases name <;> rfl
    simp only [Event.fault?, hall]
  | _ => simp only [Event.fault?, htext]

end Event.Renamed

namespace Eval

-- The ends of a computation and of the one under other names.
inductive Ends (ρ : Renaming) {α β : Type} (P : α → Prop) (f : α → β) :
    EStateM.Result Failure State α → EStateM.Result Failure State β → Prop where
  | ok {a : α} {s t : State} (value : P a) (states : s.Renamed ρ t) :
    Ends ρ P f (.ok a s) (.ok (f a) t)
  | error {e e' : Failure} {s t : State} (failure : e.Renamed e') (states : s.Renamed ρ t) :
    Ends ρ P f (.error e s) (.error e' t)

-- The second computation does under other names what the first one does. `P` holds of what the
-- first one gives, and `f` makes of it what the second one gives.
def Renames (ρ : Renaming) {α β : Type} (P : α → Prop) (f : α → β) (m : Eval α) (n : Eval β) :
    Prop :=
  ∀ s t, s.Renamed ρ t → Ends ρ P f (m s) (n t)

-- As `Renames`, for computations with values.
abbrev RenamesValue (ρ : Renaming) (m n : Eval Value) : Prop :=
  Renames ρ (Value.Kept ρ) (Value.rename ρ) m n

-- As `Renames`, for computations that change the state only.
abbrev RenamesSteps (ρ : Renaming) (m n : Eval Unit) : Prop := Renames ρ (fun _ => True) id m n

namespace Renames

variable {ρ : Renaming} {α β γ δ : Type} {P : α → Prop} {f : α → β} {Q : γ → Prop} {g : γ → δ}
variable {m : Eval α} {n : Eval β}

theorem pure {a : α} (h : P a) : Renames ρ P f (Pure.pure a) (Pure.pure (f a)) :=
  fun _ _ hst => .ok h hst

theorem throw {e e' : Failure} (h : e.Renamed e') :
    Renames ρ P f (MonadExcept.throw e) (MonadExcept.throw e') :=
  fun _ _ hst => .error h hst

theorem fail (cause : Error.Cause) : Renames ρ P f (Eval.fail cause) (Eval.fail cause) :=
  throw (.refl _)

theorem lift {x : Except Failure α} {y : Except Failure β} (h : Outcome.Renamed P f x y) :
    Renames ρ P f (Eval.lift x) (Eval.lift y) := by
  cases h with
  | ok value => exact pure value
  | error failure => exact throw failure

theorem ends_bind {k : α → Eval γ} {l : β → Eval δ}
    (hkl : ∀ a, P a → Renames ρ Q g (k a) (l (f a))) {s t : State} (h : Ends ρ P f (m s) (n t)) :
    Ends ρ Q g ((m >>= k) s) ((n >>= l) t) := by
  generalize hx : m s = x at h
  generalize hy : n t = y at h
  cases h with
  | ok value states =>
    simp only [Bind.bind, EStateM.bind, hx, hy]
    exact hkl _ value _ _ states
  | error failure states =>
    simp only [Bind.bind, EStateM.bind, hx, hy]
    exact .error failure states

theorem bind {k : α → Eval γ} {l : β → Eval δ} (hmn : Renames ρ P f m n)
    (hkl : ∀ a, P a → Renames ρ Q g (k a) (l (f a))) : Renames ρ Q g (m >>= k) (n >>= l) :=
  fun s t hst => ends_bind hkl (hmn s t hst)

theorem ends_around {start start' finish finish' : State → State}
    {handle handle' : Failure → State → Failure × State} {s t : State}
    (h : Ends ρ P f (m (start s)) (n (start' t)))
    (hfinish : ∀ s t, s.Renamed ρ t → (finish s).Renamed ρ (finish' t))
    (hhandle : ∀ e e' s t, e.Renamed e' → s.Renamed ρ t →
      (handle e s).1.Renamed (handle' e' t).1 ∧ (handle e s).2.Renamed ρ (handle' e' t).2) :
    Ends ρ P f (Eval.around start finish handle m s) (Eval.around start' finish' handle' n t) := by
  generalize hx : m (start s) = x at h
  generalize hy : n (start' t) = y at h
  cases h with
  | ok value states =>
    rw [around_of_ok hx, around_of_ok hy]
    exact .ok value (hfinish _ _ states)
  | error failure states =>
    rw [around_of_error hx, around_of_error hy]
    exact .error (hhandle _ _ _ _ failure states).1 (hhandle _ _ _ _ failure states).2

theorem located (place : Place) (h : Renames ρ P f m n) :
    Renames ρ P f (Eval.located place m) (Eval.located place n) := by
  intro s t hst
  rw [located_eq_around, located_eq_around]
  exact ends_around (h s t hst) (fun _ _ h => h) fun _ _ _ _ he hst => ⟨he.locate place, hst⟩

theorem inScope {frame : Frame Value} (hframe : frame.Each (Value.Kept ρ))
    (h : Renames ρ P f m n) :
    Renames ρ P f (Eval.inScope frame m) (Eval.inScope (frame.rename ρ (Value.rename ρ)) n) := by
  intro s t hst
  rw [inScope_eq_around, inScope_eq_around]
  exact ends_around (h _ _ (hst.push hframe)) (fun _ _ h => h.pop) fun _ _ _ _ he hst =>
    ⟨he, hst.pop⟩

end Renames

section Steps

variable {ρ : Renaming}

theorem renamed_emitted {s t : State} (hst : s.Renamed ρ t) (level : Int) {e f : Event}
    (h : e.Renamed ρ f) : (emitted level e s).Renamed ρ (emitted level f t) := by
  unfold emitted
  rw [h.level]
  split
  · exact { hst with }
  · exact hst

theorem renames_emit (level : Int) {e f : Event} (h : e.Renamed ρ f) :
    RenamesSteps ρ (emit level e) (emit level f) := by
  cases hfault : e.fault? with
  | none =>
    rw [emit_eq_modify hfault, emit_eq_modify (h.fault?.trans hfault)]
    exact fun s t hst => .ok trivial (renamed_emitted hst level h)
  | some fault =>
    unfold emit
    rw [h.level, h.fault?, hfault]
    split
    · exact .throw (.fault fault)
    · exact .pure trivial

theorem renames_lookup (name : Tree) :
    RenamesValue ρ (lookup name) (lookup (Name.rename ρ name)) := by
  intro s t hst
  have hfound : Outcome.Renamed (Value.Kept ρ) (Value.rename ρ)
      (Name.lookup s.scopes.lookup? name) (Name.lookup t.scopes.lookup? (Name.rename ρ name)) := by
    rw [hst.scopes]
    exact .lookup (fun _ _ => hst.kept.of_lookup?) (Chain.lookup?_rename ρ _ _) name
  exact Renames.lift hfound s t hst

theorem renames_declare (name : Tree) {v : Value} (hv : v.Kept ρ) :
    RenamesSteps ρ (declare name v) (declare (Name.rename ρ name) (v.rename ρ)) := by
  unfold declare
  rw [Name.bindable_rename]
  refine (Renames.lift (.of_grants (.any _))).bind fun text _ s t hst => .ok trivial ?_
  exact { hst with
    scopes := by simp only [hst.scopes, Chain.rename_declare]
    kept := hst.kept.declare hv }

theorem renames_assign (name : Tree) {v : Value} (hv : v.Kept ρ) :
    RenamesSteps ρ (assign name v) (assign (Name.rename ρ name) (v.rename ρ)) := by
  intro s t hst
  have hfound : Outcome.Renamed (Chain.Each (Value.Kept ρ)) (Chain.rename ρ (Value.rename ρ))
      (Name.lookup (s.scopes.assign? · v) name)
      (Name.lookup (t.scopes.assign? · (v.rename ρ)) (Name.rename ρ name)) := by
    rw [hst.scopes]
    exact .lookup (fun _ _ => hst.kept.of_assign? hv) (Chain.assign?_rename ρ _ _ · v) name
  have hchange (c : Chain Value) (hc : c.Each (Value.Kept ρ)) : RenamesSteps ρ
      (modify fun s => { s with scopes := c })
      (modify fun t => { t with scopes := c.rename ρ (Value.rename ρ) }) :=
    fun s t hst => .ok trivial { hst with scopes := rfl, kept := hc }
  exact ((Renames.lift hfound).bind hchange) s t hst

theorem renames_write (text : String) : RenamesSteps ρ (write text) (write text) :=
  fun _ _ hst => .ok trivial { hst with output := by simp only [hst.output] }

theorem renames_readLine : Renames ρ (fun _ => True) id readLine readLine := by
  intro s t hst
  have hline : (readLine t) = .ok _ { t with input := _ } := rfl
  rw [hline, hst.input]
  exact .ok trivial { hst with input := rfl }

theorem renames_result {x : Except Failure Value} (h : Grants (Value.Kept ρ) x) :
    RenamesValue ρ (result x) (result (x.map (Value.rename ρ))) := by
  refine (Renames.lift (.of_grants h)).bind fun v hv s t hst => ?_
  change Ends ρ _ _ (.ok (v.number s.results).1 { s with results := (v.number s.results).2 })
    (.ok ((v.rename ρ).number t.results).1 { t with results := ((v.rename ρ).number t.results).2 })
  rw [hst.results, Value.number_rename]
  exact .ok (hv.number s.results) { hst with results := rfl }

-- A node has the same type and the same place under other names.
theorem renames_visit (level : Int) (node : Node) {m n : Eval Value} (h : RenamesValue ρ m n) :
    RenamesValue ρ (visit level node m) (visit level (node.rename ρ) n) := by
  unfold visit
  rw [Node.place?_rename, Node.typeName_rename]
  cases node.place? with
  | some place =>
    exact (renames_emit level (.visited _ place)).bind fun _ _ => h.located place
  | none => exact h

theorem renames_noItems (first : Fault) (t : Tree) :
    RenamesSteps ρ (noItems first t) (noItems first t) := by
  cases t with
  | str s =>
    rw [noItems]
    by_cases hempty : s.isEmpty
    · rw [if_pos hempty]
      exact .pure trivial
    · rw [if_neg hempty]
      exact .throw (.fault first)
  | _ => exact .throw (.fault _)

theorem renames_textOf (args : List Value) : Renames ρ (fun _ => True) id
    (lift (Builtin.textOf args)) (lift (Builtin.textOf (Value.renameAll ρ args))) := by
  rw [Value.textOf_rename]
  exact .lift (.refl _)

theorem renames_builtinCall (b : Builtin) {args : List Value} (hargs : ∀ v ∈ args, v.Kept ρ) :
    RenamesValue ρ (b.call args) (b.call (Value.renameAll ρ args)) := by
  cases b with
  | print =>
    refine (renames_textOf args).bind fun text _ => ?_
    exact (renames_write _).bind fun _ _ => .pure .null
  | input =>
    refine (renames_textOf args).bind fun text _ => ?_
    refine (renames_write _).bind fun _ _ => ?_
    exact renames_readLine.bind fun line _ => .pure (.str line)
  | tup => exact .pure (.tuple hargs)

end Steps

end Eval

end TernLang
