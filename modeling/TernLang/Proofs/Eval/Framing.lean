import TernLang.Proofs.Eval.Scoping

-- How far the effect of a statement reaches. The scopes around the current one keep their constants
-- and their names, and the current one is added to by declarations only. A call does not touch the
-- variables of its caller that are named like its parameters.

namespace TernLang

namespace Procedure

variable {p : Procedure Value} {f g : Frame Value} {name : String}

theorem exists_of_receive {parameter : Tree × Option Value}
    {parameters : List (Tree × Option Value)} {arg : Value} {args : List Value}
    (h : p.receive f (parameter :: parameters) (arg :: args) = .ok g) :
    ∃ bound, Name.bindable parameter.1 = .ok bound ∧
      p.receive (f.declare bound arg) parameters args = .ok g := by
  rw [receive] at h
  cases hcheck : p.checkArgument parameter.1 parameter.2 arg with
  | error e =>
    rw [hcheck] at h
    cases h
  | ok _ =>
    cases hbound : Name.bindable parameter.1 with
    | error e =>
      rw [hcheck, hbound] at h
      cases h
    | ok bound =>
      rw [hcheck, hbound] at h
      exact ⟨bound, rfl, h⟩

-- The parameters are variables of the scope of the body, those that are no constants.
theorem mem_vars_of_receive {parameters : List (Tree × Option Value)} {args : List Value}
    (h : p.receive f parameters args = .ok g) (hlength : args.length = parameters.length)
    (hname : isConstantName name = false)
    (hmem : name ∈ f.vars.names ∨ ∃ sample, (.str name, sample) ∈ parameters) :
    name ∈ g.vars.names := by
  induction parameters generalizing f args with
  | nil =>
    rw [receive.eq_def] at h
    simpa [← Except.ok.inj h] using hmem
  | cons parameter parameters ih =>
    cases args with
    | nil => simp at hlength
    | cons arg args =>
      obtain ⟨bound, hbound, hrest⟩ := exists_of_receive h
      refine ih hrest (by simpa using hlength) ?_
      rcases hmem with hmem | ⟨sample, hmem⟩
      · exact .inl ((Frame.extended_declare f bound arg).vars.subset hmem)
      · rcases List.mem_cons.1 hmem with rfl | hmem
        · obtain rfl : name = bound := Except.ok.inj hbound
          exact .inl (Frame.mem_vars_declare f hname arg)
        · exact .inr ⟨sample, hmem⟩

theorem mem_vars_of_frame {args : List Value} (h : p.frame args = .ok f)
    (hname : isConstantName name = false) {sample : Option Value}
    (hmem : (.str name, sample) ∈ p.parameters) : name ∈ f.vars.names := by
  unfold frame at h
  split at h
  · rename_i hlength
    exact mem_vars_of_receive h hlength hname (.inr ⟨sample, hmem⟩)
  · cases h

end Procedure

namespace Eval

theorem HasCourse.framed {declares : Bool} {α : Type} {m : Eval α} (h : HasCourse declares m)
    (s : State) : Chain.Framed declares s.scopes (finalState (m s)).scopes := by
  obtain ⟨ms, hms⟩ := h s
  exact hms.framed

section Calls

variable {α β : Type} {name : String} {m : Eval α} {k : α → Eval β}

-- A computation leaves what a name is bound to, in all scopes that there are when it starts.
def Spares (name : String) (m : Eval α) : Prop :=
  ∀ s, List.Forall₂ (Frame.Spared name) s.scopes.frames (finalState (m s)).scopes.frames

namespace Spares

theorem quiet (h : Quiet m) : Spares name m := by
  intro s
  rw [h.blind.scopes s]
  exact List.forall₂_same.2 fun f _ => .refl name f

theorem bind (hm : Spares name m) (hk : ∀ a, Spares name (k a)) : Spares name (m >>= k) := by
  intro s
  have hfirst := hm s
  simp only [Bind.bind, EStateM.bind]
  cases hrun : m s with
  | ok a t =>
    rw [hrun] at hfirst
    exact forall₂_trans (fun _ _ _ => .trans) hfirst (hk a t)
  | error e t =>
    rw [hrun] at hfirst
    exact hfirst

-- Inside a scope with a variable of the name only this one is in reach.
theorem inScope (hm : HasCourse true m) {f : Frame Value} (hf : name ∈ f.vars.names) :
    Spares name (Eval.inScope f m) := by
  intro s
  obtain ⟨ms, hms⟩ := hm (s.withScopes (s.scopes.push f))
  have hframed := Chain.framed_after hms.balanced (s.scopes.push f)
  have hspared := Chain.spared_after hms.balanced (s.scopes.push f) (k := 1) ⟨f, by simp, hf⟩
  have hpop : (finalState (Eval.inScope f m s)).scopes = ((s.scopes.push f).after ms).pop := by
    rw [inScope_eq, finalState_mapState]
    exact congrArg Chain.pop hms.scopes
  rw [hpop, hframed.frames_pop]
  exact hspared

end Spares

theorem spares_calling {p : Procedure Value} {args : List Value} {body : Frame Value → Eval Value}
    (hbody : ∀ frame, p.frame args = .ok frame → Spares name (body frame)) (level : Int) :
    Spares name (calling level p args body) := by
  unfold calling
  cases hframe : p.frame args with
  | error e => exact .quiet (.throw e)
  | ok frame =>
    rw [lift, pure_bind]
    exact (Spares.quiet (.emit _ _)).bind fun _ => (hbody frame hframe).bind fun value =>
      (Spares.quiet (.lift _)).bind fun _ => (Spares.quiet (.emit _ _)).bind fun _ =>
        .quiet (.pure value)

theorem spares_invoke {p : Procedure Value} {sample : Option Value}
    (hname : isConstantName name = false) (hmem : (.str name, sample) ∈ p.parameters)
    (level limit : Int) (room : Nat) (args : List Value) :
    Spares name (invoke level limit room p args) := by
  cases room with
  | zero =>
    rw [invoke_zero_eq]
    exact spares_calling (fun _ _ => .quiet (.throw _)) level
  | succ room =>
    have hbody : HasCourse true (runBody level (invoke level limit room) p.body) :=
      hasCourse_runBody (hasCourse_invoke level limit room true) p.body
    rw [invoke_succ_eq]
    exact spares_calling
      (fun _ hframe => .inScope hbody (Procedure.mem_vars_of_frame hframe hname hmem)) level

end Calls

-- A statement of a program, in any state and with any room for calls, whether it ends well or not.
-- The scopes around the current one keep their constants and the names of their variables; the
-- current one loses no name, and keeps both unless the statement is a declaration. A call leaves
-- all that its caller has bound under the name of one of its parameters, unless the name is that of
-- a constant.
theorem framed_of_isPart {n : Node} (h : n.IsPart .any .statement) (level limit : Int) (room : Nat)
    (s : State) :
    let t := finalState (eval level (invoke level limit room) n s)
    List.Forall₂ Frame.Kept s.scopes.outer t.scopes.outer ∧
    s.scopes.current.Extended t.scopes.current ∧
    (n.isDeclaration = false → s.scopes.current.Kept t.scopes.current) ∧
    ∀ (p : Procedure Value) (args : List Value) (name : String) (sample : Option Value),
      (.str name, sample) ∈ p.parameters → isConstantName name = false →
      List.Forall₂ (Frame.Spared name) s.scopes.frames
        (finalState (invoke level limit room p args s)).scopes.frames := by
  have hcall := hasCourse_invoke level limit room
  have hframed := (hasCourse_eval level (hcall true) n).framed s
  refine ⟨hframed.outer, hframed.extended, ?_, ?_⟩
  · intro hplain
    exact ((hasCourse_eval_of_isPart level hcall h hplain).framed s).kept rfl
  · intro p args name sample hmem hname
    exact spares_invoke hname hmem level limit room args s

-- An assignment as a statement, and as the body of a function whose parameter it assigns to.
theorem framed_of_isPart_assignment :
    let n : Node :=
      .assign .start (.ident .start (.str "a")) (.literal .start (.int 2) (.str "Integer"))
    let p : Procedure Value := ⟨"f", [(.str "a", none)], none, .block .start (.list [n])⟩
    (n.IsPart .any .statement ∧ n.isDeclaration = false ∧ (.str "a", none) ∈ p.parameters ∧
      isConstantName "a" = false) ∧
    ∀ s : State,
      List.Forall₂ Frame.Kept s.scopes.frames
        (finalState (eval 0 (invoke 0 1000 1000) n s)).scopes.frames ∧
      List.Forall₂ (Frame.Spared "a") s.scopes.frames
        (finalState (invoke 0 1000 1000 p [.int 1] s)).scopes.frames := by
  intro n p
  have hn : n.IsPart .any .statement :=
    .ofExpression (.assign trivial (by decide) (.ident trivial trivial)
      (.literal trivial (.integer 2 (by decide) (by decide))))
  have hname : isConstantName "a" = false := by decide
  refine ⟨⟨hn, rfl, List.mem_singleton.2 rfl, hname⟩, fun s => ?_⟩
  obtain ⟨houter, -, hcurrent, hcalls⟩ := framed_of_isPart hn 0 1000 1000 s
  exact ⟨.cons (hcurrent rfl) houter, hcalls p _ "a" none (List.mem_singleton.2 rfl) hname⟩

end Eval

end TernLang
