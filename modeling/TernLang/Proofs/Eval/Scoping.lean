import TernLang.Proofs.Eval.Course
import TernLang.Proofs.Syntax.Nesting

-- The courses of programs. Evaluation of a node has a course, and unless it is a declaration, or
-- has one outside of all blocks in it, nothing is declared in the scope it is evaluated in.

namespace TernLang

namespace Node

def isDeclaration : Node → Bool
  | declare .. | function .. => true
  | _ => false

-- There are declarations in the blocks of the tree only.
inductive Calm : Node → Prop where
  | block (place : Place) (statements : Items Node) : Calm (.block place statements)
  | node {n : Node} (plain : n.isDeclaration = false) (below : ∀ m ∈ n.children, m.Calm) : Calm n

theorem Calm.of_isExpression {l : Leaves} {n : Node} (h : n.IsExpression l) : n.Calm := by
  induction h with
  | literal | ident => exact .node rfl (by simp [children])
  | array _ _ ih => exact .node rfl ih
  | tuple _ _ _ ih => exact .node rfl ih
  | unary _ _ _ ih => exact .node rfl (by simpa [children] using ih)
  | call _ _ _ ihf ihargs => exact .node rfl (List.forall_mem_cons.2 ⟨ihf, ihargs⟩)
  | compare _ _ _ _ iha ihb | binary _ _ _ _ iha ihb | assign _ _ _ _ iha ihb
  | member _ _ _ iha ihb | index _ _ _ iha ihb | convert _ _ _ iha ihb =>
    exact .node rfl (by simpa [children] using ⟨iha, ihb⟩)

theorem Calm.of_isPart_block {l : Leaves} {n : Node} (h : n.IsPart l .block) : n.Calm := by
  cases h with
  | block => exact .block ..

theorem Calm.of_isPart {l : Leaves} {n : Node} (h : n.IsPart l .statement)
    (hplain : n.isDeclaration = false) : n.Calm := by
  cases h with
  | declare | function => simp [isDeclaration] at hplain
  | conditional _ hcondition hthen helse =>
    refine .node rfl ?_
    simp only [children, List.cons_append, List.nil_append, List.forall_mem_cons, Option.mem_toList]
    exact ⟨.of_isExpression hcondition, .of_isPart_block hthen,
      fun n hn => .of_isPart_block (helse n hn)⟩
  | cases _ hscrutinee harms =>
    refine .node rfl (List.forall_mem_cons.2 ⟨.of_isExpression hscrutinee, fun n hn => ?_⟩)
    cases harms n hn with
    | arm _ hlabel hbody =>
      refine .node rfl ?_
      simpa [children] using ⟨Calm.of_isExpression hlabel, Calm.of_isPart_block hbody⟩
  | ofBlock hblock => exact .of_isPart_block hblock
  | ofExpression hexpression => exact .of_isExpression hexpression

end Node

namespace Eval

variable {level limit : Int} {declares : Bool} {call : Caller}

section Operations

theorem hasCourse_noItems (first : Fault) (t : Tree) : HasCourse declares (noItems first t) := by
  cases t with
  | str s =>
    rw [noItems]
    split
    · exact .pure ()
    · exact .throw _
  | _ => exact .throw _

theorem hasCourse_builtinCall (b : Builtin) (args : List Value) :
    HasCourse declares (b.call args) := by
  cases b with
  | print =>
    exact (HasCourse.lift _).bind fun _ => (HasCourse.quiet (.write _)).bind fun _ => .pure _
  | input =>
    exact (HasCourse.lift _).bind fun _ => (HasCourse.quiet (.write _)).bind fun _ =>
      (HasCourse.quiet .readLine).bind fun _ => .pure _
  | tup => exact .pure _

theorem hasCourse_apply (hcall : ∀ p args, HasCourse declares (call p args)) (callee : Value)
    (args : List Value) : HasCourse declares (apply level call callee args) := by
  cases callee with
  | builtin b => exact (HasCourse.emit _ _).bind fun _ => hasCourse_builtinCall b args
  | method m receiver bound => exact (HasCourse.emit _ _).bind fun _ => .lift _
  | function p => exact hcall p args
  | _ => exact .pure _

theorem hasCourse_bindName {way : Binding} (hway : way = .declare → declares = true) (name : Tree)
    (value : Value) : HasCourse declares (bindName level way name value) := by
  cases way with
  | declare =>
    obtain rfl := hway rfl
    exact (HasCourse.declare name value).bind fun _ => .emit _ _
  | assign => exact (HasCourse.assign name value).bind fun _ => .emit _ _

mutual

theorem hasCourse_bind {way : Binding} (hway : way = .declare → declares = true) (target : Node)
    (value : Option Value) : HasCourse declares (bind level way target value) := by
  rw [bind.eq_def]
  split
  · exact hasCourse_bindName hway _ _
  · exact hasCourse_bindItems hway _ _
  · split
    · split
      · exact hasCourse_bindItems hway _ _
      · exact (HasCourse.fail _).located _
    · exact .throw _
  · exact (HasCourse.lift _).bind fun _ => (HasCourse.fail _).located _
  · exact .throw _
  · exact (HasCourse.fail _).located _

theorem hasCourse_bindItems {way : Binding} (hway : way = .declare → declares = true)
    (targets : Items Node) (values : List (Option Value)) :
    HasCourse declares (bindItems level way targets values) := by
  cases targets with
  | list targets =>
    rw [bindItems]
    exact hasCourse_bindAll hway targets values
  | other t =>
    rw [bindItems]
    exact hasCourse_noItems _ t

theorem hasCourse_bindAll {way : Binding} (hway : way = .declare → declares = true)
    (targets : List Node) (values : List (Option Value)) :
    HasCourse declares (bindAll level way targets values) := by
  cases targets with
  | nil =>
    rw [bindAll.eq_def]
    exact .pure ()
  | cons target targets =>
    cases values with
    | nil =>
      rw [bindAll.eq_def]
      exact .pure ()
    | cons value values =>
      rw [bindAll]
      exact (hasCourse_bind hway target value).bind fun _ => hasCourse_bindAll hway targets values

end

end Operations

section Nodes

-- What the induction on a tree says of a node: it has a course. A parameter or an arm is never
-- evaluated itself, and this is said of its parts.
def Courses (declares : Bool) (level : Int) (call : Caller) : Node → Prop
  | .parameter _ _ type => ∀ n ∈ type, HasCourse declares (eval level call n)
  | .arm _ label body =>
    HasCourse declares (eval level call label) ∧ HasCourse declares (eval level call body)
  | n => HasCourse declares (eval level call n)

theorem hasCourse_of_visit {node : Node} {m : Eval Value}
    (heval : eval level call node = visit level node m) (hm : HasCourse declares m) :
    HasCourse declares (eval level call node) := by
  rw [heval]
  unfold visit
  split
  · exact (HasCourse.emit _ _).bind fun _ => hm.located _
  · exact hm

theorem hasCourse_of_courses {node : Node} (h : Courses declares level call node) :
    HasCourse declares (eval level call node) := by
  cases node with
  | parameter | arm => exact hasCourse_of_visit (eval.eq_def ..) (.throw _)
  | _ => exact h

theorem hasCourse_evalAll {nodes : List Node}
    (h : ∀ n ∈ nodes, HasCourse declares (eval level call n)) :
    HasCourse declares (evalAll level call nodes) := by
  induction nodes with
  | nil =>
    rw [evalAll]
    exact .pure _
  | cons n nodes ih =>
    rw [List.forall_mem_cons] at h
    rw [evalAll]
    exact h.1.bind fun _ => (ih h.2).bind fun _ => .pure _

theorem hasCourse_evalSequence {nodes : List Node}
    (h : ∀ n ∈ nodes, HasCourse declares (eval level call n)) (last : Value) :
    HasCourse declares (evalSequence level call last nodes) := by
  induction nodes generalizing last with
  | nil =>
    rw [evalSequence]
    exact .pure _
  | cons n nodes ih =>
    rw [List.forall_mem_cons] at h
    rw [evalSequence]
    exact h.1.bind fun value => ih h.2 value

theorem hasCourse_evalSome {node : Option Node}
    (h : ∀ n ∈ node, HasCourse declares (eval level call n)) :
    HasCourse declares (evalSome level call node) := by
  cases node with
  | none =>
    rw [evalSome]
    exact .pure _
  | some n =>
    rw [evalSome]
    exact (h n rfl).bind fun _ => .pure _

theorem hasCourse_evalParameters {nodes : List Node}
    (h : ∀ n ∈ nodes, Courses declares level call n) :
    HasCourse declares (evalParameters level call nodes) := by
  induction nodes with
  | nil =>
    rw [evalParameters]
    exact .pure _
  | cons n nodes ih =>
    rw [List.forall_mem_cons] at h
    rw [evalParameters.eq_def]
    cases n with
    | parameter place name type =>
      exact (hasCourse_evalSome h.1).bind fun _ => (ih h.2).bind fun _ => .pure _
    | _ => exact .throw _

theorem hasCourse_evalArms {nodes : List Node} (h : ∀ n ∈ nodes, Courses declares level call n)
    (value : Value) (position : Nat) :
    HasCourse declares (evalArms level call value position nodes) := by
  induction nodes generalizing position with
  | nil =>
    rw [evalArms]
    exact .pure _
  | cons n nodes ih =>
    rw [List.forall_mem_cons] at h
    rw [evalArms.eq_def]
    cases n with
    | arm place label body =>
      refine h.1.1.bind fun v => (HasCourse.lift _).bind fun hit => ?_
      cases hit with
      | true => exact (HasCourse.emit _ _).bind fun _ => h.1.2
      | false => exact ih h.2 (position + 1)
    | _ => exact .throw _

theorem hasCourse_evalItems {items : Items Node}
    (h : ∀ nodes, items = .list nodes → ∀ n ∈ nodes, HasCourse declares (eval level call n)) :
    HasCourse declares (evalItems level call items) := by
  cases items with
  | list nodes =>
    rw [evalItems]
    exact hasCourse_evalAll (h nodes rfl)
  | other t =>
    rw [evalItems]
    exact (hasCourse_noItems _ t).bind fun _ => .pure _

theorem hasCourse_evalBody {items : Items Node}
    (h : ∀ nodes, items = .list nodes → ∀ n ∈ nodes, HasCourse declares (eval level call n)) :
    HasCourse declares (evalBody level call items) := by
  cases items with
  | list nodes =>
    rw [evalBody]
    exact hasCourse_evalSequence (h nodes rfl) .null
  | other t =>
    rw [evalBody]
    exact (hasCourse_noItems _ t).bind fun _ => .pure _

theorem hasCourse_evalParameterItems {items : Items Node}
    (h : ∀ nodes, items = .list nodes → ∀ n ∈ nodes, Courses declares level call n) :
    HasCourse declares (evalParameterItems level call items) := by
  cases items with
  | list nodes =>
    rw [evalParameterItems]
    exact hasCourse_evalParameters (h nodes rfl)
  | other t =>
    rw [evalParameterItems]
    exact (hasCourse_noItems _ t).bind fun _ => .pure _

theorem hasCourse_evalArmItems {items : Items Node}
    (h : ∀ nodes, items = .list nodes → ∀ n ∈ nodes, Courses declares level call n)
    (value : Value) : HasCourse declares (evalArmItems level call value items) := by
  cases items with
  | list nodes =>
    rw [evalArmItems]
    exact hasCourse_evalArms (h nodes rfl) value 0
  | other t =>
    rw [evalArmItems]
    exact (hasCourse_noItems _ t).bind fun _ => .pure _

-- What is declared in a block is declared in the scope of the block.
theorem hasCourse_block (place : Place) {statements : Items Node}
    (h : ∀ nodes, statements = .list nodes → ∀ n ∈ nodes, HasCourse true (eval level call n)) :
    HasCourse declares (eval level call (.block place statements)) :=
  hasCourse_of_visit (eval.eq_def ..) (hasCourse_evalBody h).inScope

-- A node has a course if those right below it have one.
theorem courses_of_children (hcall : ∀ p args, HasCourse declares (call p args)) {node : Node}
    (hplain : declares = false → node.isDeclaration = false)
    (h : ∀ n ∈ node.children, Courses declares level call n) :
    Courses declares level call node := by
  have hparts : ∀ n ∈ node.children, HasCourse declares (eval level call n) :=
    fun n hn => hasCourse_of_courses (h n hn)
  cases node with
  | literal place value type => exact hasCourse_of_visit (eval.eq_def ..) (.pure _)
  | ident place name => exact hasCourse_of_visit (eval.eq_def ..) (.lookup name)
  | array place elements | tuple place elements =>
    refine hasCourse_of_visit (eval.eq_def ..) (.bind (hasCourse_evalItems ?_) fun _ => .pure _)
    rintro nodes rfl
    exact hparts
  | compare place op left right | index place left right =>
    simp only [Node.children, List.forall_mem_cons] at hparts
    exact hasCourse_of_visit (eval.eq_def ..)
      (hparts.1.bind fun _ => hparts.2.1.bind fun _ => .lift _)
  | binary place op left right =>
    simp only [Node.children, List.forall_mem_cons] at hparts
    exact hasCourse_of_visit (eval.eq_def ..)
      (hparts.1.bind fun _ => hparts.2.1.bind fun _ => .quiet (.result _))
  | unary place op operand =>
    simp only [Node.children, List.forall_mem_cons] at hparts
    exact hasCourse_of_visit (eval.eq_def ..) (hparts.1.bind fun _ => .quiet (.result _))
  | call place function args =>
    have hfunction : HasCourse declares (eval level call function) :=
      hparts function (by cases args <;> exact List.mem_cons_self)
    refine hasCourse_of_visit (eval.eq_def ..) (hfunction.bind fun callee =>
      (hasCourse_evalItems ?_).bind fun values => hasCourse_apply hcall callee values)
    rintro nodes rfl n hn
    exact hparts n (List.mem_cons_of_mem _ hn)
  | member place target property =>
    simp only [Node.children, List.forall_mem_cons] at hparts
    refine hasCourse_of_visit (eval.eq_def ..) (hparts.1.bind fun _ => ?_)
    cases property with
    | ident place name => exact .lift _
    | _ => exact .pure _
  | convert place value type =>
    simp only [Node.children, List.forall_mem_cons] at hparts
    refine hasCourse_of_visit (eval.eq_def ..) (hparts.1.bind fun _ => ?_)
    cases type with
    | ident place name => exact .quiet (.result _)
    | _ => exact .pure _
  | assign place target value =>
    simp only [Node.children, List.forall_mem_cons] at hparts
    exact hasCourse_of_visit (eval.eq_def ..) (hparts.2.1.bind fun _ =>
      (hasCourse_bind (by simp) target _).bind fun _ => .pure _)
  | declare place target value =>
    obtain rfl : declares = true := by simpa [Node.isDeclaration] using hplain
    refine hasCourse_of_visit (eval.eq_def ..) ((hasCourse_evalSome fun n hn => ?_).bind fun _ =>
      (hasCourse_bind (fun _ => rfl) target _).bind fun _ => .pure _)
    exact hparts n (List.mem_cons_of_mem _ (Option.mem_toList.2 hn))
  | function place name parameters result body =>
    obtain rfl : declares = true := by simpa [Node.isDeclaration] using hplain
    have hparameters : HasCourse true (evalParameterItems level call parameters) := by
      refine hasCourse_evalParameterItems ?_
      rintro nodes rfl n hn
      exact h n (by simp [Node.children, hn])
    have hresult : HasCourse true (evalSome level call result) := by
      refine hasCourse_evalSome fun n hn => hparts n ?_
      cases parameters <;> simp [Node.children, Option.mem_def.1 hn]
    exact hasCourse_of_visit (eval.eq_def ..) (hparameters.bind fun _ => hresult.bind fun _ =>
      (HasCourse.declare name _).bind fun _ => (HasCourse.emit _ _).bind fun _ => .pure _)
  | conditional place condition thenBlock elseBlock =>
    simp only [Node.children, List.cons_append, List.nil_append, List.forall_mem_cons,
      Option.mem_toList] at hparts
    obtain ⟨hcondition, hthen, helse⟩ := hparts
    refine hasCourse_of_visit (eval.eq_def ..) (hcondition.bind fun v =>
      (HasCourse.emit _ _).bind fun _ => ?_)
    split
    · exact hthen
    · exact (hasCourse_evalSome helse).bind fun _ => .pure _
    · exact .pure _
  | cases place scrutinee arms =>
    have hscrutinee : HasCourse declares (eval level call scrutinee) :=
      hparts scrutinee (by cases arms <;> exact List.mem_cons_self)
    refine hasCourse_of_visit (eval.eq_def ..) (hscrutinee.bind fun v =>
      hasCourse_evalArmItems ?_ v)
    rintro nodes rfl n hn
    exact h n (List.mem_cons_of_mem _ hn)
  | block place statements =>
    refine hasCourse_block place ?_
    rintro nodes rfl n hn
    exact (hparts n hn).declaring
  | program place body =>
    refine hasCourse_of_visit (eval.eq_def ..) (hasCourse_evalBody ?_)
    rintro nodes rfl
    exact hparts
  | parameter place name type => exact fun n hn => hparts n (by simpa [Node.children] using hn)
  | arm place label body =>
    simp only [Node.children, List.forall_mem_cons] at hparts
    exact ⟨hparts.1, hparts.2.1⟩
  | stray t => exact hasCourse_of_visit (eval.eq_def ..) (.throw _)

theorem courses (level : Int) (hcall : ∀ p args, HasCourse true (call p args)) (node : Node) :
    Courses true level call node :=
  courses_of_children hcall (by simp) fun n _ => courses level hcall n
termination_by node.nesting
decreasing_by exact Node.nesting_lt_of_mem_children ‹_›

theorem hasCourse_eval (level : Int) (hcall : ∀ p args, HasCourse true (call p args))
    (node : Node) : HasCourse true (eval level call node) :=
  hasCourse_of_courses (courses level hcall node)

theorem courses_of_calm (level : Int)
    (hcall : ∀ declares p args, HasCourse declares (call p args)) {node : Node} (h : node.Calm) :
    Courses false level call node := by
  induction h with
  | block place statements =>
    exact hasCourse_block place fun _ _ n _ => hasCourse_eval level (hcall true) n
  | node plain _ ih => exact courses_of_children (hcall false) (fun _ => plain) ih

-- What is no declaration declares nothing in the scope that it is evaluated in.
theorem hasCourse_eval_of_isPart (level : Int)
    (hcall : ∀ declares p args, HasCourse declares (call p args)) {l : Node.Leaves} {node : Node}
    (h : node.IsPart l .statement) (hplain : node.isDeclaration = false) :
    HasCourse false (eval level call node) :=
  hasCourse_of_courses (courses_of_calm level hcall (.of_isPart h hplain))

end Nodes

section Calls

-- Binds the parameters one after the other, each when its argument was found to be of its kind.
def receiving (p : Procedure Value) : List (Tree × Option Value) → List Value → Eval Unit
  | (name, sample) :: parameters, arg :: args => do
    lift (p.checkArgument name sample arg)
    declare name arg
    receiving p parameters args
  | _, _ => pure ()

theorem hasCourse_receiving (p : Procedure Value) (parameters : List (Tree × Option Value))
    (args : List Value) : HasCourse true (receiving p parameters args) := by
  induction parameters generalizing args with
  | nil =>
    rw [receiving.eq_def]
    exact .pure ()
  | cons parameter parameters ih =>
    cases args with
    | nil =>
      rw [receiving.eq_def]
      exact .pure ()
    | cons arg args =>
      rw [receiving]
      exact (HasCourse.lift _).bind fun _ => (HasCourse.declare _ _).bind fun _ => ih args

-- A scope with the parameters bound is the scope in which they are bound.
theorem inScope_receiving {α : Type} (p : Procedure Value) (f : Frame Value)
    (parameters : List (Tree × Option Value)) (args : List Value) (m : Eval α) :
    inScope f (receiving p parameters args >>= fun _ => m) =
      lift (p.receive f parameters args) >>= fun g => inScope g m := by
  induction parameters generalizing f args with
  | nil =>
    rw [receiving.eq_def, Procedure.receive.eq_def]
    rfl
  | cons parameter parameters ih =>
    obtain ⟨name, sample⟩ := parameter
    cases args with
    | nil =>
      rw [receiving.eq_def, Procedure.receive.eq_def]
      rfl
    | cons arg args =>
      rw [receiving, Procedure.receive, declare]
      cases p.checkArgument name sample arg with
      | error e => rfl
      | ok _ =>
        cases Name.bindable name with
        | error e => rfl
        | ok bound =>
          funext s
          exact congrFun (ih (f.declare bound arg) args) s

-- A call up to its body. Its scope is opened before the parameters are bound.
theorem entry_eq (p : Procedure Value) (args : List Value) (m : Eval Value) :
    (do
      let frame ← lift (p.frame args)
      emit level (.called p.name args)
      inScope frame m) =
    if args.length = p.parameters.length then
      inScope .empty (do
        receiving p p.parameters args
        emit level (.called p.name args)
        m)
    else fail (.argumentCount p.name p.parameters.length args.length) := by
  rw [Procedure.frame]
  split
  · rw [inScope_receiving]
    simp only [(Quiet.emit level (.called p.name args)).blind.inScope_bind]
  · rfl

theorem hasCourse_entry (level : Int) (p : Procedure Value) (args : List Value) {m : Eval Value}
    (hm : HasCourse true m) :
    HasCourse declares (do
      let frame ← lift (p.frame args)
      emit level (.called p.name args)
      inScope frame m) := by
  rw [entry_eq]
  split
  · have hbody : HasCourse true (receiving p p.parameters args >>= fun _ =>
        emit level (.called p.name args) >>= fun _ => m) :=
      (hasCourse_receiving p _ args).bind fun _ => (HasCourse.emit _ _).bind fun _ => hm
    exact hbody.inScope
  · exact .fail _

theorem hasCourse_runBody (hcall : ∀ p args, HasCourse true (call p args)) (body : Node) :
    HasCourse true (runBody level call body) := by
  unfold runBody
  split
  · exact hasCourse_evalBody fun _ _ n _ => hasCourse_eval level hcall n
  · exact .throw _

theorem hasCourse_invoke (level limit : Int) (room : Nat) (declares : Bool) (p : Procedure Value)
    (args : List Value) : HasCourse declares (invoke level limit room p args) := by
  induction room generalizing declares p args with
  | zero =>
    rw [invoke_zero]
    exact hasCourse_entry level p args (HasCourse.fail (.callDepth limit))
  | succ room ih =>
    have hbody : HasCourse true (runBody level (invoke level limit room) p.body) :=
      hasCourse_runBody (ih true) p.body
    have hrest (value : Value) : HasCourse declares (do
        lift (p.checkResult value)
        emit level (.returned p.name value)
        pure value) :=
      (HasCourse.lift _).bind fun _ => (HasCourse.emit _ _).bind fun _ => .pure value
    have hcall := (hasCourse_entry level p args hbody).bind hrest
    simpa only [invoke, bind_assoc] using hcall

end Calls

section Programs

theorem blindHandler_reportedAs (level : Int) : BlindHandler (reportedAs level) := by
  intro e s c
  have hemitted (event : Event) :
      emitted level event (s.withScopes c) = (emitted level event s).withScopes c := by
    unfold emitted
    split <;> rfl
  cases e with
  | error e => rw [reportedAs, hemitted]; rfl
  | fault f =>
    cases f with
    | endlessText => rw [reportedAs, hemitted]; rfl
    | _ => rfl

theorem hasCourse_execute [Machine] (level depth : Int) (body : Items Node) :
    HasCourse true (execute level depth body) := by
  have heval (n : Node) : HasCourse true (eval level (invoke level depth depth.toNat) n) :=
    hasCourse_eval level (hasCourse_invoke level depth depth.toNat true) n
  cases body with
  | list statements =>
    refine (hasCourse_evalSequence (fun n _ => heval n) .null).bind fun value => ?_
    split
    · exact .pure value
    · exact .fail _
  | other t => exact hasCourse_evalBody fun _ _ n _ => heval n

theorem hasCourse_run [Machine] (settings : Settings) (program : Node) :
    HasCourse true (run settings program) := by
  unfold run
  split
  · exact .throw _
  · exact .throw _
  · refine (HasCourse.emit _ _).bind fun _ => (HasCourse.lift _).bind fun depth => .bind ?_ ?_
    · rw [reporting_eq]
      intro s
      obtain ⟨ms, hms⟩ := hasCourse_execute settings.level depth _ s
      exact ⟨ms, .handled (blindHandler_reportedAs settings.level) hms⟩
    · intro value
      unfold finish
      split
      · exact (HasCourse.emit _ _).bind fun _ => .pure value
      · exact .throw _

end Programs

end Eval

end TernLang
