import TernLang.Proofs.Eval.Progress
import TernLang.Proofs.Eval.Safe

-- The integers at the points of a run. As long as only integers that fit a word are there at the
-- start, and nothing is counted that has more parts than a word can hold, no others come up.

namespace TernLang

namespace Eval

section Points

variable {level limit : Int}

-- What there is at a point before anything is done there.
def Ready : Task → State → Prop
  | .eval _ node, s => node.Everywhere Node.LiteralFits ∧ s.Fits
  | .bind _ _ value, s => (∀ v ∈ value, v.Fits) ∧ s.Fits

-- What is done at a point is safe.
def IsSafe (level limit : Int) : Task → State → Prop
  | .eval room node, s => Safe Value.Fits (eval level (invoke level limit room) node) s
  | .bind way target value, s => Safe (fun _ => True) (bind level way target value) s

-- Points that lead to none but their own kind, and at which no length is taken that a word cannot
-- hold.
structure Closed (level limit : Int) (seen : Task → State → Prop) : Prop where
  next {task next : Task} {s t : State} (here : seen task s)
    (leads : Leads level limit task s next t) : seen next t
  length {task : Task} {s : State} {n : Nat} (here : seen task s)
    (taken : TakesLength level limit task s n) : Word.Fits n

theorem safe_eval {seen : Task → State → Prop} (hclosed : Closed level limit seen) (room : Nat)
    (node : Node) {s : State} (hseen : seen (.eval room node) s)
    (hnode : node.Everywhere Node.LiteralFits) (hs : s.Fits) :
    Safe Value.Fits (eval level (invoke level limit room) node) s :=
  safe_eval_of_leads hnode hs (fun _ => hclosed.length hseen) fun room' m _ hleads hm ht =>
    safe_eval hclosed room' m (hclosed.next hseen hleads) hm ht
termination_by (room, node.nesting)
decreasing_by
  rcases hleads.below with hroom | ⟨hroom, hchild | ⟨n, hn, hchild⟩⟩
  · exact Prod.Lex.left _ _ (by omega)
  · exact hroom ▸ Prod.Lex.right _ (Node.nesting_lt_of_mem_children hchild)
  · exact hroom ▸ Prod.Lex.right _
      ((Node.nesting_lt_of_mem_children hchild).trans (Node.nesting_lt_of_mem_children hn))

section Ready

variable {seen : Task → State → Prop} {room : Nat} {node m : Node} {s t : State}

theorem safe_of_leads (hclosed : Closed level limit seen) (hseen : seen (.eval room node) s)
    (hready : Ready (.eval room node) s)
    (hleads : Leads level limit (.eval room node) s (.eval room m) t) (ht : t.Fits) :
    Safe Value.Fits (eval level (invoke level limit room) m) t :=
  safe_eval hclosed room m (hclosed.next hseen hleads) (hleads.everywhere hready.1) ht

theorem fits_of_operand (hclosed : Closed level limit seen) (hseen : seen (.eval room node) s)
    (hready : Ready (.eval room node) s) {v : Value} {operands : List Node}
    (hnode : node.operands = m :: operands)
    (hrun : eval level (invoke level limit room) m (entered level node s) = .ok v t) :
    v.Fits ∧ t.Fits := by
  refine (safe_of_leads hclosed hseen hready (.operand ?_) (fits_entered level hready.2)).fits_of_ok
    hrun
  rw [hnode]
  exact .here

-- Whatever a point leads to is as ready as the point itself.
theorem ready_of_leads (hclosed : Closed level limit seen) {task next : Task}
    (hseen : seen task s) (hready : Ready task s) (hleads : Leads level limit task s next t) :
    Ready next t := by
  have hbelow := hleads
  cases hleads with
  | operand reached =>
    refine ⟨hbelow.everywhere hready.1, ?_⟩
    exact fits_of_reaches (fun m u hu => safe_of_leads hclosed hseen hready (.operand hu))
      (fits_entered level hready.2) reached
  | argument function reached =>
    refine ⟨hbelow.everywhere hready.1, ?_⟩
    exact fits_of_reaches (fun m u hu => safe_of_leads hclosed hseen hready (.argument function hu))
      (fits_of_operand hclosed hseen hready rfl function).2 reached
  | @body room place q f m args statements p values frame _ t u w x function arguments bound
      reported block reached =>
    obtain ⟨hp, ht⟩ := fits_of_operand hclosed hseen hready rfl function
    have hargs : Safe (fun vs => ∀ v ∈ vs, v.Fits)
        (evalItems level (invoke level limit (room + 1)) args) t := by
      refine safe_evalItems ?_ ht
      rintro nodes rfl m u hm
      exact safe_of_leads hclosed hseen hready (.argument function hm)
    obtain ⟨hvalues, hu⟩ := hargs.fits_of_ok arguments
    have hframe := grants_frame p hvalues
    rw [bound] at hframe
    have hw := ((Safe.emit level _ hu).fits_of_ok reported).2
    have hstatements := everywhere_of_body hp block
    refine ⟨hstatements m reached.mem, fits_of_reaches (fun n y hn => ?_) (hw.push hframe) reached⟩
    exact safe_eval hclosed room n
      (hclosed.next hseen (.body function arguments bound reported block hn))
      (hstatements n hn.mem)
  | assign evaluated =>
    obtain ⟨hv, ht⟩ := fits_of_operand hclosed hseen hready rfl evaluated
    exact ⟨Value.forall_mem_given hv, ht⟩
  | @declare _ place target value v _ _ evaluated =>
    have hentered : (entered level (.declare place target value) s).Fits :=
      fits_entered level hready.2
    have hvalue := (safe_evalSome (fun m hm => ?_) hentered).fits_of_ok evaluated
    · exact ⟨Value.forall_mem_bind_given hvalue.1, hvalue.2⟩
    · obtain rfl := Option.mem_def.1 hm
      exact safe_of_leads hclosed hseen hready (.operand .here) hentered
  | type reached =>
    refine ⟨hbelow.everywhere hready.1, ?_⟩
    exact fits_of_reachesType (fun m u hu => safe_of_leads hclosed hseen hready (.type hu))
      (fits_entered level hready.2) reached
  | result evaluated =>
    refine ⟨hbelow.everywhere hready.1, ?_⟩
    refine ((safe_evalParameterItems ?_ (fits_entered level hready.2)).fits_of_ok evaluated).2
    rintro nodes rfl m u hu
    exact safe_of_leads hclosed hseen hready (.type hu)
  | thenBlock tested reported | elseBlock tested reported =>
    refine ⟨hbelow.everywhere hready.1, ?_⟩
    have ht := (fits_of_operand hclosed hseen hready rfl tested).2
    exact ((Safe.emit level _ ht).fits_of_ok reported).2
  | arm evaluated reached =>
    refine ⟨hbelow.everywhere hready.1, ?_⟩
    exact fits_of_reachesArm (fun m u hu => safe_of_leads hclosed hseen hready (.arm evaluated hu))
      (fits_of_operand hclosed hseen hready rfl evaluated).2 reached
  | target parts reached =>
    exact fits_of_reachesTarget reached (fits_partsOf hready.1 parts) hready.2

end Ready

end Points

section Programs

variable {settings : Settings} {depth : Int} {program : Node} {s : State}

theorem Safe.reporting {m : Eval Value} (level : Int) (hm : Safe Value.Fits m s) :
    Safe Value.Fits (Eval.reporting (fun e => Eval.emit level (.failed e)) m) s := by
  have hreported (e : Failure) (t : State) : (reportedAs level e t).2.scopes = t.scopes :=
    (blindHandler_reportedAs level).scopes e t
  rw [reporting_eq]
  unfold Safe at hm ⊢
  cases hrun : m s with
  | ok a t =>
    rw [hrun] at hm
    rw [around_of_ok hrun]
    exact hm
  | error e t =>
    rw [hrun] at hm
    rw [around_of_error hrun]
    show (reportedAs level e t).2.scopes.Each Value.Fits
    rw [hreported]
    exact hm

theorem safe_finish (level : Int) {v : Value} (hv : v.Fits) (hs : s.Fits) :
    Safe Value.Fits (finish level v) s := by
  unfold finish
  split
  · exact (Safe.emit level _ hs).bind fun _ t _ _ ht => .pure hv ht
  · exact .throw _ hs

variable [Machine]

-- No length is taken in a run that a word cannot hold.
def TakesShort (settings : Settings) (program : Node) (s : State) : Prop :=
  ∀ depth, settings.checkStack = .ok depth → ∀ task t, Visits settings program s task t →
    ∀ n, TakesLength settings.level depth task t n → n < 2 ^ 63

theorem closed_visits (hdepth : settings.checkStack = .ok depth)
    (hshort : TakesShort settings program s) :
    Closed settings.level depth (Visits settings program s) where
  next here leads := .later here hdepth leads
  length here taken := by
    have hlt := hshort depth hdepth _ _ here _ taken
    simp only [Word.Fits, Word.least, Word.greatest]
    omega

-- The statements for which there is room on the stack, where they come up.
theorem safe_statement (hdepth : settings.checkStack = .ok depth)
    (hshort : TakesShort settings program s) {statements : List Node}
    (hbody : program.body? = some (.list statements))
    (hstatements : ∀ n ∈ statements, n.Everywhere Node.LiteralFits) {m : Node} {t : State}
    (hm : Reaches settings.level (invoke settings.level depth depth.toNat)
      (statements.takeWhile (Settings.hasRoom depth))
      (emitted settings.level (.started statements.length) s) m t) (ht : t.Fits) :
    Safe Value.Fits (eval settings.level (invoke settings.level depth depth.toNat) m) t :=
  safe_eval (closed_visits hdepth hshort) depth.toNat m (.statement hbody hdepth hm)
    (hstatements m ((List.takeWhile_prefix _).subset hm.mem)) ht

theorem ready_of_visits (hshort : TakesShort settings program s)
    (hstatements : ∀ statements, program.body? = some (.list statements) →
      ∀ n ∈ statements, n.Everywhere Node.LiteralFits)
    (hs : s.Fits) {task : Task} {t : State} (h : Visits settings program s task t) :
    Ready task t := by
  induction h with
  | statement body stack reached =>
    refine ⟨hstatements _ body _ ((List.takeWhile_prefix _).subset reached.mem), ?_⟩
    exact fits_of_reaches
      (fun m u hm => safe_statement stack hshort body (hstatements _ body) hm)
      (fits_emitted _ _ hs) reached
  | later visited stack leads ih =>
    exact ready_of_leads (closed_visits stack hshort) visited ih leads

theorem isSafe_of_visits (hdepth : settings.checkStack = .ok depth)
    (hshort : TakesShort settings program s) {task : Task} {t : State} (hready : Ready task t)
    (h : Visits settings program s task t) : IsSafe settings.level depth task t := by
  cases task with
  | eval room node => exact safe_eval (closed_visits hdepth hshort) room node h hready.1 hready.2
  | bind way target value => exact safe_bind way target hready.1 hready.2

theorem safe_run {place : Place} {statements : List Node}
    (hshort : TakesShort settings (.program place (.list statements)) s)
    (hstatements : ∀ n ∈ statements, n.Everywhere Node.LiteralFits) (hs : s.Fits) :
    Safe Value.Fits (run settings (.program place (.list statements))) s := by
  have hstarted := fits_emitted settings.level (.started statements.length) hs
  unfold Safe
  cases hdepth : settings.checkStack with
  | error e =>
    rw [run_of_checkStack_error hdepth rfl rfl]
    exact hstarted
  | ok depth =>
    rw [run_of_checkStack hdepth rfl rfl]
    have hsequence : Safe Value.Fits
        (evalSequence settings.level (invoke settings.level depth depth.toNat) .null
          (statements.takeWhile (Settings.hasRoom depth)))
        (emitted settings.level (.started statements.length) s) :=
      safe_evalSequence (fun m t hm => safe_statement hdepth hshort rfl hstatements hm) .null
        hstarted
    have hexecute : Safe Value.Fits (execute settings.level depth (.list statements))
        (emitted settings.level (.started statements.length) s) := by
      refine hsequence.bind fun v t _ hv ht => ?_
      split
      · exact .pure hv ht
      · exact .fail _ ht
    exact (hexecute.reporting settings.level).bind fun v t _ hv ht => safe_finish _ hv ht

end Programs

section Names

theorem eval_ident {level : Int} {call : Caller} {place : Place} {name : String} {s : State}
    {v : Value} (h : s.scopes.lookup? name = some v) :
    eval level call (.ident place (.str name)) s =
      .ok v (visited level (.ident place (.str name)) s) := by
  have hemit : emit level (.visited "Ident" place) =
      modify (emitted level (.visited "Ident" place)) := emit_eq_modify rfl
  rw [eval.eq_def]
  show (emit level (.visited "Ident" place) >>= fun _ => located place (lookup (.str name))) s = _
  rw [hemit]
  show located place (lookup (.str name)) (emitted level (.visited "Ident" place) s) = _
  rw [located, lookup_eq, scopes_emitted, Name.lookup_str_of_some h]
  rfl

theorem scopes_entered_call (level : Int) (place : Place) (f : Node) (args : Items Node)
    (s : State) :
    (entered level (.call place f args) s).scopes = s.scopes := scopes_visited ..

-- Where a name is called, what it is bound to is called.
theorem callee_eq {level : Int} {call : Caller} {place q : Place} {name : String} {f : Node}
    {args : Items Node} {s t : State} {v callee : Value} (h : s.scopes.lookup? name = some v)
    (hcallee : eval level call (.ident q (.str name)) (entered level (.call place f args) s) =
      .ok callee t) : callee = v := by
  rw [eval_ident (by rw [scopes_entered_call]; exact h)] at hcallee
  cases hcallee
  rfl

-- A program that calls a method by its name takes no other length than that of the receiver.
theorem takesShort_call [Machine] {settings : Settings} {p q r : Place} {name : String} {s : State}
    {m : Method} {receiver : Value} {bound : List Value}
    (h : s.scopes.lookup? name = some (.method m receiver bound))
    (hlength : ∀ n ∈ m.length? receiver, n < 2 ^ 63) :
    TakesShort settings (.program p (.list [.call q (.ident r (.str name)) (.list [])])) s := by
  -- the program comes to no other nodes than the call and the name, and binds nothing
  have hpoints {task : Task} {t : State}
      (hvisits : Visits settings (.program p (.list [.call q (.ident r (.str name)) (.list [])])) s
        task t) :
      t.scopes.lookup? name = some (.method m receiver bound) ∧
        ∃ room, task = .eval room (.call q (.ident r (.str name)) (.list [])) ∨
          task = .eval room (.ident r (.str name)) := by
    induction hvisits with
    | statement body stack reached =>
      cases body
      rw [List.takeWhile_cons, List.takeWhile_nil] at reached
      split at reached
      · cases reached with
        | here => exact ⟨by rw [scopes_emitted]; exact h, _, .inl rfl⟩
        | later _ rest => cases rest
      · cases reached
    | later visited stack leads ih =>
      obtain ⟨hlookup, room, rfl | rfl⟩ := ih
      · cases leads with
        | operand reached =>
          cases reached with
          | here =>
            refine ⟨?_, room, .inr rfl⟩
            rw [scopes_entered_call]
            exact hlookup
          | later _ rest => cases rest
        | argument _ reached => cases reached
        | body function => cases callee_eq hlookup function
      · cases leads with
        | operand reached => cases reached
  intro depth hdepth task t hvisits n htaken
  obtain ⟨hlookup, room, rfl | rfl⟩ := hpoints hvisits
  · cases htaken with
    | call function _ length =>
      cases callee_eq hlookup function
      exact hlength n length
  · cases htaken

end Names

end Eval

namespace Session

-- A step hands over nothing but a value that fits.
def Step.Fits : Step → Prop
  | run _ => True
  | define _ data => ∀ v, data.toValue = .ok v → v.Fits

-- When the steps are done one after the other from a session on, a program is run in a state.
def Runs [Machine] (s : Session) (list : List Step) (program : Node) (state : State) : Prop :=
  ∃ before source after, list = before ++ .run source :: after ∧
    Node.parse source = .ok program ∧ (s.steps before).state = state

section Steps

variable {s : Session}

theorem fits_start (settings : Settings) (input : String) : (start settings input).state.Fits :=
  each_start (forall_seeds .null .bool .builtin) settings input

variable [Machine]

theorem safe_run_of_parse {source : String} {program : Node}
    (hparse : Node.parse source = .ok program) {state : State} (hstate : state.Fits)
    {settings : Settings}
    (hshort : Eval.TakesShort settings program state) :
    Eval.Safe Value.Fits (Eval.run settings program) state := by
  have hliterals := Node.everywhere_literalFits_of_parse hparse
  cases Node.isProgram_of_parse hparse with
  | program _ _ => exact Eval.safe_run hshort hliterals.below hstate

theorem fits_step (hs : s.state.Fits) {st : Step} (hst : st.Fits)
    (hshort : ∀ source program, st = .run source → Node.parse source = .ok program →
      Eval.TakesShort s.settings program s.state) : (s.step st).state.Fits := by
  cases st with
  | run source =>
    rw [step]
    cases hparse : Node.parse source with
    | error failure =>
      rw [runSource, hparse]
      exact hs
    | ok program =>
      rw [runSource_of_parse hparse, state_perform]
      exact (safe_run_of_parse hparse hs (hshort source program rfl hparse)).fits_finalState
  | define name data =>
    rw [step, define]
    cases hdata : data.toValue with
    | error failure => exact hs
    | ok v => exact Chain.Each.declare hs (hst v hdata)

theorem runs_cons {st : Step} {list : List Step} {program : Node} {state : State} :
    s.Runs (st :: list) program state ↔
      (∃ source, st = .run source ∧ Node.parse source = .ok program ∧ s.state = state) ∨
        (s.step st).Runs list program state := by
  constructor
  · rintro ⟨before, source, after, hlist, hparse, hstate⟩
    cases before with
    | nil =>
      obtain ⟨rfl, rfl⟩ := List.cons.inj hlist
      exact .inl ⟨source, rfl, hparse, hstate⟩
    | cons first before =>
      obtain ⟨rfl, rfl⟩ := List.cons.inj hlist
      exact .inr ⟨before, source, after, rfl, hparse, hstate⟩
  · rintro (⟨source, rfl, hparse, hstate⟩ | ⟨before, source, after, rfl, hparse, hstate⟩)
    · exact ⟨[], source, list, rfl, hparse, hstate⟩
    · exact ⟨st :: before, source, after, rfl, hparse, hstate⟩

theorem fits_steps (hs : s.state.Fits) {list : List Step} (hdefines : ∀ st ∈ list, st.Fits)
    (hshort : ∀ program state, s.Runs list program state →
      Eval.TakesShort s.settings program state) :
    (s.steps list).state.Fits ∧ ∀ program state, s.Runs list program state → state.Fits := by
  induction list generalizing s with
  | nil => exact ⟨hs, by rintro program state ⟨before, source, after, hlist, -⟩; simp at hlist⟩
  | cons st list ih =>
    rw [List.forall_mem_cons] at hdefines
    have hstep : (s.step st).state.Fits := by
      refine fits_step hs hdefines.1 fun source program hst hparse => ?_
      exact hshort program s.state (runs_cons.2 (.inl ⟨source, hst, hparse, rfl⟩))
    have hlater : ∀ program state, (s.step st).Runs list program state →
        Eval.TakesShort (s.step st).settings program state := by
      intro program state hruns
      rw [settings_step]
      exact hshort program state (runs_cons.2 (.inr hruns))
    obtain ⟨hfinal, hruns⟩ := ih hstep hdefines.2 hlater
    refine ⟨hfinal, fun program state h => ?_⟩
    rcases runs_cons.1 h with ⟨source, -, -, rfl⟩ | h
    · exact hs
    · exact hruns program state h

end Steps

-- In a session in which only values that fit are handed over, and in which no length of 2 ^ 63 or
-- more is taken, all integers fit: those of the values that come out of a run and of its points, in
-- whatever the names are bound to before and after each of them, and in what a name is bound to.
theorem fits_of_takesShort [Machine] (settings : Settings) (input : String) {list : List Step}
    (hdefines : ∀ st ∈ list, st.Fits)
    (hshort : ∀ program state, (start settings input).Runs list program state →
      Eval.TakesShort settings program state) :
    ((start settings input).steps list).state.Fits ∧
      ∀ program state, (start settings input).Runs list program state →
        state.Fits ∧ Eval.Safe Value.Fits (Eval.run settings program) state ∧
          ∀ depth, settings.checkStack = .ok depth →
            ∀ task t, Eval.Visits settings program state task t →
              Eval.Ready task t ∧ Eval.IsSafe settings.level depth task t := by
  obtain ⟨hfinal, hruns⟩ := fits_steps (fits_start settings input) hdefines hshort
  refine ⟨hfinal, fun program state h => ?_⟩
  have hstate := hruns program state h
  obtain ⟨before, source, after, -, hparse, -⟩ := id h
  refine ⟨hstate, safe_run_of_parse hparse hstate (hshort program state h), ?_⟩
  intro depth hdepth task t hvisits
  have hready : Eval.Ready task t := by
    refine Eval.ready_of_visits (hshort program state h) ?_ hstate hvisits
    have hliterals := Node.everywhere_literalFits_of_parse hparse
    cases Node.isProgram_of_parse hparse with
    | program _ _ =>
      rintro statements hbody
      cases hbody
      exact hliterals.below
  exact ⟨hready, Eval.isSafe_of_visits hdepth (hshort program state h) hready hvisits⟩

section

attribute [local instance] Machine.usual

-- The length of a text, taken by a method that was handed over.
theorem fits_of_takesShort_length :
    ((∀ st ∈ [Step.define "f" (.method "length" (.str "ab") []), .run "f()"], st.Fits) ∧
      ∀ program state, (start ⟨0, some 20⟩ "").Runs
        [.define "f" (.method "length" (.str "ab") []), .run "f()"] program state →
        Eval.TakesShort ⟨0, some 20⟩ program state) ∧
    ((start ⟨0, some 20⟩ "").steps
      [.define "f" (.method "length" (.str "ab") []), .run "f()"]).state.Fits ∧
      ∀ program state, (start ⟨0, some 20⟩ "").Runs
        [.define "f" (.method "length" (.str "ab") []), .run "f()"] program state →
        Eval.Safe Value.Fits (Eval.run ⟨0, some 20⟩ program) state := by
  have hdefines : ∀ st ∈ [Step.define "f" (.method "length" (.str "ab") []), .run "f()"],
      st.Fits := by
    simp only [List.mem_cons, List.not_mem_nil, or_false, forall_eq_or_imp, forall_eq]
    refine ⟨fun v hv => ?_, trivial⟩
    obtain rfl : Value.method .stringLength (.str "ab") [] = v := Except.ok.inj hv
    exact .method _ (.str _) (by simp)
  have hshort : ∀ program state, (start ⟨0, some 20⟩ "").Runs
      [.define "f" (.method "length" (.str "ab") []), .run "f()"] program state →
      Eval.TakesShort ⟨0, some 20⟩ program state := by
    intro program state hruns
    rcases runs_cons.1 hruns with ⟨source, hrun, -⟩ | hruns
    · cases hrun
    rcases runs_cons.1 hruns with ⟨source, hrun, hparse, rfl⟩ | ⟨before, _, after, hlist, -⟩
    · cases hrun
      obtain ⟨p, q, r, hread⟩ : ∃ p q r, Node.parse "f()" =
          .ok (.program p (.list [.call q (.ident r (.str "f")) (.list [])])) := ⟨_, _, _, rfl⟩
      obtain rfl := Except.ok.inj (hread.symm.trans hparse)
      have hbound : ((start ⟨0, some 20⟩ "").step
          (.define "f" (.method "length" (.str "ab") []))).state.scopes.lookup? "f" =
            some (.method .stringLength (.str "ab") []) := rfl
      refine Eval.takesShort_call hbound fun n hn => ?_
      cases hn
      decide
    · simp at hlist
  obtain ⟨hfinal, hruns⟩ := fits_of_takesShort ⟨0, some 20⟩ "" hdefines hshort
  exact ⟨⟨hdefines, hshort⟩, hfinal, fun program state h => (hruns program state h).2.1⟩

end

end Session

end TernLang
