import TernLang.Proofs.Syntax.ExpressionReading

-- Written programs are read as they were.

namespace TernLang.Grammar

open Parse Render Node

@[simp]
theorem kind_keyword (text : String) : (keyword text).kind = .keyword := rfl

@[simp]
theorem text_keyword (text : String) : (keyword text).text = .str text := rfl

@[simp]
theorem place_keyword (text : String) : (keyword text).place = .unknown := rfl

@[simp]
theorem kind_colon : colon.kind = .colon := by decide

@[simp]
theorem kind_semicolon : semicolon.kind = .semicolon := by decide

@[simp]
theorem kind_equals : equals.kind = .assign := by decide

@[simp]
theorem kind_openBrace : openBrace.kind = .leftBrace := by decide

@[simp]
theorem kind_closeBrace : closeBrace.kind = .rightBrace := by decide

@[simp]
theorem place_openBrace : openBrace.place = .unknown := rfl

@[simp]
theorem run_expectWord_keyword (word : String) (ts : List Token) :
    (expectWord word).run (keyword word :: ts) = .ok (keyword word, ts) :=
  run_expectWord rfl rfl ts

@[simp]
theorem run_discard_keyword (word : String) (ts : List Token) :
    (discard (expectWord word)).run (keyword word :: ts) = .ok ((), ts) :=
  run_discard_expectWord rfl rfl ts

section Expressions

variable [Machine] {e : Node} {left : Nat}

-- An expression in a statement, with assignment.
theorem run_expression (h : IsRead e) (hnest : e.levels .nesting ≤ left)
    (hroom : e.levels .room < Machine.room) (rest : List Token) (hrest : StopsAt 1 rest) :
    (expression left).run (e.tokens ++ rest) = .ok (e.unplaced, rest) :=
  h.expression Machine.room left hnest hroom rest hrest

-- An expression in a statement, where an assignment stands in parentheses.
theorem run_comparison (h : IsRead e)
    (hnest : encloseLevels (.atLeast 2) e (e.levels .nesting) ≤ left)
    (hroom : encloseLevels (.atLeast 2) e (e.levels .room) < Machine.room) (rest : List Token)
    (hrest : StopsAt 2 rest) :
    (comparison left).run (enclose (.atLeast 2) e e.tokens ++ rest) = .ok (e.unplaced, rest) := by
  obtain ⟨_, hle, hreads⟩ := h.enclosed 2 Machine.room Machine.room left (by decide) hnest hroom
    (Nat.le_of_lt hroom)
  exact hreads.toRelation hle rest hrest

end Expressions

section

variable [Machine] {l : Leaves} {left : Nat}

theorem run_typeTokens {type : Option Node} (h : ∀ n ∈ type, n.IsExpression l)
    (hnest : levelsSome (.atLeast 2) .nesting type ≤ left)
    (hroom : levelsSome (.atLeast 2) .room type < Machine.room) {t : Token} (ht : t.grip = 0)
    (hcolon : t.kind ≠ .colon) (rest : List Token) :
    ( annotation? left).run (typeTokens type ++ t :: rest) =
      .ok (unplacedSome type, t :: rest) := by
  cases type with
  | none => simp [typeTokens, annotation?, hcolon, unplacedSome]
  | some n =>
    have hrun := run_comparison (isRead_of_isExpression (h n rfl)) hnest hroom (t :: rest)
      (stopsAt_cons (by omega))
    simp [typeTokens, annotation?, hrun, unplacedSome]

theorem readsItem_parameter {n : Node} (h : n.IsPart l .parameter)
    (hnest : parameterLevels .nesting [n] ≤ left)
    (hroom : parameterLevels .room [n] < Machine.room) :
    ReadsItem .rightParen (parameter left) (parameterTokens n) n.unplaced := by
  cases h with
  | @parameter p s type _ _ htype =>
    simp only [parameterLevels, Nat.max_zero] at hnest hroom
    refine ⟨⟨_, _, rfl, by simp⟩, ?_⟩
    intro t rest ht
    have hgrip : t.grip = 0 := by
      apply grip_eq_zero
      tauto
    have hcolon : t.kind ≠ .colon := by
      rcases ht with ht | ht <;> simp [ht]
    have htypeRun := run_typeTokens htype hnest hroom hgrip hcolon rest
    simp [parameterTokens, parameter, htypeRun, unplaced]

-- The target of a declaration.
theorem run_declared {target : Node} (h : target.IsExpression l) (hbound : target.isTarget)
    (hnest : target.levels .nesting ≤ left) (hroom : target.levels .room < Machine.room)
    (rest : List Token) :
    (declared left).run (target.tokens ++ rest) = .ok (target.unplaced, rest) := by
  have hread := isRead_of_isExpression h
  cases h with
  | ident => simp [tokens, declared, unplaced]
  | @tuple p es _ hne hes =>
    have hreads := hread.reads Machine.room Machine.room left hnest hroom (Nat.le_of_lt hroom)
    have hprimary := hreads.toPrimary
      (Nat.le_refl 6) rest
    have htarget : (Node.tuple p (.list es)).unplaced.isTarget := by
      rw [isTarget_unplaced]
      exact hbound
    simp only [tokens, List.cons_append, List.append_assoc, List.nil_append] at hprimary ⊢
    simp [declared, bracketed, hprimary, htarget]
  | _ => simp [isTarget] at hbound

omit [Machine] in
theorem isOpen_atLeast_one (n : Node) : n.isOpen (.atLeast 1) = false := by
  cases n with
  | binary p op a b =>
    simp only [isOpen, tightness]
    split <;> decide
  | _ => rfl

theorem run_declaration {target : Node} {value : Option Node} {p : Place}
    (h : target.IsExpression l) (hbound : target.isTarget) (hvalue : ∀ n ∈ value, n.IsExpression l)
    (hnest : statementLevels .nesting (.declare p target value) ≤ left)
    (hroom : statementLevels .room (.declare p target value) < Machine.room) (rest : List Token) :
    (declaration left).run (statementTokens (.declare p target value) ++ rest) =
      .ok ((Node.declare p target value).unplaced, rest) := by
  simp only [statementLevels] at hnest hroom
  have htarget (rest : List Token) :
      (declared left).run (target.tokens ++ rest) = .ok (target.unplaced, rest) :=
    run_declared h hbound (by omega) (by omega) rest
  cases value with
  | none =>
    have hrun := htarget (semicolon :: rest)
    simp [statementTokens, initializer, declaration, hrun, unplaced, unplacedSome]
  | some n =>
    simp only [levelsSome, encloseLevels, isOpen_atLeast_one, Bool.false_eq_true, ite_false]
      at hnest hroom
    have hrun := htarget (equals :: (n.tokens ++ semicolon :: rest))
    have hinit : (expression left).run (n.tokens ++ semicolon :: rest) =
        .ok (n.unplaced, semicolon :: rest) :=
      run_expression (isRead_of_isExpression (hvalue n rfl)) (by omega) (by omega) _
        (stopsAt_cons (by decide))
    simp [statementTokens, initializer, declaration, hrun, hinit, unplaced, unplacedSome]

-- A semicolon is written after every expression that is a statement.
theorem run_evaluation {e : Node} (h : IsRead e) (hnest : e.levels .nesting ≤ left)
    (hroom : e.levels .room < Machine.room) (rest : List Token) :
    (evaluation left).run (e.tokens ++ semicolon :: rest) = .ok (e.unplaced, rest) := by
  have hrun := run_expression h hnest hroom (semicolon :: rest) (stopsAt_cons (by decide))
  have hskip := run_skip kind_semicolon rest
  cases hassign : e.unplaced.isAssign <;> simp [evaluation, hrun, hassign, hskip]

-- The statements that blocks stand in. What is read of a block is given.

variable {block : Parse Node}

omit [Machine] in
theorem statementTokens_block {n : Node} (h : n.IsPart l .block) :
    ∃ tail, n.statementTokens = openBrace :: tail := by
  cases h
  exact ⟨_, rfl⟩

theorem run_conditional {p : Place} {condition thenBlock : Node} {elseBlock : Option Node}
    (h : condition.IsExpression l) (hbegins : thenBlock.IsPart l .block)
    (hthen : ReadsPrimary block thenBlock.statementTokens thenBlock.unplaced)
    (helse : ∀ n ∈ elseBlock, ReadsPrimary block n.statementTokens n.unplaced)
    (hnest : encloseLevels (.atLeast 2) condition (condition.levels .nesting) ≤ left)
    (hroom : encloseLevels (.atLeast 2) condition (condition.levels .room) < Machine.room)
    {rest : List Token} (hrest : NoElse rest) :
    (conditional left block).run
        (statementTokens (.conditional p condition thenBlock elseBlock) ++ rest) =
      .ok ((Node.conditional p condition thenBlock elseBlock).unplaced, rest) := by
  obtain ⟨tail, htail⟩ := statementTokens_block hbegins
  have hcondition (more : List Token) :
      (comparison left).run (enclose (.atLeast 2) condition condition.tokens ++
        (thenBlock.statementTokens ++ more)) =
      .ok (condition.unplaced, thenBlock.statementTokens ++ more) := by
    apply run_comparison (isRead_of_isExpression h) hnest hroom
    rw [htail]
    exact stopsAt_cons (by decide)
  simp only [statementTokens, List.cons_append, List.append_assoc]
  cases elseBlock with
  | none =>
    have hnone : (rest.head?.any fun t => t.kind = .keyword && t.isOneOf ["else"]) = false := by
      cases rest with
      | nil => rfl
      | cons t rest => exact hrest t rfl
    have hbranch := hthen rest
    simp [elseTokens, conditional, hcondition, hbranch, hnone, unplaced, unplacedSome]
  | some n =>
    have hbranch := hthen (keyword "else" :: (n.statementTokens ++ rest))
    have hother := helse n rfl rest
    have hword : (keyword "else").isOneOf ["else"] := by decide
    simp [elseTokens, conditional, hcondition, hbranch, hword, hother, unplaced, unplacedSome]

theorem readsWhole_arm {p : Place} {label body : Node} (h : label.IsExpression l)
    (hbody : ReadsPrimary block body.statementTokens body.unplaced)
    (hnest : label.levels .nesting ≤ left) (hroom : label.levels .room < Machine.room) :
    ReadsWhole (Begins .rightBrace) (arm left block) (armTokens [.arm p label body])
      (Node.arm p label body).unplaced := by
  have hread := isRead_of_isExpression h
  obtain ⟨t, tail, htokens, hplace, hkind⟩ := hread.starts
  have hword : t.kind ≠ .keyword := by
    intro hcontra
    simp [hcontra] at hkind
  constructor
  · refine ⟨t, _, by simp [armTokens, htokens]; rfl, ?_, ?_, by simp [hword]⟩
    · intro hcontra
      simp [hcontra] at hkind
    · intro hcontra
      simp [hcontra] at hkind
  · intro rest _
    have hlabel := run_expression hread hnest hroom
      (colon :: (body.statementTokens ++ semicolon :: rest)) (stopsAt_cons (by decide))
    have hblock := hbody (semicolon :: rest)
    simp only [htokens, List.cons_append] at hlabel
    simp [armTokens, htokens, arm, Grammar.label, hword, hlabel, hblock, hplace, unplaced]

omit [Machine] in
theorem armTokens_eq_flatten (arms : List Node) :
    armTokens arms = (arms.map fun n => armTokens [n]).flatten := by
  induction arms with
  | nil => rfl
  | cons n ns ih => cases n <;> simp [armTokens, ← ih]

omit [Machine] in
theorem armLevels_cons (cost : Cost) (n : Node) (ns : List Node) :
    armLevels cost (n :: ns) = max (armLevels cost [n]) (armLevels cost ns) := by
  cases n <;> simp [armLevels, Nat.max_assoc]

theorem run_cases {p : Place} {scrutinee : Node} {arms : List Node}
    (h : scrutinee.IsExpression l) (hnest : scrutinee.levels .nesting ≤ left)
    (hroom : scrutinee.levels .room < Machine.room)
    (harms : List.Forall₂ (ReadsWhole (Begins .rightBrace) (arm left block))
      (arms.map fun n => armTokens [n]) (unplacedAll arms)) (rest : List Token) :
    (cases left block).run (statementTokens (.cases p scrutinee (.list arms)) ++ rest) =
      .ok ((Node.cases p scrutinee (.list arms)).unplaced, rest) := by
  have hvalue := run_expression (isRead_of_isExpression h) hnest hroom
    (keyword "of" :: openBrace :: (armTokens arms ++ closeBrace :: semicolon :: rest))
    (stopsAt_cons (by decide))
  have hloop := loop_upTo harms (t := closeBrace) (by decide) (by decide) (semicolon :: rest)
  rw [← armTokens_eq_flatten] at hloop
  simp [statementTokens, cases, hvalue, hloop, unplaced, unplacedItems]

omit [Machine] in
theorem parameterLevels_cons (cost : Cost) (n : Node) (ns : List Node) :
    parameterLevels cost (n :: ns) = max (parameterLevels cost [n]) (parameterLevels cost ns) := by
  cases n <;> simp [parameterLevels]

theorem readsItem_parameters {ps : List Node} (h : ∀ n ∈ ps, n.IsPart l .parameter)
    (hnest : parameterLevels .nesting ps ≤ left) (hroom : parameterLevels .room ps < Machine.room) :
    List.Forall₂ (ReadsItem .rightParen (parameter left)) (ps.map parameterTokens)
      (unplacedAll ps) := by
  induction ps with
  | nil => exact .nil
  | cons n ns ih =>
    rw [parameterLevels_cons] at hnest hroom
    simp only [List.mem_cons, forall_eq_or_imp] at h
    exact .cons (readsItem_parameter h.1 (by omega) (by omega)) (ih h.2 (by omega) (by omega))

theorem run_function {p : Place} {s : String} {ps : List Node} {result : Option Node}
    {body : Node} (hps : ∀ n ∈ ps, n.IsPart l .parameter) (hresult : ∀ n ∈ result, n.IsExpression l)
    (hbegins : body.IsPart l .block)
    (hbody : ReadsPrimary block body.statementTokens body.unplaced)
    (hnest : max (parameterLevels .nesting ps) (levelsSome (.atLeast 2) .nesting result) ≤ left)
    (hroom : max (parameterLevels .room ps) (levelsSome (.atLeast 2) .room result) < Machine.room)
    (rest : List Token) :
    (function left block).run
        (statementTokens (.function p (.str s) (.list ps) result body) ++ rest) =
      .ok ((Node.function p (.str s) (.list ps) result body).unplaced, rest) := by
  have hitems : List.Forall₂ (ReadsItem .rightParen (parameter left)) _ _ :=
    readsItem_parameters hps (by omega) (by omega)
  have hloop := loop_separated (by decide) kind_closeParen hitems
    (typeTokens result ++ (body.statementTokens ++ rest))
  obtain ⟨tail, htail⟩ := statementTokens_block hbegins
  have htype : ( annotation? left).run (typeTokens result ++ (body.statementTokens ++ rest)) =
      .ok (unplacedSome result, body.statementTokens ++ rest) := by
    rw [htail]
    exact run_typeTokens hresult (by omega) (by omega) (by decide) (by decide) _
  have hblock := hbody rest
  simp [statementTokens, function, hloop, htype, hblock, unplaced, unplacedItems]

end

variable [Machine]

-- What is read of each part of a program, by its kind.
def IsReadAs : Part → Node → Prop
  | .parameter, _ => True
  | .block, n => ∀ left, n.statementLevels .nesting ≤ left →
    n.statementLevels .room < Machine.room →
    ReadsPrimary (block left) n.statementTokens n.unplaced
  | .arm, n => ∀ left, armLevels .nesting [n] ≤ left → armLevels .room [n] < Machine.room →
    ReadsWhole (Begins .rightBrace) (arm left (block left)) (armTokens [n]) n.unplaced
  | .statement, n => ∀ left, n.statementLevels .nesting ≤ left →
    n.statementLevels .room < Machine.room →
    ReadsWhole (Begins .rightBrace) (statement left) n.statementTokens n.unplaced

omit [Machine] in
theorem sequenceTokens_eq_flatten (ss : List Node) :
    sequenceTokens ss = (ss.map statementTokens).flatten := by
  induction ss with
  | nil => rfl
  | cons n ns ih => simp [sequenceTokens, ih]

theorem readsWhole_statements {ss : List Node} (h : ∀ n ∈ ss, IsReadAs .statement n) {left : Nat}
    (hnest : sequenceLevels .nesting ss ≤ left) (hroom : sequenceLevels .room ss < Machine.room) :
    List.Forall₂ (ReadsWhole (Begins .rightBrace) (statement left)) (ss.map statementTokens)
      (unplacedAll ss) := by
  induction ss with
  | nil => exact .nil
  | cons n ns ih =>
    simp only [sequenceLevels] at hnest hroom
    simp only [List.mem_cons, forall_eq_or_imp] at h
    exact .cons (h.1 left (by omega) (by omega)) (ih h.2 (by omega) (by omega))

theorem readsWhole_arms {arms : List Node} (h : ∀ n ∈ arms, IsReadAs .arm n) {left : Nat}
    (hnest : armLevels .nesting arms ≤ left) (hroom : armLevels .room arms < Machine.room) :
    List.Forall₂ (ReadsWhole (Begins .rightBrace) (arm left (block left)))
      (arms.map fun n => armTokens [n]) (unplacedAll arms) := by
  induction arms with
  | nil => exact .nil
  | cons n ns ih =>
    rw [armLevels_cons] at hnest hroom
    simp only [List.mem_cons, forall_eq_or_imp] at h
    exact .cons (h.1 left (by omega) (by omega)) (ih h.2 (by omega) (by omega))

theorem isReadAs_block {p : Place} {ss : List Node} (h : ∀ n ∈ ss, IsReadAs .statement n) :
    IsReadAs .block (.block p (.list ss)) := by
  intro left hnest hroom rest
  simp only [statementLevels, Cost.block_nesting, Cost.block_room, Nat.add_zero] at hnest hroom
  obtain ⟨left, rfl⟩ : ∃ n, left = n + 1 := ⟨left - 1, by omega⟩
  have hnone : NoElse (closeBrace :: rest) := by
    intro t ht
    simp only [List.head?_cons, Option.mem_some_iff] at ht
    rw [← ht]
    decide
  have hstatements : List.Forall₂ (ReadsWhole (Begins .rightBrace) (statement left)) _ _ :=
    readsWhole_statements h (by omega) hroom
  have hgo (t : Token) (ht : t.kind ≠ .rightBrace) : closes (some t) = false := by
    simpa [closes] using ht
  have hdone : closes (closeBrace :: rest).head? = true := rfl
  have hloop := loop_sequence hstatements hgo hdone hnone
  rw [← sequenceTokens_eq_flatten] at hloop
  simp only [statement] at hloop
  simp [statementTokens, block, hloop, unplaced, unplacedItems]

omit [Machine] in
theorem statementTokens_of_isExpression {l : Leaves} {e : Node} (h : e.IsExpression l) :
    e.statementTokens = e.tokens ++ [semicolon] := by
  cases h <;> rfl

omit [Machine] in
theorem statementLevels_of_isExpression {l : Leaves} {e : Node} (h : e.IsExpression l)
    (cost : Cost) : e.statementLevels cost = e.levels cost := by
  cases h <;> rfl

theorem isReadAs_expression {l : Leaves} {e : Node} (h : e.IsExpression l) :
    IsReadAs .statement e := by
  intro left hnest hroom
  rw [statementLevels_of_isExpression h] at hnest hroom
  rw [statementTokens_of_isExpression h]
  have hread := isRead_of_isExpression h
  obtain ⟨t, tail, htokens, -, hkind⟩ := hread.starts
  have hbegins : t.kind ≠ .rightBrace ∧ t.kind ≠ .semicolon ∧ t.kind ≠ .keyword ∧
      t.kind ≠ .leftBrace := by
    refine ⟨?_, ?_, ?_, ?_⟩ <;> intro hcontra <;> simp [hcontra] at hkind
  obtain ⟨hbrace, hsemicolon, hkeyword, hopen⟩ := hbegins
  constructor
  · refine ⟨t, tail ++ [semicolon], by simp [htokens], hbrace, hsemicolon, by simp [hkeyword]⟩
  · intro rest _
    have hrun := run_evaluation hread hnest hroom rest
    simp only [htokens, List.cons_append, List.append_assoc, List.nil_append] at hrun ⊢
    simp only [statement, statementOver, StateT.run_bind, run_peek, bind_ok, List.head?_cons]
    exact hrun

theorem isReadAs_ofBlock {l : Leaves} {n : Node} (hblock : n.IsPart l .block)
    (h : IsReadAs .block n) : IsReadAs .statement n := by
  intro left hnest hroom
  obtain ⟨tail, htail⟩ := statementTokens_block hblock
  refine ⟨⟨openBrace, tail, htail, by decide, by decide, by decide⟩, ?_⟩
  intro rest _
  have hrun := h left hnest hroom rest
  rw [htail, List.cons_append] at hrun ⊢
  simp [statement, statementOver, hrun]

-- The first word of a statement says which one it is.

section Words

variable (left : Nat) (ts : List Token)

theorem run_statement_let :
    (statement left).run (keyword "let" :: ts) = (declaration left).run (keyword "let" :: ts) := by
  simp [statement, statementOver]

theorem run_statement_if :
    (statement left).run (keyword "if" :: ts) =
      (conditional left (block left)).run (keyword "if" :: ts) := by
  simp [statement, statementOver]

theorem run_statement_case :
    (statement left).run (keyword "case" :: ts) =
      (cases left (block left)).run (keyword "case" :: ts) := by
  simp [statement, statementOver]

theorem run_statement_func :
    (statement left).run (keyword "func" :: ts) =
      (function left (block left)).run (keyword "func" :: ts) := by
  simp [statement, statementOver]

end Words

-- Every part of a program is read as it was written, without its places.
theorem isReadAs_of_isPart {l : Leaves} {part : Part} {n : Node} (h : n.IsPart l part) :
    IsReadAs part n := by
  induction h with
  | parameter => trivial
  | block _ _ ih => exact isReadAs_block ih
  | arm _ hlabel _ ih =>
    intro left hnest hroom
    simp only [armLevels, Nat.max_zero] at hnest hroom
    exact readsWhole_arm hlabel (ih left (by omega) (by omega)) (by omega) (by omega)
  | declare _ hbound htarget hvalue =>
    intro left hnest hroom
    refine ⟨⟨keyword "let", _, rfl, by decide, by decide, by decide⟩, ?_⟩
    intro rest _
    exact (run_statement_let left _).trans
      (run_declaration htarget hbound hvalue hnest hroom rest)
  | function _ _ hps hresult hbody _ ih =>
    intro left hnest hroom
    simp only [statementLevels, ← Nat.max_assoc, Nat.max_le, Nat.max_lt] at hnest hroom
    refine ⟨⟨keyword "func", _, rfl, by decide, by decide, by decide⟩, ?_⟩
    intro rest _
    exact (run_statement_func left _).trans
      (run_function hps hresult hbody (ih left hnest.2 hroom.2) (Nat.max_le.2 hnest.1)
        (Nat.max_lt.2 hroom.1) rest)
  | @conditional p a b c _ hcondition hthen _ ihthen ihelse =>
    intro left hnest hroom
    simp only [statementLevels, Nat.max_le, Nat.max_lt] at hnest hroom
    refine ⟨⟨keyword "if", _, rfl, by decide, by decide, by decide⟩, ?_⟩
    intro rest hrest
    have helse (n : Node) (hn : n ∈ c) :
        ReadsPrimary (block left) n.statementTokens n.unplaced := by
      obtain rfl : c = some n := hn
      exact ihelse n rfl left hnest.2.2 hroom.2.2
    exact (run_statement_if left _).trans
      (run_conditional hcondition hthen (ihthen left hnest.2.1 hroom.2.1) helse hnest.1 hroom.1
        hrest)
  | cases _ hscrutinee _ ih =>
    intro left hnest hroom
    simp only [statementLevels, Nat.max_le, Nat.max_lt] at hnest hroom
    refine ⟨⟨keyword "case", _, rfl, by decide, by decide, by decide⟩, ?_⟩
    intro rest _
    exact (run_statement_case left _).trans
      (run_cases hscrutinee hnest.1 hroom.1 (readsWhole_arms ih hnest.2 hroom.2) rest)
  | ofBlock hblock ih => exact isReadAs_ofBlock hblock ih
  | ofExpression h => exact isReadAs_expression h

end TernLang.Grammar
