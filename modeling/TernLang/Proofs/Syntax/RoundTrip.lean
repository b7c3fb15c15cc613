import TernLang.Proofs.Syntax.StatementReading

-- Parsing undoes writing: the tokens of a program, with parentheses only where the grammar needs
-- them, are read as that program.

namespace TernLang.Node

open Grammar Parse Render

-- None of the tokens marks the end of the input.
def IsWithin (ts : List Token) : Prop := ∀ t ∈ ts, t.kind ≠ .endOfInput

@[simp]
theorem isWithin_nil : IsWithin [] := by simp [IsWithin]

@[simp]
theorem isWithin_cons {t : Token} {ts : List Token} :
    IsWithin (t :: ts) ↔ t.kind ≠ .endOfInput ∧ IsWithin ts := by
  simp [IsWithin]

@[simp]
theorem isWithin_append {ts us : List Token} : IsWithin (ts ++ us) ↔ IsWithin ts ∧ IsWithin us := by
  simp [IsWithin, or_imp, forall_and]

@[simp]
theorem isWithin_enclose {here : Slot} {n : Node} {ts : List Token} :
    IsWithin (enclose here n ts) ↔ IsWithin ts := by
  unfold enclose
  split <;> simp [parens]

theorem isWithin_commas {items : List (List Token)} (h : ∀ ts ∈ items, IsWithin ts) :
    IsWithin (commas items) := by
  cases items with
  | nil => simp [commas]
  | cons ts items =>
    rw [commas_cons]
    simp only [List.mem_cons, forall_eq_or_imp] at h
    refine isWithin_append.2 ⟨h.1, ?_⟩
    intro t ht
    simp only [preceded, List.mem_flatMap, List.mem_cons] at ht
    obtain ⟨us, hus, rfl | hmem⟩ := ht
    · decide
    · exact h.2 us hus t hmem

theorem isWithin_tupleItems {items : List (List Token)} (h : ∀ ts ∈ items, IsWithin ts) :
    IsWithin (tupleItems items) := by
  unfold tupleItems
  split
  · simpa using h
  · exact isWithin_commas h

theorem tokensAll_eq_map (es : List Node) : tokensAll es = es.map tokens := by
  induction es with
  | nil => rfl
  | cons e es ih => simp [tokensAll, ih]

theorem isWithin_tokens {l : Leaves} {e : Node} (h : e.IsExpression l) : IsWithin e.tokens := by
  induction h with
  | literal _ h => cases h <;> simp [tokens, Render.literal]
  | ident => simp [tokens]
  | array _ _ ih =>
    have hitems := isWithin_commas (List.forall_mem_map.2 ih)
    simp [tokens, tokensAll_eq_map, hitems]
  | tuple _ _ _ ih =>
    have hitems := isWithin_tupleItems (List.forall_mem_map.2 ih)
    simp [tokens, tokensAll_eq_map, hitems]
  | compare c _ _ _ iha ihb =>
    have hkind : comparisonKind (.str c.symbol) ≠ .endOfInput := by
      cases c <;> decide
    simp [tokens, iha, ihb, hkind]
  | binary c _ _ _ iha ihb => simp [tokens, iha, ihb]
  | @unary p s a _ _ _ ih =>
    have hkind : signKind (.str s) ≠ .endOfInput := by
      unfold signKind
      split <;> simp
    simp [tokens, ih, hkind]
  | assign _ _ _ _ iha ihb => simp [tokens, iha, ihb]
  | member _ _ _ iha ihb =>
    have hdot : dot.kind ≠ .endOfInput := by decide
    simp [tokens, iha, ihb, hdot]
  | index _ _ _ iha ihb => simp [tokens, iha, ihb]
  | convert _ _ _ iha ihb => simp [tokens, iha, ihb]
  | call _ _ _ ihf ihargs =>
    have hitems := isWithin_commas (List.forall_mem_map.2 ihargs)
    simp [tokens, tokensAll_eq_map, ihf, hitems]

-- The tokens of a part of a program.
def partTokens : Part → Node → List Token
  | .parameter, n => parameterTokens n
  | .arm, n => armTokens [n]
  | .block, n | .statement, n => n.statementTokens

theorem isWithin_typeTokens {l : Leaves} {type : Option Node}
    (h : ∀ n ∈ type, n.IsExpression l) : IsWithin (typeTokens type) := by
  cases type with
  | none => simp [typeTokens]
  | some n => simp [typeTokens, isWithin_tokens (h n rfl)]

theorem isWithin_sequenceTokens {ss : List Node} (h : ∀ n ∈ ss, IsWithin n.statementTokens) :
    IsWithin (sequenceTokens ss) := by
  induction ss with
  | nil => simp [sequenceTokens]
  | cons n ns ih =>
    simp only [List.mem_cons, forall_eq_or_imp] at h
    simp [sequenceTokens, h.1, ih h.2]

theorem isWithin_armTokens {arms : List Node} (h : ∀ n ∈ arms, IsWithin (armTokens [n])) :
    IsWithin (armTokens arms) := by
  rw [armTokens_eq_flatten]
  intro t ht
  simp only [List.mem_flatten, List.mem_map] at ht
  obtain ⟨_, ⟨n, hn, rfl⟩, hmem⟩ := ht
  exact h n hn t hmem

theorem isWithin_partTokens {l : Leaves} {part : Part} {n : Node} (h : n.IsPart l part) :
    IsWithin (partTokens part n) := by
  induction h with
  | parameter _ _ htype => simp [partTokens, parameterTokens, isWithin_typeTokens htype]
  | block _ _ ih =>
    have hbody := isWithin_sequenceTokens ih
    simp [partTokens, statementTokens, hbody]
  | arm _ hlabel _ ih =>
    have hbody : IsWithin (statementTokens _) := ih
    simp [partTokens, armTokens, isWithin_tokens hlabel, hbody]
  | @declare p a v _ _ htarget hvalue =>
    have hinit : IsWithin (initializer v) := by
      cases v with
      | none => simp [initializer]
      | some n => simp [initializer, isWithin_tokens (hvalue n rfl)]
    simp [partTokens, statementTokens, isWithin_tokens htarget, hinit]
  | @function p s ps r b _ _ _ hresult _ ihps ihbody =>
    have hitems : IsWithin (commas (ps.map parameterTokens)) :=
      isWithin_commas (List.forall_mem_map.2 ihps)
    have hbody : IsWithin b.statementTokens := ihbody
    simp [partTokens, statementTokens, hitems, isWithin_typeTokens hresult, hbody]
  | @conditional p a b c _ hcondition _ _ ihthen ihelse =>
    have hthen : IsWithin b.statementTokens := ihthen
    have helse : IsWithin (elseTokens c) := by
      cases c with
      | none => simp [elseTokens]
      | some n =>
        have hn : IsWithin n.statementTokens := ihelse n rfl
        simp [elseTokens, hn]
    simp [partTokens, statementTokens, isWithin_tokens hcondition, hthen, helse]
  | cases _ hscrutinee _ ih =>
    have harms := isWithin_armTokens ih
    simp [partTokens, statementTokens, isWithin_tokens hscrutinee, harms]
  | ofBlock _ ih => exact ih
  | ofExpression h =>
    simp [partTokens, statementTokens_of_isExpression h, isWithin_tokens h]

mutual

-- Taking the places away again changes nothing.
theorem unplaced_unplaced : ∀ n : Node, n.unplaced.unplaced = n.unplaced
  | program _ ns | block _ ns | array _ ns | tuple _ ns => by
    simp only [unplaced, unplacedItems_unplacedItems ns]
  | compare _ _ a b | binary _ _ a b | assign _ a b | member _ a b | index _ a b | convert _ a b
  | arm _ a b => by
    simp only [unplaced, unplaced_unplaced a, unplaced_unplaced b]
  | unary _ _ a => by simp only [unplaced, unplaced_unplaced a]
  | call _ a ns | cases _ a ns => by
    simp only [unplaced, unplaced_unplaced a, unplacedItems_unplacedItems ns]
  | declare _ a b => by simp only [unplaced, unplaced_unplaced a, unplacedSome_unplacedSome b]
  | parameter _ _ a => by simp only [unplaced, unplacedSome_unplacedSome a]
  | function _ _ ns r b => by
    simp only [unplaced, unplacedItems_unplacedItems ns, unplacedSome_unplacedSome r,
      unplaced_unplaced b]
  | conditional _ a b c => by
    simp only [unplaced, unplaced_unplaced a, unplaced_unplaced b, unplacedSome_unplacedSome c]
  | literal .. | ident .. | stray _ => rfl

theorem unplacedItems_unplacedItems : ∀ ns : Items Node,
    unplacedItems (unplacedItems ns) = unplacedItems ns
  | .list ns => by simp only [unplacedItems, unplacedAll_unplacedAll ns]
  | .other _ => rfl

theorem unplacedAll_unplacedAll : ∀ ns : List Node,
    unplacedAll (unplacedAll ns) = unplacedAll ns
  | [] => rfl
  | n :: ns => by simp only [unplacedAll, unplaced_unplaced n, unplacedAll_unplacedAll ns]

theorem unplacedSome_unplacedSome : ∀ n : Option Node,
    unplacedSome (unplacedSome n) = unplacedSome n
  | none => rfl
  | some n => by simp only [unplacedSome, unplaced_unplaced n]

end

-- The end of the input is the token that is written for it.
theorem input_append_end {ts : List Token} (h : IsWithin ts) :
    (input (ts ++ [word .endOfInput ""])).1 = ts := by
  unfold input
  simp only []
  rw [List.takeWhile_append_of_pos]
  · simp
  · intro t ht
    simpa using h t ht

theorem run_program [Machine] {l : Leaves} {ss : List Node} (h : ∀ n ∈ ss, n.IsPart l .statement)
    (hnest : sequenceLevels .nesting ss ≤ maxNesting)
    (hroom : sequenceLevels .room ss < Machine.room) :
    Grammar.program.run (sequenceTokens ss) =
      .ok (.program .start (.list (unplacedAll ss)), []) := by
  have hstatements := readsWhole_statements (fun n hn => isReadAs_of_isPart (h n hn)) hnest hroom
  have hgo (t : Token) (_ : t.kind ≠ .rightBrace) : (some t).isNone = false := rfl
  have hdone : (([] : List Token).head?).isNone = true := rfl
  have hnone : NoElse [] := by
    intro t ht
    simp at ht
  have hloop := loop_sequence hstatements hgo hdone hnone
  rw [← sequenceTokens_eq_flatten, List.append_nil] at hloop
  simp [Grammar.program, hloop]

-- A well-formed program is read as it was written, up to places, where it keeps to the levels that
-- the grammar has room for.
theorem ofTokens_render [Machine] {n : Node} (h : n.IsProgram .any)
    (hnest : n.programLevels .nesting ≤ maxNesting) (hroom : n.programLevels .room < Machine.room) :
    (ofTokens n.render).map unplaced = .ok n.unplaced := by
  cases h with
  | @program p ss _ hss =>
    have hwithin : IsWithin (sequenceTokens ss) :=
      isWithin_sequenceTokens fun n hn => isWithin_partTokens (hss n hn)
    have hinput := input_append_end hwithin
    have hrun : Grammar.program (sequenceTokens ss) =
        .ok (.program .start (.list (unplacedAll ss)), []) := run_program hss hnest hroom
    have htokens : ofTokens (Node.program p (.list ss)).render =
        .ok (.program .start (.list (unplacedAll ss))) := by
      simp only [render, ofTokens, hinput, hrun]
    rw [htokens]
    simp [Except.map, unplaced, unplacedItems, unplacedAll_unplacedAll]

section

attribute [local instance] Machine.usual

-- `(a,) = 1 - (2 - (a.b as c));`
theorem ofTokens_render_assignment :
    let name (s : String) := Node.ident .unknown (.str s)
    let number (n : Int) := Node.literal .unknown (.int n) (.str "Integer")
    let value := binary .unknown (.str "-") (number 1)
      (binary .unknown (.str "-") (number 2)
        (convert .unknown (member .unknown (name "a") (name "b")) (name "c")))
    let n := program .start (.list [assign .unknown (tuple .unknown (.list [name "a"])) value])
    (ofTokens n.render).map unplaced = .ok n.unplaced := by
  intro name number value n
  have hname (s : String) : (name s).IsExpression .any := .ident trivial trivial
  have hnumber (i : Int) (hlow : 0 ≤ i) (hhigh : i ≤ Word.greatest) :
      (number i).IsExpression .any := .literal trivial (.integer i hlow hhigh)
  have hvalue : value.IsExpression .any :=
    .binary .sub trivial (hnumber 1 (by decide) (by decide))
      (.binary .sub trivial (hnumber 2 (by decide) (by decide))
        (.convert trivial (.member trivial (hname "a") (hname "b")) (hname "c")))
  have hprogram : n.IsProgram .any := by
    refine .program trivial ?_
    simp only [List.mem_singleton, forall_eq]
    refine .ofExpression (.assign trivial rfl (.tuple trivial (by simp) ?_) hvalue)
    simpa using hname "a"
  exact ofTokens_render hprogram (by decide) (by decide)

end

end TernLang.Node
