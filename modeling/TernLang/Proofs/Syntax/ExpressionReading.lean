import TernLang.Proofs.Syntax.PrimaryRun

-- Written expressions are read as they were.

namespace TernLang.Node

open Grammar Render

-- An expression begins with a token that begins an operand.
def Starts (ts : List Token) : Prop := ∃ t tail, ts = t :: tail ∧ t.StartsOperand

theorem starts_cons {t : Token} (ts : List Token) (h : t.StartsOperand) : Starts (t :: ts) :=
  ⟨t, ts, rfl, h⟩

theorem Starts.append {ts : List Token} (h : Starts ts) (us : List Token) : Starts (ts ++ us) := by
  obtain ⟨t, tail, rfl, ht⟩ := h
  exact starts_cons (tail ++ us) ht

theorem startsOperand_openParen : openParen.StartsOperand := by
  constructor <;> decide

theorem starts_enclose (here : Slot) (n : Node) {ts : List Token} (h : Starts ts) :
    Starts (enclose here n ts) := by
  unfold enclose
  split
  · exact starts_cons _ startsOperand_openParen
  · exact h

theorem starts_literal {v t : Tree} (h : IsLiteral v t) : Starts (Render.literal v) := by
  cases h <;> exact starts_cons _ ⟨rfl, by simp⟩

mutual

-- What can be bound does not depend on the places.
theorem isTarget_unplaced : ∀ n : Node, n.unplaced.isTarget = n.isTarget
  | tuple _ (.list es) => by
    simp only [unplaced, unplacedItems, isTarget, areTargets_unplaced es]
  | program .. | block .. | literal .. | array .. | tuple _ (.other _) | ident .. | compare ..
  | binary .. | unary .. | assign .. | member .. | index .. | convert .. | call .. | declare ..
  | parameter .. | function .. | conditional .. | arm .. | cases .. | stray .. => rfl

theorem areTargets_unplaced : ∀ ns : List Node, areTargets (unplacedAll ns) = areTargets ns
  | [] => rfl
  | n :: ns => by
    simp only [unplacedAll, areTargets, isTarget_unplaced n, areTargets_unplaced ns]

end

theorem isMember_unplaced (n : Node) : n.unplaced.isMember = n.isMember := by
  cases n <;> rfl

theorem tightness_of_isTarget {n : Node} (h : n.isTarget) : n.tightness = 6 := by
  cases n with
  | ident => rfl
  | tuple => rfl
  | _ => simp [isTarget] at h

theorem tightness_le (n : Node) : n.tightness ≤ 6 := by
  cases n with
  | binary p op a b =>
    simp only [tightness]
    split <;> omega
  | _ => simp [tightness]

-- An expression is read by every level that has room for what stands inside it.
structure IsRead (e : Node) : Prop where
  starts : Starts e.tokens
  reads (m k left : Nat) (hnest : e.levels .nesting ≤ left) (hroom : e.levels .room < k)
    (hinner : e.levels .room ≤ m) :
    Reads ((parsers m).expression left) ((parsers k).primary left) e.tightness e.tokens e.unplaced
  -- After a point, one conversion is read along with the name.
  property (k left : Nat) (hnest : e.levels .nesting ≤ left) (hroom : e.levels .room < k)
    (h : e.isProperty) {rest : List Token} (hrest : NoConversion rest) :
    (conversion ((parsers k).primary left)).run (e.tokens ++ rest) = .ok (e.unplaced, rest)

section

variable {e : Node}

-- A property that is no conversion is read as every name is.
theorem IsRead.of_reads (hstarts : Starts e.tokens)
    (hproperty : e.isProperty → e.tightness = 6)
    (h : ∀ m k left : Nat, e.levels .nesting ≤ left → e.levels .room < k →
      e.levels .room ≤ m → Reads ((parsers m).expression left) ((parsers k).primary left)
        e.tightness e.tokens e.unplaced) : IsRead e where
  starts := hstarts
  reads := h
  property k left hnest hroom hprop rest hrest := by
    have hreads := h _ k left hnest hroom (Nat.le_refl _)
    exact conversion_none (hreads.toPrimary (Nat.le_of_eq (hproperty hprop).symm) rest) hrest

-- As it stands inside brackets.
theorem IsRead.expression (h : IsRead e) (m left : Nat) (hnest : e.levels .nesting ≤ left)
    (hroom : e.levels .room < m) :
    ReadsUpTo ((parsers m).expression left) 1 e.tokens e.unplaced := by
  obtain ⟨m, rfl⟩ : ∃ n, m = n + 1 := ⟨m - 1, by omega⟩
  exact (h.reads m (m + 1) left hnest hroom (by omega)).toAssignment

theorem IsRead.parens (h : IsRead e) {k left : Nat} (hnest : e.levels .nesting + 1 ≤ left)
    (hroom : e.levels .room + 1 < k) :
    ReadsPrimary ((parsers k).primary left) (Render.parens e.tokens) e.unplaced := by
  obtain ⟨k, rfl⟩ : ∃ n, k = n + 1 := ⟨k - 1, by omega⟩
  obtain ⟨left, rfl⟩ : ∃ n, left = n + 1 := ⟨left - 1, by omega⟩
  exact readsPrimary_parens h.starts (h.expression k left (by omega) (by omega))

-- An expression that has been put in parentheses where it is too loose.
theorem IsRead.enclosed (h : IsRead e) (tightness m k left : Nat) (hle : tightness ≤ 6)
    (hnest : encloseLevels (.atLeast tightness) e (e.levels .nesting) ≤ left)
    (hroom : encloseLevels (.atLeast tightness) e (e.levels .room) < k)
    (hinner : encloseLevels (.atLeast tightness) e (e.levels .room) ≤ m) :
    ∃ found, tightness ≤ found ∧
      Reads ((parsers m).expression left) ((parsers k).primary left) found
        (enclose (.atLeast tightness) e e.tokens) e.unplaced := by
  unfold encloseLevels at hnest hroom hinner
  unfold enclose
  by_cases hopen : e.isOpen (.atLeast tightness)
  · simp only [hopen, ite_true] at hnest hroom hinner ⊢
    exact ⟨6, hle, .primary (h.parens hnest hroom)⟩
  · simp only [hopen] at hnest hroom hinner ⊢
    refine ⟨e.tightness, ?_, h.reads m k left hnest hroom hinner⟩
    simpa [isOpen] using hopen

-- The name after a point.
theorem IsRead.enclosed_property (h : IsRead e) (k left : Nat)
    (hnest : encloseLevels .property e (e.levels .nesting) ≤ left)
    (hroom : encloseLevels .property e (e.levels .room) < k) {rest : List Token}
    (hrest : NoConversion rest) :
    (conversion ((parsers k).primary left)).run (enclose .property e e.tokens ++ rest) =
      .ok (e.unplaced, rest) := by
  unfold encloseLevels at hnest hroom
  unfold enclose
  by_cases hopen : e.isOpen .property
  · simp only [hopen, ite_true] at hnest hroom ⊢
    exact conversion_none (h.parens hnest hroom rest) hrest
  · simp only [hopen] at hnest hroom ⊢
    apply h.property k left hnest hroom _ hrest
    simpa [isOpen] using hopen

-- Each item of a written list is read.
theorem readsItem_tokensAll {close : Token.Kind}
    (hclose : close = .rightParen ∨ close = .rightBracket) {es : List Node}
    (h : ∀ e ∈ es, IsRead e) (m left : Nat) (hnest : levelsAll .nesting es ≤ left)
    (hroom : levelsAll .room es < m) :
    List.Forall₂ (ReadsItem close ((parsers m).expression left)) (tokensAll es)
      (unplacedAll es) := by
  induction es with
  | nil => exact .nil
  | cons e es ih =>
    simp only [levelsAll] at hnest hroom
    simp only [List.mem_cons, forall_eq_or_imp] at h
    refine .cons ⟨?_, ?_⟩ (ih h.2 (by omega) (by omega))
    · obtain ⟨t, tail, htokens, -, hkind⟩ := h.1.starts
      refine ⟨t, tail, htokens, ?_⟩
      rintro rfl
      rcases hclose with hclose | hclose <;> simp [hclose] at hkind
    · intro t rest ht
      apply h.1.expression m left (by omega) (by omega)
      have hgrip : t.grip = 0 := by
        apply grip_eq_zero
        rcases hclose with rfl | rfl <;> tauto
      exact stopsAt_cons (by omega)

end

theorem unplacedAll_ne_nil {es : List Node} (h : es ≠ []) : unplacedAll es ≠ [] := by
  cases es with
  | nil => exact absurd rfl h
  | cons e es => simp [unplacedAll]

-- What each kind of expression needs of its parts, from loose to tight.

section Operators

variable {p : Place} {a b : Node}

theorem isRead_assign (hbound : a.isTarget) (ha : IsRead a) (hb : IsRead b) :
    IsRead (.assign p a b) := by
  apply IsRead.of_reads (ha.starts.append _)
  · simp [isProperty, tightness]
  · intro m k left hnest hroom hinner
    simp only [levels, Cost.inner_nesting, Cost.inner_room] at hnest hroom hinner
    have hsix := tightness_of_isTarget hbound
    refine .assignment fun rest hrest => ?_
    have htarget := (ha.reads m k left (by omega) (by omega) (by omega)).toRelation
      (by omega) (equals :: (b.tokens ++ rest)) (stopsAt_cons (by decide))
    have hvalue := hb.expression m left (by omega) (by omega) rest hrest
    have hkind : equals.kind = .assign := by decide
    obtain ⟨t, tail, htokens, hplace, -⟩ := ha.starts
    simp only [tokens, htokens, List.append_assoc, List.cons_append] at htarget ⊢
    simp [Grammar.assignment, htarget, hkind, isTarget_unplaced, hbound, hvalue, hplace, unplaced]

theorem isRead_compare (c : Comparison) (ha : IsRead a) (hb : IsRead b) :
    IsRead (.compare p (.str c.symbol) a b) := by
  apply IsRead.of_reads ((starts_enclose _ _ ha.starts).append _)
  · simp [isProperty, tightness]
  · intro m k left hnest hroom hinner
    simp only [levels] at hnest hroom hinner
    obtain ⟨_, hale, hleft⟩ := ha.enclosed 2 m k left (by decide) (by omega) (by omega) (by omega)
    obtain ⟨_, hble, hright⟩ := hb.enclosed 3 m k left (by decide) (by omega) (by omega) (by omega)
    have hop : isRelation (named (comparisonKind (.str c.symbol)) (.str c.symbol)) := by
      cases c <;> decide
    exact .relation ((hleft.toRelationChain hale).operator hop (grip_of_isRelation hop)
      (hright.toSum hble))

theorem isRead_sum (c : Arithmetic) (hsum : isSumOperator (.str c.symbol)) (ha : IsRead a)
    (hb : IsRead b) : IsRead (.binary p (.str c.symbol) a b) := by
  have hop : isSum (named .operator (.str c.symbol)) ∧
      (named .operator (.str c.symbol)).grip = 3 := by
    revert hsum
    cases c <;> decide
  apply IsRead.of_reads ((starts_enclose _ _ ha.starts).append _)
  · simp [isProperty, tightness, hsum]
  · intro m k left hnest hroom hinner
    simp only [levels, hsum, ite_true] at hnest hroom hinner
    obtain ⟨_, hale, hleft⟩ := ha.enclosed 3 m k left (by decide) (by omega) (by omega) (by omega)
    obtain ⟨_, hble, hright⟩ := hb.enclosed (3 + 1) m k left (by decide) (by omega) (by omega)
      (by omega)
    simp only [tightness, tokens, hsum, ite_true]
    exact .sum ((hleft.toSumChain hale).operator hop.1 hop.2 (hright.toProduct hble))

theorem isRead_product (c : Arithmetic) (hsum : isSumOperator (.str c.symbol) = false)
    (ha : IsRead a) (hb : IsRead b) : IsRead (.binary p (.str c.symbol) a b) := by
  have hop : isProduct (named .operator (.str c.symbol)) := by
    revert hsum
    cases c <;> decide
  apply IsRead.of_reads ((starts_enclose _ _ ha.starts).append _)
  · simp [isProperty, tightness, hsum]
  · intro m k left hnest hroom hinner
    simp only [levels, hsum, Bool.false_eq_true, ite_false] at hnest hroom hinner
    obtain ⟨_, hale, hleft⟩ := ha.enclosed 4 m k left (by decide) (by omega) (by omega) (by omega)
    obtain ⟨_, hble, hright⟩ := hb.enclosed (4 + 1) m k left (by decide) (by omega) (by omega)
      (by omega)
    simp only [tightness, tokens, hsum]
    exact .product ((hleft.toProductChain hale).operator hop (grip_of_isProduct hop)
      (hright.toPostfix hble).operand)

end Operators

-- What follows an operand.

section Postfixes

variable {p : Place} {a b : Node}

theorem isRead_member (ha : IsRead a) (hb : IsRead b) : IsRead (.member p a b) := by
  apply IsRead.of_reads ((starts_enclose _ _ ha.starts).append _)
  · simp [isProperty, tightness]
  · intro m k left hnest hroom hinner
    simp only [levels] at hnest hroom hinner
    obtain ⟨_, hale, htarget⟩ := ha.enclosed 5 m k left (by decide) (by omega) (by omega)
      (by omega)
    refine .postfixes fun rest hrest => ?_
    have hproperty := hb.enclosed_property k left (by omega) (by omega) (hrest rfl)
    apply ReadsRounds.step (htarget.toPostfix hale _ (noConversion_cons _ (by decide))) (by simp)
    exact fun n => postfixes_member rfl hproperty n _

theorem isRead_index (ha : IsRead a) (hb : IsRead b) : IsRead (.index p a b) := by
  apply IsRead.of_reads (((starts_enclose _ _ ha.starts).append _).append _)
  · simp [isProperty, tightness]
  · intro m k left hnest hroom hinner
    simp only [levels, Cost.inner_nesting, Cost.inner_room] at hnest hroom hinner
    obtain ⟨_, hale, htarget⟩ := ha.enclosed 5 m k left (by decide) (by omega) (by omega)
      (by omega)
    refine .postfixes fun rest hrest => ?_
    have hindex := hb.expression m left (by omega) (by omega) (closeBracket :: rest)
      (stopsAt_cons (by decide))
    simp only [tokens, List.append_assoc]
    apply ReadsRounds.step (htarget.toPostfix hale _ (noConversion_cons _ (by decide))) (by simp)
    intro n
    simp only [List.cons_append, List.append_assoc, List.nil_append]
    exact postfixes_index rfl rfl hindex n _

theorem isRead_call {args : List Node} (ha : IsRead a) (hargs : ∀ e ∈ args, IsRead e) :
    IsRead (.call p a (.list args)) := by
  apply IsRead.of_reads (((starts_enclose _ _ ha.starts).append _).append _)
  · simp [isProperty, tightness]
  · intro m k left hnest hroom hinner
    simp only [levels, Cost.inner_nesting, Cost.inner_room] at hnest hroom hinner
    obtain ⟨_, hale, htarget⟩ := ha.enclosed 5 m k left (by decide) (by omega) (by omega)
      (by omega)
    refine .postfixes fun rest hrest => ?_
    have hitems := readsItem_tokensAll (.inl rfl) hargs m left (by omega) (by omega)
    have hloop := loop_separated (by decide) (t := closeParen) rfl hitems rest
    simp only [tokens, List.append_assoc]
    apply ReadsRounds.step (htarget.toPostfix hale _ (noConversion_cons _ (by decide))) (by simp)
    intro n
    simp only [List.cons_append, List.append_assoc, List.nil_append]
    exact postfixes_call rfl rfl hloop n _

-- The first conversion after a name is read along with it, and every later one after that.
theorem isRead_convert (ha : IsRead a) (hb : IsRead b) : IsRead (.convert p a b) where
  starts := (starts_enclose _ _ ha.starts).append _
  reads m k left hnest hroom hinner := by
    simp only [levels] at hnest hroom hinner
    obtain ⟨_, hble, hright⟩ := hb.enclosed 6 m k left (by decide) (by omega) (by omega)
      (by omega)
    have htype := hright.toPrimary hble
    refine .postfixes fun rest hrest => ?_
    have hfirst (us : List Token) (h : ReadsPrimary ((parsers k).primary left) us a.unplaced) :
        ReadsRounds (conversion ((parsers k).primary left))
          (postfixes ((parsers m).expression left) ((parsers k).primary left))
          (us ++ keyword "as" :: enclose (.atLeast 6) b b.tokens) rest
          (.convert .unknown a.unplaced b.unplaced) := by
      apply ReadsRounds.none
      rw [List.append_assoc]
      exact conversion_some (h _) rfl (by decide) (htype rest)
    have hnest' : encloseLevels .converted a (a.levels .nesting) ≤ left := by omega
    have hroom' : encloseLevels .converted a (a.levels .room) < k := by omega
    have hinner' : encloseLevels .converted a (a.levels .room) ≤ m := by omega
    simp only [tokens, unplaced]
    unfold encloseLevels at hnest' hroom' hinner'
    unfold enclose
    by_cases hopen : a.isOpen .converted
    · simp only [hopen, ite_true] at hnest' hroom' hinner' ⊢
      exact hfirst _ (ha.parens hnest' hroom')
    · simp only [hopen] at hnest' hroom' hinner' ⊢
      have hvalue := ha.reads m k left hnest' hroom' hinner'
      simp only [isOpen, Bool.or_eq_true, decide_eq_true_eq, not_or] at hopen
      have hle := tightness_le a
      rcases Nat.lt_or_ge a.tightness 6 with hlt | hge
      · have hfive : a.tightness = 5 := by omega
        rw [hfive] at hvalue
        cases hvalue with
        | postfixes h =>
          apply ReadsRounds.step (h _ _) (by simp)
          · exact fun n => postfixes_convert rfl (by decide) (htype rest) n _
          · intro hmember
            rw [isMember_unplaced] at hmember
            exact absurd hmember hopen.2
      · exact hfirst _ (hvalue.toPrimary hge)
  property k left hnest hroom hprop rest hrest := by
    simp only [isProperty, Bool.and_eq_true, decide_eq_true_eq] at hprop
    have hvalueClosed : a.isOpen .converted = false := by
      have hmember : a.isMember = false := by
        cases a <;> simp_all [isMember, tightness]
      simp [isOpen, hprop.1, hmember]
    have htypeClosed : b.isOpen (.atLeast 6) = false := by
      simp [isOpen, hprop.2]
    simp only [levels, encloseLevels, hvalueClosed, htypeClosed, Bool.false_eq_true, ite_false]
      at hnest hroom
    have hvalue := (ha.reads _ k left (by omega) (by omega) (Nat.le_refl _)).toPrimary
      (Nat.le_of_eq hprop.1.symm)
    have htype := (hb.reads _ k left (by omega) (by omega) (Nat.le_refl _)).toPrimary
      (Nat.le_of_eq hprop.2.symm)
    simp only [tokens, enclose, hvalueClosed, htypeClosed, List.append_assoc]
    exact conversion_some (hvalue _) rfl (by decide) (htype rest)

end Postfixes

-- What is never taken apart.

section Primaries

variable {p : Place}

-- All of these have a level of their own, which the parser for the tightest expressions takes off.
theorem IsRead.of_primary {e : Node} (hstarts : Starts e.tokens) (hsix : e.tightness = 6)
    (h : ∀ k left, e.levels .nesting ≤ left → e.levels .room ≤ k →
      ReadsPrimary (primary (parsers k) left) e.tokens e.unplaced) : IsRead e := by
  apply IsRead.of_reads hstarts (fun _ => hsix)
  intro m k left hnest hroom hinner
  obtain ⟨k, rfl⟩ : ∃ n, k = n + 1 := ⟨k - 1, by omega⟩
  rw [hsix]
  exact .primary (h k left hnest (by omega))

theorem isRead_literal {v t : Tree} (h : IsLiteral v t) : IsRead (.literal p v t) := by
  refine IsRead.of_primary (starts_literal h) rfl fun k left hnest hroom => ?_
  cases h with
  | integer n low high => exact readsPrimary_integer low high
  | real x cs text value =>
    apply readsPrimary_real
    apply Reading.isNonnegative_of_isRealText text
    simp only [realOf, String.toList_ofList] at value
    split at value
    · rename_i y hy
      rw [hy, Except.ok.inj value]
    · exact absurd value (by simp)
  | string s => exact readsPrimary_string s
  | null =>
    have hpos : 1 ≤ left := hnest
    obtain ⟨left, rfl⟩ : ∃ n, left = n + 1 := ⟨left - 1, by omega⟩
    exact readsPrimary_null

theorem isRead_ident (s : String) : IsRead (.ident p (.str s)) := by
  refine IsRead.of_primary (starts_cons _ ⟨rfl, by simp⟩) rfl fun k left _ _ => ?_
  exact readsPrimary_ident (.str s)

theorem isRead_array {es : List Node} (hes : ∀ e ∈ es, IsRead e) :
    IsRead (.array p (.list es)) := by
  refine IsRead.of_primary (starts_cons _ ⟨rfl, by simp⟩) rfl fun k left hnest hroom => ?_
  simp only [levels] at hnest hroom
  obtain ⟨left, rfl⟩ : ∃ n, left = n + 1 := ⟨left - 1, by omega⟩
  exact readsPrimary_array (readsItem_tokensAll (.inr rfl) hes k left (by omega) (by omega))

theorem isRead_tuple {es : List Node} (hne : es ≠ []) (hes : ∀ e ∈ es, IsRead e) :
    IsRead (.tuple p (.list es)) := by
  refine IsRead.of_primary (starts_cons _ startsOperand_openParen) rfl fun k left hnest hroom => ?_
  simp only [levels] at hnest hroom
  obtain ⟨left, rfl⟩ : ∃ n, left = n + 1 := ⟨left - 1, by omega⟩
  exact readsPrimary_tuple (readsItem_tokensAll (.inl rfl) hes k left (by omega) (by omega))
    (unplacedAll_ne_nil hne)

theorem isRead_unary {s : String} {a : Node} (hs : s ∈ signs) (ha : IsRead a) :
    IsRead (.unary p (.str s) a) := by
  have hstarts : Starts (Node.unary p (.str s) a).tokens := by
    refine starts_cons _ ⟨rfl, ?_⟩
    simp only [kind_named, signKind]
    split <;> simp
  refine IsRead.of_primary hstarts rfl fun k left hnest hroom => ?_
  simp only [levels] at hnest hroom
  obtain ⟨left, rfl⟩ : ∃ n, left = n + 1 := ⟨left - 1, by omega⟩
  obtain ⟨_, hle, hoperand⟩ := ha.enclosed 6 _ k left (by decide) (by omega) (by omega)
    (Nat.le_refl _)
  exact readsPrimary_unary hs (hoperand.toPrimary hle)

end Primaries

-- Every expression is read as it was written, without its places.
theorem isRead_of_isExpression {l : Leaves} {e : Node} (h : e.IsExpression l) : IsRead e := by
  induction h with
  | literal _ h => exact isRead_literal h
  | ident => exact isRead_ident _
  | array _ _ ih => exact isRead_array ih
  | tuple _ hne _ ih => exact isRead_tuple hne ih
  | compare c _ _ _ iha ihb => exact isRead_compare c iha ihb
  | binary c _ _ _ iha ihb =>
    cases hsum : isSumOperator (.str c.symbol) with
    | true => exact isRead_sum c hsum iha ihb
    | false => exact isRead_product c hsum iha ihb
  | unary _ hs _ ih => exact isRead_unary hs ih
  | assign _ hbound _ _ iha ihb => exact isRead_assign hbound iha ihb
  | member _ _ _ iha ihb => exact isRead_member iha ihb
  | index _ _ _ iha ihb => exact isRead_index iha ihb
  | convert _ _ _ iha ihb => exact isRead_convert iha ihb
  | call _ _ _ ihf ihargs => exact isRead_call ihf ihargs

end TernLang.Node
