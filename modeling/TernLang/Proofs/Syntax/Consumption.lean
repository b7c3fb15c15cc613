import TernLang.Proofs.Syntax.Lockstep

-- The rules that move a position do what the grammar says, and every one that reads a part of a
-- program takes a token. So they come to an end on every list of tokens.

namespace TernLang

namespace Cursor

open Grammar (Refusal)

section Expressions

variable {k l m n left : Nat}

theorem meets_chain {isOp : Token → Bool} {make : Token → Node → Node → Node}
    (hop : ∀ t : Token, t.kind = .endOfInput → isOp t = false)
    {g : Grammar.Parse Node} {c d : Parse Node} (h : Meets k left true g c d)
    (hl : k ≤ l) (hm : k ≤ m) (hn : k ≤ n) (node : Node) :
    Meets k left false (Grammar.chain isOp make g l node) (chain isOp make c m node)
      (chain isOp make d n node) := by
  induction k generalizing l m n node with
  | zero => exact .zero
  | succ k ih =>
    obtain ⟨l, rfl⟩ := exists_succ hl
    obtain ⟨m, rfl⟩ := exists_succ hm
    obtain ⟨n, rfl⟩ := exists_succ hn
    intro r s hrs
    refine at_peek hrs.alike (fun t ts hthere => ?_) fun _ t ht _ => ?_
    · by_cases hisOp : isOp t
      · simp only [hisOp, if_true]
        have hright := h.mono (Nat.le_succ k)
        exact at_advance hrs hthere (hright.weaken.followed fun right =>
          ih hright (by omega) (by omega) (by omega) (make t node right))
      · simp only [hisOp]
        exact Meets.pure node _ _ hrs
    · simp only [hop t ht]
      exact Meets.pure node _ _ hrs

theorem meets_leftAssociative {isOp : Token → Bool} {make : Token → Node → Node → Node}
    (hop : ∀ t : Token, t.kind = .endOfInput → isOp t = false)
    {g : Grammar.Parse Node} {c d : Parse Node} (h : Meets (k + 1) left true g c d)
    (hm : k ≤ m) (hn : k ≤ n) :
    Meets (k + 1) left true (Grammar.leftAssociative isOp make g) (leftAssociative isOp make c m)
      (leftAssociative isOp make d n) :=
  h.andThen fun first => meets_loop fun k' hk' =>
    meets_chain hop (h.mono (by omega)) (Nat.le_refl k') (by omega) (by omega) first

theorem meets_conversion {g : Grammar.Parse Node} {c d : Parse Node}
    (h : Meets k left true g c d) :
    Meets k left true (Grammar.conversion g) (conversion c) (conversion d) := by
  cases k with
  | zero => exact .zero
  | succ k =>
    refine h.andThen fun value r s hrs => at_look ?_
    cases hahead : r.ahead with
    | nil => exact at_noWord hrs.alike hahead (Meets.pure value _ _ hrs)
    | cons t ts =>
      refine at_nextIsWord hrs.alike (fun u us hthere => ?_) (Meets.pure value _ _ hrs)
      obtain ⟨rfl, rfl⟩ := List.cons.inj (hahead.symm.trans hthere)
      cases k with
      | zero => exact absurd hrs.short (Nat.not_lt_zero _)
      | succ k =>
        exact at_advance hrs hthere ((h.mono (by omega)).weaken.followed
          fun type => .pure (Node.convert t.place value type))

theorem meets_postfixes {ge gp : Grammar.Parse Node} {ce cp de dp : Parse Node}
    (he : Meets k left true ge ce de) (hp : Meets k left true gp cp dp)
    (hl : k ≤ l) (hm : k ≤ m) (hn : k ≤ n) (node : Node) :
    Meets k left false (Grammar.postfixes ge gp l node) (postfixes ce cp m node)
      (postfixes de dp n node) := by
  induction k generalizing l m n node with
  | zero => exact .zero
  | succ k ih =>
    obtain ⟨l, rfl⟩ := exists_succ hl
    obtain ⟨m, rfl⟩ := exists_succ hm
    obtain ⟨n, rfl⟩ := exists_succ hn
    have he' := he.mono (Nat.le_succ k)
    have hp' := hp.mono (Nat.le_succ k)
    have hmore (node : Node) : Meets k left false (Grammar.postfixes ge gp l node)
        (postfixes ce cp m node) (postfixes de dp n node) :=
      ih he' hp' (by omega) (by omega) (by omega) node
    intro r s hrs
    have hstop : At false r s (pure node) (pure node) (pure node) := Meets.pure node _ _ hrs
    refine at_peek hrs.alike (fun t ts hthere => ?_) fun _ t ht _ => ?_
    · simp only
      cases hkind : t.kind with
      | dot =>
        exact at_advance hrs hthere ((meets_conversion hp').weaken.followed
          fun property => hmore (.member t.place node property))
      | leftBracket =>
        exact at_advance hrs hthere (he'.weaken.followed fun index =>
          (meets_expect (by decide)).discarded (hmore (.index t.place node index)))
      | leftParen =>
        simp only [arguments, bind_assoc, pure_bind]
        have hargs : Meets k left false _ (separated .rightParen ce m)
            (separated .rightParen de n) :=
          meets_items .rightParen (by decide) he' (by omega) (by omega)
        exact at_expected hrs hthere hkind (hargs.followed fun args =>
          (meets_expect (by decide)).discarded (hmore (.call t.place node (.list args))))
      | keyword =>
        by_cases hword : t.isOneOf ["as", "to"]
        · simp only [hword, if_true]
          exact at_advance hrs hthere (hp'.weaken.followed
            fun type => hmore (.convert t.place node type))
        · simp only [hword]
          exact hstop
      | _ => exact hstop
    · simp only [ht]
      exact hstop

-- The arguments of a call, as a parser of the grammar.
def argumentList (expression : Grammar.Parse Node) : Grammar.Parse (List Node) := do
  let _ ← Grammar.Parse.expect .leftParen
  let args ← Grammar.Parse.loop (Grammar.Parse.separated .rightParen expression)
  discard <| Grammar.Parse.expect .rightParen
  pure args

theorem meets_arguments {g : Grammar.Parse Node} {c d : Parse Node} (h : Meets k left true g c d)
    (hm : k ≤ m) (hn : k ≤ n) :
    Meets k left true (argumentList g) (arguments c m) (arguments d n) :=
  (meets_expect (by decide)).begun fun _ =>
    (meets_items .rightParen (by decide) h hm hn).followed
      fun args => meets_closed .rightParen (by decide) args

section Levels

variable {ge gp : Grammar.Parse Node} {ce cp de dp : Parse Node}
variable (he : Meets k left true ge ce de) (hp : Meets (k + 1) left true gp cp dp)
variable (hm : k ≤ m) (hn : k ≤ n)

include he hp hm hn

theorem meets_operand : Meets (k + 1) left true (Grammar.operand ge gp) (operand ce cp m)
    (operand de dp n) :=
  (meets_conversion hp).andThen fun first => meets_loop fun k' hk' =>
    meets_postfixes (he.mono hk') (hp.mono (by omega)) (Nat.le_refl k') (by omega) (by omega) first

theorem meets_product : Meets (k + 1) left true (Grammar.product ge gp) (product ce cp m)
    (product de dp n) :=
  meets_leftAssociative (fun t ht => by simp [Grammar.isProduct, ht])
    (meets_operand he hp hm hn) hm hn

theorem meets_sum : Meets (k + 1) left true (Grammar.sum ge gp) (sum ce cp m) (sum de dp n) :=
  meets_leftAssociative (fun t ht => by simp [Grammar.isSum, ht])
    (meets_product he hp hm hn) hm hn

theorem meets_relation : Meets (k + 1) left true (Grammar.relation ge gp) (relation ce cp m)
    (relation de dp n) :=
  meets_leftAssociative (fun t ht => by simp [Grammar.isRelation, ht, Token.Kind.isRelational])
    (meets_sum he hp hm hn) hm hn

theorem meets_assignment : Meets (k + 1) left true (Grammar.assignment ge gp)
    (assignment ce cp m) (assignment de dp n) := by
  intro r s hrs
  have hrelation := meets_relation he hp hm hn r s hrs
  refine at_peek hrs.alike (fun t ts hthere => ?_) fun hend t _ _ => hrelation.atEnd hend _ _ _
  refine hrelation.andThen hrs fun left r s hrs => ?_
  refine at_nextIs hrs.alike (by decide) (fun u us hthere _ => ?_) (Meets.pure left _ _ hrs)
  by_cases htarget : left.isTarget
  · simp only [htarget, if_true]
    cases k with
    | zero => exact absurd hrs.short (Nat.not_lt_zero _)
    | succ k =>
      exact at_advance hrs hthere ((he.mono (Nat.le_succ k)).weaken.followed
        fun value => .pure (Node.assign t.place left value))
  · simp only [htarget]
    exact at_refuse hrs.alike rfl rfl

end Levels

-- A literal is refused as too large, or its token as no number.
theorem integerLiteral_error {t : Token} (hkind : t.kind = .integer) {refusal : Refusal}
    (h : Grammar.integerLiteral t = .error refusal) :
    (∃ f, refusal = .fault f ∧ Unreadable f t) ∨
      ∃ cause, refusal = .error cause (some t) ∧ cause.cls = .parse := by
  unfold Grammar.integerLiteral at h
  split at h
  · split at h
    · cases h
    · obtain rfl := Except.error.inj h
      exact .inr ⟨_, rfl, rfl⟩
  · rename_i f hread
    obtain rfl := Except.error.inj h
    exact .inl ⟨f, rfl, .inl ⟨hkind, hread⟩⟩

theorem realLiteral_error {t : Token} (hkind : t.kind = .real) {refusal : Refusal}
    (h : Grammar.realLiteral t = .error refusal) :
    (∃ f, refusal = .fault f ∧ Unreadable f t) ∨
      ∃ cause, refusal = .error cause (some t) ∧ cause.cls = .parse := by
  unfold Grammar.realLiteral at h
  split at h
  · cases h
  · rename_i f hread
    obtain rfl := Except.error.inj h
    exact .inl ⟨f, rfl, .inr ⟨hkind, hread⟩⟩

section Brackets

theorem meets_elements {g : Grammar.Parse Node} {c d : Parse Node} (h : Meets k left true g c d)
    (hl : k ≤ l) (hm : k ≤ m) (hn : k ≤ n) :
    Meets k left false (Grammar.elements g l) (elements c m) (elements d n) := by
  induction k generalizing l m n with
  | zero => exact .zero
  | succ k ih =>
    obtain ⟨l, rfl⟩ := exists_succ hl
    obtain ⟨m, rfl⟩ := exists_succ hm
    obtain ⟨n, rfl⟩ := exists_succ hn
    intro r s hrs
    refine at_nextIs hrs.alike (by decide) (fun _ _ _ _ => Meets.pure [] _ _ hrs) ?_
    refine (h r s hrs).andThen hrs fun first r s hrs => ?_
    refine at_nextIs hrs.alike (by decide) (fun t ts hthere _ => ?_) (Meets.pure [first] _ _ hrs)
    have hrest : Meets k left false (Grammar.elements g l) (elements c m) (elements d n) :=
      ih (h.mono (Nat.le_succ k)) (by omega) (by omega) (by omega)
    exact at_advance (hrs.mono (Nat.le_succ k)) hthere
      (hrest.followed fun rest => .pure (first :: rest))

theorem meets_moreElements {g : Grammar.Parse Node} {c d : Parse Node}
    (h : Meets k left true g c d) (hl : k ≤ l) (hm : k ≤ m) (hn : k ≤ n) :
    Meets k left false (Grammar.moreElements g l) (moreElements c m) (moreElements d n) := by
  induction k generalizing l m n with
  | zero => exact .zero
  | succ k ih =>
    obtain ⟨l, rfl⟩ := exists_succ hl
    obtain ⟨m, rfl⟩ := exists_succ hm
    obtain ⟨n, rfl⟩ := exists_succ hn
    have hfirst := h.mono (Nat.le_succ k)
    intro r s hrs
    refine at_nextIs hrs.alike (by decide) (fun t ts hthere _ => ?_) (Meets.pure [] _ _ hrs)
    refine at_advance hrs hthere fun r s hrs => ?_
    refine at_nextIs hrs.alike (by decide) (fun _ _ _ _ => Meets.pure [] _ _ hrs) ?_
    exact (hfirst.weaken.followed fun first =>
      (ih hfirst (by omega) (by omega) (by omega)).followed fun rest => .pure (first :: rest))
        r s hrs

theorem meets_parenthesized {g : Grammar.Parse Node} {c d : Parse Node}
    (h : Meets k left true g c d) (hm : k ≤ m) (hn : k ≤ n) (place : Place) :
    Meets k left false (Grammar.parenthesized g place) (parenthesized c place m)
      (parenthesized d place n) := by
  intro r s hrs
  refine at_nextIs hrs.alike (by decide) (fun t ts hthere _ => ?_) ?_
  · exact at_advance (hrs.mono (Nat.le_succ k)) hthere
      (.pure (Node.literal place .null (.str "Null")))
  · have hclose (node : Node) : Meets k left false _ _ _ :=
      meets_closed .rightParen (by decide) node
    refine (h.weaken.followed fun first r s hrs => ?_) r s hrs
    refine at_nextIs hrs.alike (by decide) (fun t ts _ _ => ?_) (hclose first r s hrs)
    have hrest : Meets k left false _ (moreElements c m) (moreElements d n) :=
      meets_loop fun k' hk' =>
        meets_moreElements (h.mono hk') (Nat.le_refl k') (by omega) (by omega)
    simp only [if_true, pure_bind]
    exact (hrest.followed fun rest => hclose (.tuple place (.list (first :: rest)))) r s hrs

variable {sub : Grammar.Parsers} {ce cp de dp : Parse Node}
variable (he : ∀ left, Meets k left true (sub.expression left) ce de)
variable (hp : ∀ left, Meets k left true (sub.primary left) cp dp)
variable (hm : k ≤ m) (hn : k ≤ n)

include he hp hm hn

theorem at_nested {r s : Cursor} {t : Token} {ts : List Token} (hrs : Within (k + 1) left r s)
    (hthere : r.ahead = t :: ts) :
    At true r s (Grammar.Parse.advance >>= fun _ => Grammar.nested sub t left)
      (Cursor.within t (nested ce cp t m)) (Cursor.within t (nested de dp t n)) := by
  refine at_within hrs (fun hfull => ?_) fun left' hleft hopen => ?_
  · subst hfull
    rfl
  · subst hleft
    refine at_advance hopen hthere ?_
    unfold Grammar.nested
    cases t.kind with
    | leftBracket =>
      have hitems : Meets k left' false _ (elements ce m) (elements de n) :=
        meets_loop fun k' hk' =>
          meets_elements ((he left').mono hk') (Nat.le_refl k') (by omega) (by omega)
      exact hitems.followed fun items => (meets_expect (by decide)).discarded
        (.pure (Node.array t.place (.list items)))
    | leftParen => exact meets_parenthesized (he left') hm hn t.place
    | _ =>
      exact (hp left').weaken.followed fun value => .pure (Node.unary t.place t.text value)

theorem meets_primaryOver : Meets (k + 1) left true (Grammar.primary sub left)
    (primaryOver ce cp m) (primaryOver de dp n) := by
  intro r s hrs
  refine at_peek hrs.alike (fun t ts hthere => ?_) fun _ t ht hfinal => ?_
  · have hnested := at_nested he hp hm hn hrs hthere
    simp only
    cases hkind : t.kind with
    | ident => exact at_advance hrs hthere (.pure (Node.ident t.place t.text))
    | integer => exact at_literal hrs hthere fun _ => integerLiteral_error hkind
    | real => exact at_literal hrs hthere fun _ => realLiteral_error hkind
    | string =>
      exact at_advance hrs hthere (.pure (Node.literal t.place t.text (.str "String")))
    | not => exact hnested
    | leftBracket => exact hnested
    | leftParen => exact hnested
    | operator =>
      by_cases hsum : Grammar.isSum t
      · simp only [hsum, if_true]
        exact hnested
      · simp only [hsum]
        exact at_refuse hrs.alike rfl rfl
    | endOfInput => exact absurd hkind (getElem?_of_ahead hthere).2.1
    | _ => exact at_refuse hrs.alike rfl rfl
  · simp only [ht]
    exact at_refuse hrs.alike rfl (hfinal ▸ rfl)

end Brackets

-- A parser without room may be put in the place of any other.
theorem meets_noRoom {g : Grammar.Parse Node} {c d : Parse Node} (h : Meets k left true g c d) :
    Meets k left true (Grammar.noRoom.expression left) c d := fun r s hrs =>
  Ends.overflow (h r s hrs)

-- However deep expressions may stand inside each other, as long as there are rounds for all tokens.
theorem meets_parsers (room : Nat) (hm : k ≤ m) (hn : k ≤ n) (left : Nat) :
    Meets k left true ((Grammar.parsers room).expression left) (expression m) (expression n) ∧
      Meets k left true ((Grammar.parsers room).primary left) (primary m) (primary n) := by
  induction k generalizing m n room left with
  | zero => exact ⟨.zero, .zero⟩
  | succ k ih =>
    obtain ⟨m, rfl⟩ := exists_succ hm
    obtain ⟨n, rfl⟩ := exists_succ hn
    have hmk : k ≤ m := by omega
    have hnk : k ≤ n := by omega
    have houter (inner : Nat) :
        Meets (k + 1) left true (Grammar.primary (Grammar.parsers inner) left)
          (primary (m + 1)) (primary (n + 1)) :=
      meets_primaryOver (fun left => (ih inner hmk hnk left).1)
        (fun left => (ih inner hmk hnk left).2) hmk hnk
    have hwhole (inner : Nat) :
        Meets (k + 1) left true ((Grammar.parsers (inner + 1)).expression left)
          (expression (m + 1)) (expression (n + 1)) :=
      meets_assignment (ih inner hmk hnk left).1 (houter inner) hmk hnk
    cases room with
    | zero => exact ⟨meets_noRoom (hwhole 0), meets_noRoom (houter 0)⟩
    | succ inner => exact ⟨hwhole inner, houter inner⟩

end Expressions

section Statements

variable [Machine] {k l m n : Nat} (left : Nat)

section Parts

variable (hm : k ≤ m) (hn : k ≤ n)

include hm hn

theorem meets_expression :
    Meets k left true (Grammar.expression left) (expression m) (expression n) :=
  (meets_parsers Machine.room hm hn left).1

theorem meets_bracketed : Meets k left true (Grammar.bracketed left) (primary m) (primary n) :=
  (meets_parsers Machine.room hm hn left).2

theorem meets_comparison :
    Meets k left true (Grammar.comparison left) (comparison m) (comparison n) := by
  cases k with
  | zero => exact .zero
  | succ k =>
    exact meets_relation ((meets_expression left hm hn).mono (Nat.le_succ k))
      (meets_bracketed left hm hn) (by omega) (by omega)

theorem meets_declared : Meets k left true (Grammar.declared left) (declared m) (declared n) := by
  intro r s hrs
  refine at_peek hrs.alike (fun t ts hthere => ?_) fun _ t ht hfinal => ?_
  · simp only [seen?_of_ahead hthere]
    cases hkind : t.kind with
    | ident =>
      exact at_advance (hrs.mono (Nat.le_succ k)) hthere (.pure (Node.ident t.place t.text))
    | leftParen =>
      refine (meets_bracketed left hm hn).begun (fun target r s hrs => ?_) r s hrs
      by_cases htarget : target.isTarget
      · simp only [htarget, if_true]
        exact Meets.pure target r s hrs
      · simp only [htarget]
        exact at_refuse hrs.alike rfl rfl
    | _ => exact at_refuse hrs.alike rfl rfl
  · simp only [seen?_of_end ht, ht]
    exact at_refuse hrs.alike rfl (hfinal ▸ rfl)

theorem meets_declaration :
    Meets k left true (Grammar.declaration left) (declaration m) (declaration n) := by
  refine (meets_expectWord "let").begun fun start =>
    (meets_declared left hm hn).weaken.followed fun target r s hrs => ?_
  have hend (value : Option Node) : Meets k left false _ _ _ :=
    meets_closed .semicolon (by decide) (Node.declare start.place target value)
  refine at_nextIs hrs.alike (by decide) (fun t ts hthere _ => ?_) (hend none r s hrs)
  have hvalue := (meets_expression left hm hn).map (f := some)
  exact at_advance (hrs.mono (Nat.le_succ k)) hthere (hvalue.weaken.followed hend)

theorem meets_annotation? :
    Meets k left false (Grammar.annotation? left) (annotation? m) (annotation? n) := by
  intro r s hrs
  refine at_nextIs hrs.alike (by decide) (fun t ts hthere _ => ?_) (Meets.pure none r s hrs)
  exact at_advance (hrs.mono (Nat.le_succ k)) hthere (meets_comparison left hm hn).map.weaken

theorem meets_parameter :
    Meets k left true (Grammar.parameter left) (parameter m) (parameter n) := by
  intro r s hrs
  refine at_peek hrs.alike (fun t ts hthere => ?_) fun _ t ht hfinal => ?_
  · simp only [seen?_of_ahead hthere]
    by_cases hkind : t.kind = .ident
    · simp only [hkind, if_true]
      exact at_advance (hrs.mono (Nat.le_succ k)) hthere ((meets_annotation? left hm hn).followed
        fun type => .pure (Node.parameter t.place t.text type))
    · simp only [hkind, if_false]
      exact at_refuse hrs.alike rfl rfl
  · have hkind : t.kind ≠ .ident := ht ▸ nofun
    simp only [seen?_of_end ht, hkind, if_false]
    exact at_refuse hrs.alike rfl (hfinal ▸ rfl)

theorem meets_evaluation :
    Meets k left true (Grammar.evaluation left) (evaluation m) (evaluation n) := by
  refine (meets_expression left hm hn).begun fun node r s hrs => ?_
  by_cases hassign : node.isAssign
  · simp only [hassign, if_true]
    exact meets_closed .semicolon (by decide) node r s hrs
  · simp only [hassign, Grammar.Parse.skip, bind_assoc]
    refine at_nextIs hrs.alike (by decide) (fun t ts hthere _ => ?_) (Meets.pure node r s hrs)
    exact at_advance (hrs.mono (Nat.le_succ k)) hthere (.pure node)

theorem at_label {r s : Cursor} {t : Token} (hrs : Within k left r s)
    (hstart : ∀ u us, r.ahead = u :: us → t = u) :
    At true r s (Grammar.label left) (label m t) (label n t) := by
  refine at_look (at_nextIsWord hrs.alike (fun u us hthere => ?_)
    (meets_expression left hm hn r s hrs))
  obtain rfl := hstart u us hthere
  rw [hthere]
  exact at_advance (hrs.mono (Nat.le_succ k)) hthere
    (.pure (Node.literal t.place .null (.str "Null")))

variable {gb : Grammar.Parse Node} {cb db : Parse Node} (hblock : Meets k left true gb cb db)

include hblock

theorem meets_conditional : Meets k left true (Grammar.conditional left gb) (conditional m cb)
    (conditional n db) := by
  refine (meets_expectWord "if").begun fun start =>
    (meets_comparison left hm hn).weaken.followed fun condition =>
      hblock.weaken.followed fun thenBlock r s hrs => ?_
  have hend (elseBlock : Option Node) : Meets k left false _ _ _ :=
    .pure (Node.conditional start.place condition thenBlock elseBlock)
  refine at_nextIsWord hrs.alike (fun t ts hthere => ?_) (hend none r s hrs)
  have helse := hblock.map (f := some)
  exact at_advance (hrs.mono (Nat.le_succ k)) hthere (helse.weaken.followed hend)

theorem meets_armOver : Meets k left true (Grammar.arm left gb) (armOver m cb) (armOver n db) := by
  intro r s hrs
  refine at_peek hrs.alike (fun t ts hthere => ?_) fun hend t _ _ => ?_
  · have hlabel := at_label left hm hn hrs fun u us hu => (List.cons.inj (hthere.symm.trans hu)).1
    exact hlabel.begun hrs fun label => (meets_expect (by decide)).discarded <|
      hblock.weaken.followed fun body => (meets_expect (by decide)).discarded <|
        .pure (Node.arm t.place label body)
  · exact (at_label left hm hn hrs fun u us hu => nomatch hend.symm.trans hu).atEnd hend _ _ _

theorem meets_cases : Meets k left true (Grammar.cases left gb) (cases m cb) (cases n db) := by
  have harm := meets_armOver left hm hn hblock
  have harms : Meets k left false (Grammar.Parse.loop (Grammar.Parse.upTo .rightBrace _))
      (upTo .rightBrace _ m) (upTo .rightBrace _ n) := meets_loop fun k' hk' =>
    meets_upTo (by decide) (harm.mono hk') (Nat.le_refl k') (by omega) (by omega)
  refine (meets_expectWord "case").begun fun start => ?_
  refine (meets_expression left hm hn).weaken.followed fun scrutinee => ?_
  refine (meets_expectWord "of").discarded <| (meets_expect (by decide)).discarded ?_
  exact harms.followed fun arms => (meets_expect (by decide)).discarded <|
    meets_closed .semicolon (by decide) (Node.cases start.place scrutinee (.list arms))

theorem meets_function : Meets k left true (Grammar.function left gb) (function m cb)
    (function n db) := by
  have hparameters := meets_items .rightParen (by decide) (meets_parameter left hm hn) hm hn
  refine (meets_expectWord "func").begun fun start => ?_
  refine (meets_expect (by decide)).weaken.followed fun name => ?_
  refine (meets_expect (by decide)).discarded <| hparameters.followed fun parameters => ?_
  refine (meets_expect (by decide)).discarded <|
    (meets_annotation? left hm hn).followed fun result => ?_
  exact hblock.weaken.followed fun body =>
    .pure (Node.function start.place name.text (.list parameters) result body)

theorem meets_statementOver : Meets k left true (Grammar.statementOver left gb)
    (statementOver m cb) (statementOver n db) := by
  intro r s hrs
  refine at_peek hrs.alike (fun t ts hthere => ?_) fun _ t ht _ => ?_
  · simp only
    cases t.kind with
    | keyword =>
      by_cases hlet : t.text = .str "let"
      · simp only [if_pos hlet]
        exact meets_declaration left hm hn r s hrs
      simp only [if_neg hlet]
      by_cases hif : t.text = .str "if"
      · simp only [if_pos hif]
        exact meets_conditional left hm hn hblock r s hrs
      simp only [if_neg hif]
      by_cases hcase : t.text = .str "case"
      · simp only [if_pos hcase]
        exact meets_cases left hm hn hblock r s hrs
      simp only [if_neg hcase]
      by_cases hfunc : t.text = .str "func"
      · simp only [if_pos hfunc]
        exact meets_function left hm hn hblock r s hrs
      · simp only [if_neg hfunc]
        exact at_refuse hrs.alike rfl rfl
    | leftBrace => exact hblock r s hrs
    | _ => exact meets_evaluation left hm hn r s hrs
  · simp only [ht]
    exact meets_evaluation left hm hn r s hrs

end Parts

-- Statements up to where both see the end of them.
omit [Machine] in
theorem meets_sequence {before : Option Token → Bool} {done : Token → Bool}
    (hthere : ∀ t : Token, t.kind ≠ .endOfInput → before (some t) = done t)
    (hend : ∀ t : Token, t.kind = .endOfInput → before none = done t)
    {g : Grammar.Parse Node} {c d : Parse Node} (h : Meets k left true g c d)
    (hl : k ≤ l) (hm : k ≤ m) (hn : k ≤ n) :
    Meets k left false (Grammar.sequence before g l) (sequence done c m) (sequence done d n) := by
  induction k generalizing l m n with
  | zero => exact .zero
  | succ k ih =>
    obtain ⟨l, rfl⟩ := exists_succ hl
    obtain ⟨m, rfl⟩ := exists_succ hm
    obtain ⟨n, rfl⟩ := exists_succ hn
    have hmore : Meets k left false (Grammar.sequence before g l) (sequence done c m)
        (sequence done d n) := ih (h.mono (Nat.le_succ k)) (by omega) (by omega) (by omega)
    intro r s hrs
    have hstop : At false r s _ _ _ := Meets.pure ([] : List Node) r s hrs
    have hitem : At false r s _ _ _ := (h r s hrs).andThen hrs fun first =>
      hmore.followed fun rest => .pure (first :: rest)
    refine at_peek hrs.alike (fun t ts hnext => ?_) fun _ t ht _ => ?_
    · rw [hthere t (getElem?_of_ahead hnext).2.1]
      cases done t with
      | true => exact hstop
      | false =>
        exact at_nextIs hrs.alike (by decide) (fun u us hu _ => at_advance hrs hu hmore) hitem
    · rw [hend t ht]
      cases done t with
      | true => exact hstop
      | false =>
        exact at_nextIs hrs.alike (by decide) (fun u us hu _ => at_advance hrs hu hmore) hitem

omit [Machine] in
theorem meets_statements (before : Option Token → Bool) (done : Token → Bool)
    (hthere : ∀ t : Token, t.kind ≠ .endOfInput → before (some t) = done t)
    (hend : ∀ t : Token, t.kind = .endOfInput → before none = done t)
    {g : Grammar.Parse Node} {c d : Parse Node} (h : Meets k left true g c d)
    (hm : k ≤ m) (hn : k ≤ n) :
    Meets k left false (Grammar.Parse.loop (Grammar.sequence before g)) (sequence done c m)
      (sequence done d n) :=
  meets_loop fun k' hk' => meets_sequence left hthere hend (h.mono hk') (Nat.le_refl k')
    (Nat.le_trans hk' hm) (Nat.le_trans hk' hn)

-- What follows the brace that opens a block, and the brace that closes it.
def blockBody (start : Token) : Nat → Grammar.Parse (List Node)
  | 0 => Grammar.Parse.refuse (.tooNested Grammar.maxNesting) (some start)
  | left + 1 => do
    let body ← Grammar.Parse.loop
      (Grammar.sequence Grammar.closes (Grammar.statementOver left (Grammar.block left)))
    discard <| Grammar.Parse.expect .rightBrace
    pure body

theorem block_eq : Grammar.block left = (do
    let start ← Grammar.Parse.expect .leftBrace
    let body ← blockBody start left
    pure (.block start.place (.list body))) := by
  cases left with
  | zero => rfl
  | succ left => simp [Grammar.block, blockBody]

theorem meets_block (hm : k ≤ m) (hn : k ≤ n) :
    Meets k left true (Grammar.block left) (block m) (block n) := by
  induction k generalizing left m n with
  | zero => exact .zero
  | succ k ih =>
    obtain ⟨m, rfl⟩ := exists_succ hm
    obtain ⟨n, rfl⟩ := exists_succ hn
    rw [block_eq]
    refine (meets_expect (by decide)).andThen fun start r s hrs =>
      At.followed hrs (?_ : At false r s _ _ _)
        fun body => .pure (Node.block start.place (.list body))
    refine at_within hrs (fun hfull => ?_) fun left' hleft hopen => ?_
    · subst hfull
      rfl
    · subst hleft
      have hmk : k ≤ m := by omega
      have hnk : k ≤ n := by omega
      have hstatement := meets_statementOver left' hmk hnk (ih left' hmk hnk)
      have hbody := meets_statements left' Grammar.closes (·.kind = .rightBrace) (fun _ _ => rfl)
        (fun t ht => by simp [Grammar.closes, ht]) hstatement hmk hnk
      exact hbody.followed (fun body => meets_closed .rightBrace (by decide) body) _ _ hopen

section Whole

variable (hm : k ≤ m) (hn : k ≤ n)

include hm hn

theorem meets_statement :
    Meets k left true (Grammar.statement left) (statement m) (statement n) :=
  meets_statementOver left hm hn (meets_block left hm hn)

theorem meets_program :
    Meets k Grammar.maxNesting false Grammar.program (program m) (program n) := by
  have hbody := meets_statements Grammar.maxNesting Option.isNone (·.kind = .endOfInput)
    (fun t ht => by simp [ht]) (fun t ht => by simp [ht])
    (meets_statement Grammar.maxNesting hm hn) hm hn
  exact hbody.followed fun body => .pure (Node.program .start (.list body))

-- Every rule does what some parser of the grammar does, and takes a token.
theorem meets_rule {α : Type} (rule : Rule α) :
    ∃ g : Grammar.Parse α, Meets k left true g (rule.parse m) (rule.parse n) := by
  cases k with
  | zero => exact ⟨Grammar.Parse.refuse .unexpectedEnd none, .zero⟩
  | succ k =>
    have hmk : k ≤ m := by omega
    have hnk : k ≤ n := by omega
    have he := (meets_expression left hm hn).mono (Nat.le_succ k)
    have hp := meets_bracketed left hm hn
    have hblock := meets_block left hm hn
    cases rule with
    | statement => exact ⟨_, meets_statement left hm hn⟩
    | block => exact ⟨_, hblock⟩
    | declaration => exact ⟨_, meets_declaration left hm hn⟩
    | conditional => exact ⟨_, meets_conditional left hm hn hblock⟩
    | cases => exact ⟨_, meets_cases left hm hn hblock⟩
    | arm => exact ⟨_, meets_armOver left hm hn hblock⟩
    | function => exact ⟨_, meets_function left hm hn hblock⟩
    | expression => exact ⟨_, meets_expression left hm hn⟩
    | comparison => exact ⟨_, meets_comparison left hm hn⟩
    | sum => exact ⟨_, meets_sum he hp hmk hnk⟩
    | product => exact ⟨_, meets_product he hp hmk hnk⟩
    | operand => exact ⟨_, meets_operand he hp hmk hnk⟩
    | arguments => exact ⟨_, meets_arguments (meets_expression left hm hn) hm hn⟩
    | conversion => exact ⟨_, meets_conversion hp⟩
    | primary => exact ⟨_, hp⟩

end Whole

end Statements

end Cursor

end TernLang
