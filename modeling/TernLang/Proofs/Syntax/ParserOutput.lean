import TernLang.Proofs.Number.Reading
import TernLang.Proofs.Syntax.ParseRun

-- What the grammar makes of tokens: whatever its rules pass on from the parts of a node to the
-- whole holds of every tree that it gives, and what it refuses it refuses at one of the tokens.

namespace TernLang

namespace Token

-- The texts that tokens of a kind have.
def Kind.Allows (l : Node.Leaves) : Kind → String → Prop
  | .ident, s => l.name s
  | .integer, s => Reading.IsDigits s.toList
  | .real, s => Reading.IsRealText s.toList
  | .not, s => s = "!"
  | .less, s => s = "<"
  | .lessEqual, s => s = "<="
  | .greater, s => s = ">"
  | .greaterEqual, s => s = ">="
  | .equal, s => s = "=="
  | .notEqual, s => s = "!="
  | _, _ => True

-- A token as a source text has it.
structure Fits (l : Node.Leaves) (t : Token) : Prop where
  place : l.place t.place
  text : ∃ s, t.text = .str s ∧ t.kind.Allows l s

theorem Fits.text_of_kind {l : Node.Leaves} {t : Token} (h : t.Fits l) {kind : Kind}
    (hkind : t.kind = kind) : ∃ s, t.text = .str s ∧ kind.Allows l s :=
  hkind ▸ h.text

end Token

namespace Grammar

-- A refusal of the grammar at a token as a source text has it, or at the end. The only fault is
-- that of a number.
def Refusal.Fits (l : Node.Leaves) : Refusal → Prop
  | .error cause token => cause.cls = .parse ∧ ∀ t ∈ token, t.Fits l
  | .fault f => f = .unreadableNumber

namespace Parse

variable {α β : Type} {l : Node.Leaves} {P : α → Prop} {Q : β → Prop}

-- How a parser ends: with something that `P` holds of and tokens that fit, or with a refusal at a
-- token that fits.
inductive IsSound (l : Node.Leaves) (P : α → Prop) : Except Refusal (α × List Token) → Prop where
  | ok {a : α} {rest : List Token} (value : P a) (tokens : ∀ t ∈ rest, t.Fits l) :
    IsSound l P (.ok (a, rest))
  | error {r : Refusal} (refusal : r.Fits l) : IsSound l P (.error r)

-- A parser ends so on every list of tokens that fit.
def Gives (l : Node.Leaves) (P : α → Prop) (m : Parse α) : Prop :=
  ∀ ts, (∀ t ∈ ts, t.Fits l) → IsSound l P (m.run ts)

namespace Gives

theorem pure {a : α} (h : P a) : Gives l P (Pure.pure a) := fun _ hts => .ok h hts

theorem bind {m : Parse α} {f : α → Parse β} (hm : Gives l P m)
    (hf : ∀ a, P a → Gives l Q (f a)) : Gives l Q (m >>= f) := by
  intro ts hts
  have hfirst := hm ts hts
  rw [StateT.run_bind]
  generalize m.run ts = first at hfirst ⊢
  cases hfirst with
  | ok value tokens => exact hf _ value _ tokens
  | error refusal => exact .error refusal

theorem mono {P' : α → Prop} {m : Parse α} (h : Gives l P m) (himp : ∀ a, P a → P' a) :
    Gives l P' m := by
  intro ts hts
  have hend := h ts hts
  generalize m.run ts = x at hend ⊢
  cases hend with
  | ok value tokens => exact .ok (himp _ value) tokens
  | error refusal => exact .error refusal

-- An optional part that is there.
theorem someOf {m : Parse α} (h : Gives l P m) :
    Gives l (fun o => ∀ a ∈ o, P a) (some <$> m) := by
  rw [map_eq_pure_bind]
  exact h.bind fun a ha => .pure (by simpa using ha)

theorem ofError {r : Refusal} (h : r.Fits l) : Gives l P (throw r : Parse α) :=
  fun _ _ => .error h

theorem refuse {cause : Error.Cause} {token : Option Token} (hcause : cause.cls = .parse)
    (htoken : ∀ t ∈ token, t.Fits l) : Gives l P (Parse.refuse cause token : Parse α) :=
  ofError ⟨hcause, htoken⟩

-- A refusal at a token that is there.
theorem refuseAt {cause : Error.Cause} {t : Token} (hcause : cause.cls = .parse) (ht : t.Fits l) :
    Gives l P (Parse.refuse cause (some t) : Parse α) :=
  refuse hcause (by simpa using ht)

theorem peek : Gives l (fun next => ∀ t ∈ next, t.Fits l) Parse.peek :=
  fun _ hts => .ok (fun t ht => hts t (List.mem_of_mem_head? ht)) hts

-- A parser that looks at the next token first and is refused if there is none.
theorem peekFirst {f : Option Token → Parse α} {r : Refusal} (hnone : (f none).run [] = .error r)
    (hr : r.Fits l) (hsome : ∀ t, t.Fits l → Gives l P (f (some t))) :
    Gives l P (Parse.peek >>= f) := by
  intro ts hts
  rw [StateT.run_bind, run_peek, bind_ok]
  cases ts with
  | nil =>
    rw [List.head?_nil, hnone]
    exact .error hr
  | cons t ts => exact hsome t (hts t List.mem_cons_self) (t :: ts) hts

theorem advance : Gives l (fun _ => True) Parse.advance :=
  fun _ hts => .ok trivial fun t ht => hts t (List.mem_of_mem_tail ht)

theorem nextIs (kind : Token.Kind) : Gives l (fun _ => True) (Parse.nextIs kind) :=
  peek.bind fun _ _ => .pure trivial

theorem nextIsWord (words : List String) : Gives l (fun _ => True) (Parse.nextIsWord words) :=
  peek.bind fun _ _ => .pure trivial

theorem discarded {m : Parse α} (h : Gives l P m) : Gives l (fun _ => True) (discard m) :=
  h.bind (f := fun _ => Pure.pure ()) fun _ _ => .pure trivial

theorem expect (kind : Token.Kind) :
    Gives l (fun t => t.Fits l ∧ t.kind = kind) (Parse.expect kind) := by
  refine peek.bind fun next hnext => ?_
  cases next with
  | none => exact refuse rfl hnext
  | some t =>
    by_cases hkind : t.kind = kind
    · simp only [hkind, if_true]
      exact advance.bind fun _ _ => .pure ⟨hnext t rfl, hkind⟩
    · simp only [hkind, if_false]
      exact refuse rfl hnext

theorem expectWord (word : String) : Gives l (fun t => t.Fits l) (Parse.expectWord word) := by
  refine peek.bind fun next hnext => ?_
  cases next with
  | none => exact refuse rfl hnext
  | some t =>
    by_cases hword : t.kind = .keyword ∧ t.text = .str word
    · simp only [hword, and_self, if_true]
      exact advance.bind fun _ _ => .pure (hnext t rfl)
    · simp only [hword, if_false]
      exact refuse rfl hnext

theorem skip (kind : Token.Kind) : Gives l (fun _ => True) (Parse.skip kind) := by
  refine (nextIs kind).bind fun found _ => ?_
  cases found with
  | true => exact advance
  | false => exact .pure trivial

theorem loop {body : Nat → Parse α} (h : ∀ n, Gives l P (body n)) :
    Gives l P (Parse.loop body) := by
  intro ts hts
  rw [run_loop]
  exact h _ ts hts

theorem separated {close : Token.Kind} {item : Parse α} (h : Gives l P item) (n : Nat) :
    Gives l (fun as => ∀ a ∈ as, P a) (Parse.separated close item n) := by
  induction n with
  | zero => exact .pure (by simp)
  | succ n ih =>
    refine (nextIs close).bind fun closed _ => ?_
    cases closed with
    | true => exact .pure (by simp)
    | false =>
      have hmore (a : α) (ha : P a) : Gives l (fun as => ∀ a ∈ as, P a)
          (Parse.separated close item n >>= fun rest => Pure.pure (a :: rest)) :=
        ih.bind fun rest hrest => .pure (List.forall_mem_cons.2 ⟨ha, hrest⟩)
      refine h.bind fun a ha => (nextIs .comma).bind fun comma _ => ?_
      cases comma with
      | true => exact advance.bind fun _ _ => hmore a ha
      | false =>
        refine (nextIs close).bind fun closed _ => ?_
        cases closed with
        | true => exact hmore a ha
        | false =>
          exact peek.bind fun _ hnext => (refuse (P := fun _ => True) rfl hnext).bind
            fun _ _ => hmore a ha

theorem upTo {close : Token.Kind} {item : Parse α} (h : Gives l P item) (n : Nat) :
    Gives l (fun as => ∀ a ∈ as, P a) (Parse.upTo close item n) := by
  induction n with
  | zero => exact .pure (by simp)
  | succ n ih =>
    refine (nextIs close).bind fun closed _ => ?_
    cases closed with
    | true => exact .pure (by simp)
    | false =>
      exact h.bind fun a ha => ih.bind fun rest hrest =>
        .pure (List.forall_mem_cons.2 ⟨ha, hrest⟩)

end Gives

theorem run_bind_of_error {m : Parse α} {f : α → Parse β} {ts : List Token} {r : Refusal}
    (h : m.run ts = .error r) : (m >>= f).run ts = .error r := by
  rw [StateT.run_bind, h]
  rfl

end Parse

open Parse Node

-- What the rules of the grammar pass on from the parts of a node to the whole, for the nodes that
-- are read where so many more levels of blocks, brackets and signs may be opened.
structure Rules (l : Leaves) where
  expression : Nat → Node → Prop
  part : Nat → Part → Node → Prop
  literal {k : Nat} {p : Place} {v t : Tree} (place : l.place p) (value : IsLiteral v t) :
    expression k (.literal p v t)
  ident {k : Nat} {p : Place} {s : String} (place : l.place p) (name : l.name s) :
    expression k (.ident p (.str s))
  parenthesized {k : Nat} {n : Node} (inner : expression k n) : expression (k + 1) n
  array {k : Nat} {p : Place} {es : List Node} (place : l.place p)
    (elements : ∀ e ∈ es, expression k e) : expression (k + 1) (.array p (.list es))
  tuple {k : Nat} {p : Place} {es : List Node} (place : l.place p) (nonempty : es ≠ [])
    (elements : ∀ e ∈ es, expression k e) : expression (k + 1) (.tuple p (.list es))
  unary {k : Nat} {p : Place} {s : String} {a : Node} (place : l.place p) (sign : s ∈ signs)
    (operand : expression k a) : expression (k + 1) (.unary p (.str s) a)
  compare {k : Nat} {p : Place} (c : Comparison) {a b : Node} (place : l.place p)
    (left : expression k a) (right : expression k b) :
    expression k (.compare p (.str c.symbol) a b)
  binary {k : Nat} {p : Place} (c : Arithmetic) {a b : Node} (place : l.place p)
    (left : expression k a) (right : expression k b) :
    expression k (.binary p (.str c.symbol) a b)
  assign {k : Nat} {p : Place} {a b : Node} (place : l.place p) (bound : a.isTarget)
    (target : expression k a) (value : expression k b) : expression k (.assign p a b)
  member {k : Nat} {p : Place} {a b : Node} (place : l.place p) (target : expression k a)
    (property : expression k b) : expression k (.member p a b)
  index {k : Nat} {p : Place} {a b : Node} (place : l.place p) (target : expression k a)
    (index : expression k b) : expression k (.index p a b)
  convert {k : Nat} {p : Place} {a b : Node} (place : l.place p) (value : expression k a)
    (type : expression k b) : expression k (.convert p a b)
  call {k : Nat} {p : Place} {f : Node} {args : List Node} (place : l.place p)
    (function : expression k f) (arguments : ∀ e ∈ args, expression k e) :
    expression k (.call p f (.list args))
  parameter {k : Nat} {p : Place} {s : String} {t : Option Node} (place : l.place p)
    (name : l.name s) (type : ∀ n ∈ t, expression k n) :
    part k .parameter (.parameter p (.str s) t)
  block {k : Nat} {p : Place} {ss : List Node} (place : l.place p)
    (statements : ∀ n ∈ ss, part k .statement n) : part (k + 1) .block (.block p (.list ss))
  arm {k : Nat} {p : Place} {a b : Node} (place : l.place p) (label : expression k a)
    (body : part k .block b) : part k .arm (.arm p a b)
  declare {k : Nat} {p : Place} {a : Node} {v : Option Node} (place : l.place p)
    (bound : a.isTarget) (target : expression k a) (value : ∀ n ∈ v, expression k n) :
    part k .statement (.declare p a v)
  function {k : Nat} {p : Place} {s : String} {ps : List Node} {r : Option Node} {b : Node}
    (place : l.place p) (name : l.name s) (parameters : ∀ n ∈ ps, part k .parameter n)
    (result : ∀ n ∈ r, expression k n) (body : part k .block b) :
    part k .statement (.function p (.str s) (.list ps) r b)
  conditional {k : Nat} {p : Place} {a b : Node} {c : Option Node} (place : l.place p)
    (condition : expression k a) (thenBlock : part k .block b)
    (elseBlock : ∀ n ∈ c, part k .block n) : part k .statement (.conditional p a b c)
  cases {k : Nat} {p : Place} {a : Node} {ns : List Node} (place : l.place p)
    (scrutinee : expression k a) (arms : ∀ n ∈ ns, part k .arm n) :
    part k .statement (.cases p a (.list ns))
  ofBlock {k : Nat} {n : Node} (block : part k .block n) : part k .statement n
  ofExpression {k : Nat} {n : Node} (expression : expression k n) : part k .statement n

-- Being well-formed is passed on, however many levels there are.
def Rules.wellFormed (l : Leaves) : Rules l where
  expression _ := IsExpression l
  part _ := IsPart l
  literal := .literal
  ident := .ident
  parenthesized := id
  array := .array
  tuple := .tuple
  unary := .unary
  compare := .compare
  binary := .binary
  assign := .assign
  member := .member
  index := .index
  convert := .convert
  call := .call
  parameter := .parameter
  block := .block
  arm := .arm
  declare := .declare
  function := .function
  conditional := .conditional
  cases := .cases
  ofBlock := .ofBlock
  ofExpression := .ofExpression

variable {l : Leaves}

-- The text of a token that is one of some texts.
theorem text_of_isOneOf {t : Token} {texts : List String} (h : t.isOneOf texts) :
    ∃ s ∈ texts, t.text = .str s := by
  unfold Token.isOneOf at h
  cases ht : t.text with
  | str s => exact ⟨s, by simpa [ht, Tree.text?] using h, rfl⟩
  | _ => simp [ht, Tree.text?] at h

theorem exists_arithmetic {t : Token} (h : isSum t ∨ isProduct t) :
    ∃ c : Arithmetic, t.text = .str c.symbol := by
  simp only [isSum, isProduct, Bool.and_eq_true] at h
  rcases h with ⟨-, h⟩ | ⟨-, h⟩
  · obtain ⟨s, hs, htext⟩ := text_of_isOneOf h
    simp only [List.mem_cons, List.not_mem_nil, or_false] at hs
    rcases hs with rfl | rfl
    exacts [⟨.add, htext⟩, ⟨.sub, htext⟩]
  · obtain ⟨s, hs, htext⟩ := text_of_isOneOf h
    simp only [List.mem_cons, List.not_mem_nil, or_false] at hs
    rcases hs with rfl | rfl | rfl
    exacts [⟨.mul, htext⟩, ⟨.div, htext⟩, ⟨.rem, htext⟩]

theorem exists_comparison {t : Token} (ht : t.Fits l) (h : isRelation t) :
    ∃ c : Comparison, t.text = .str c.symbol := by
  obtain ⟨s, hs, hallows⟩ := ht.text
  unfold isRelation at h
  generalize t.kind = kind at h hallows
  cases kind with
  | less => exact ⟨.less, hs.trans (congrArg Tree.str hallows)⟩
  | lessEqual => exact ⟨.lessEqual, hs.trans (congrArg Tree.str hallows)⟩
  | greater => exact ⟨.greater, hs.trans (congrArg Tree.str hallows)⟩
  | greaterEqual => exact ⟨.greaterEqual, hs.trans (congrArg Tree.str hallows)⟩
  | equal => exact ⟨.equal, hs.trans (congrArg Tree.str hallows)⟩
  | notEqual => exact ⟨.notEqual, hs.trans (congrArg Tree.str hallows)⟩
  | _ => simp [Token.Kind.isRelational] at h

section Literals

variable (R : Rules l) (k : Nat) {t : Token}

theorem gives_integerLiteral (ht : t.Fits l) (hkind : t.kind = .integer) :
    Gives l (R.expression k) (liftM (integerLiteral t)) := by
  obtain ⟨s, hs, hdigits⟩ := ht.text_of_kind hkind
  rw [integerLiteral, hs, integerOf, Reading.looseInteger_of_isDigits hdigits]
  by_cases hlen : s.toList.length ≤ Reading.digitLimit
  · simp only [if_pos hlen]
    split
    · exact .pure (R.literal ht.place (.integer _ (by omega) (by assumption)))
    · exact .ofError ⟨rfl, by simpa using ht⟩
  · simp only [if_neg hlen]
    exact .ofError rfl

theorem gives_realLiteral (ht : t.Fits l) (hkind : t.kind = .real) :
    Gives l (R.expression k) (liftM (realLiteral t)) := by
  obtain ⟨s, hs, htext⟩ := ht.text_of_kind hkind
  rw [realLiteral, hs]
  cases hvalue : realOf (.str s) with
  | error f =>
    simp only [realOf] at hvalue
    split at hvalue
    · cases hvalue
    · exact .ofError (Except.error.inj hvalue).symm
  | ok x =>
    exact .pure (R.literal ht.place (.real x s.toList htext (by rwa [String.ofList_toList])))

end Literals

section Levels

variable {R : Rules l} {k : Nat} {expression primary : Parse Node}

theorem gives_leftAssociative {isOp : Token → Bool} {make : Token → Node → Node → Node}
    {operand : Parse Node} (h : Gives l (R.expression k) operand)
    (hmake : ∀ {t : Token} {a b : Node}, t.Fits l → isOp t → R.expression k a →
      R.expression k b → R.expression k (make t a b)) :
    Gives l (R.expression k) (leftAssociative isOp make operand) := by
  have hchain (n : Nat) : ∀ e, R.expression k e →
      Gives l (R.expression k) (chain isOp make operand n e) := by
    induction n with
    | zero => exact fun e he => .pure he
    | succ n ih =>
      intro e he
      refine Gives.peek.bind fun next hnext => ?_
      cases next with
      | none => exact .pure he
      | some t =>
        by_cases hop : isOp t
        · simp only [hop, if_true]
          exact Gives.advance.bind fun _ _ => h.bind fun right hright =>
            ih _ (hmake (hnext t rfl) hop he hright)
        · simp only [hop]
          exact .pure he
  exact h.bind fun first hfirst => .loop fun n => hchain n first hfirst

theorem gives_conversion (hprimary : Gives l (R.expression k) primary) :
    Gives l (R.expression k) (conversion primary) := by
  refine hprimary.bind fun value hvalue => Gives.peek.bind fun next hnext => ?_
  cases next with
  | none => exact .pure hvalue
  | some t =>
    refine (Gives.nextIsWord _).bind fun found _ => ?_
    cases found with
    | false => exact .pure hvalue
    | true =>
      exact Gives.advance.bind fun _ _ => hprimary.bind fun type htype =>
        .pure (R.convert (hnext t rfl).place hvalue htype)

theorem gives_postfixes (hexpression : Gives l (R.expression k) expression)
    (hprimary : Gives l (R.expression k) primary) (n : Nat) :
    ∀ e, R.expression k e → Gives l (R.expression k) (postfixes expression primary n e) := by
  induction n with
  | zero => exact fun e he => .pure he
  | succ n ih =>
    intro e he
    refine Gives.peek.bind fun next hnext => ?_
    cases next with
    | none => exact .pure he
    | some t =>
      have hplace := (hnext t rfl).place
      simp only
      split
      · exact Gives.advance.bind fun _ _ => (gives_conversion hprimary).bind
          fun property hproperty => ih _ (R.member hplace he hproperty)
      · exact Gives.advance.bind fun _ _ => hexpression.bind fun index hindex =>
          (Gives.expect _).discarded.bind fun _ _ => ih _ (R.index hplace he hindex)
      · exact Gives.advance.bind fun _ _ => (Gives.loop hexpression.separated).bind
          fun args hargs => (Gives.expect _).discarded.bind fun _ _ =>
            ih _ (R.call hplace he hargs)
      · by_cases hword : t.isOneOf ["as", "to"]
        · simp only [hword, if_true]
          exact Gives.advance.bind fun _ _ => hprimary.bind fun type htype =>
            ih _ (R.convert hplace he htype)
        · simp only [hword]
          exact .pure he
      · exact .pure he

theorem gives_relation (hexpression : Gives l (R.expression k) expression)
    (hprimary : Gives l (R.expression k) primary) :
    Gives l (R.expression k) (relation expression primary) := by
  have hbinary {t : Token} {a b : Node} (ht : t.Fits l) (hop : isSum t ∨ isProduct t)
      (ha : R.expression k a) (hb : R.expression k b) : R.expression k (makeBinary t a b) := by
    obtain ⟨c, hc⟩ := exists_arithmetic hop
    rw [makeBinary, hc]
    exact R.binary c ht.place ha hb
  have hcompare {t : Token} {a b : Node} (ht : t.Fits l) (hop : isRelation t)
      (ha : R.expression k a) (hb : R.expression k b) : R.expression k (makeCompare t a b) := by
    obtain ⟨c, hc⟩ := exists_comparison ht hop
    rw [makeCompare, hc]
    exact R.compare c ht.place ha hb
  have hoperand : Gives l (R.expression k) (operand expression primary) :=
    (gives_conversion hprimary).bind fun first hfirst =>
      .loop fun n => gives_postfixes hexpression hprimary n first hfirst
  have hproduct : Gives l (R.expression k) (product expression primary) :=
    gives_leftAssociative hoperand fun ht h => hbinary ht (.inr h)
  have hsum : Gives l (R.expression k) (sum expression primary) :=
    gives_leftAssociative hproduct fun ht h => hbinary ht (.inl h)
  exact gives_leftAssociative hsum hcompare

-- Every level of an expression begins with an operand.
theorem relation_of_error {ts : List Token} {r : Refusal} (h : primary.run ts = .error r) :
    (relation expression primary).run ts = .error r :=
  run_bind_of_error (run_bind_of_error (run_bind_of_error (run_bind_of_error
    (run_bind_of_error h))))

theorem gives_assignment (hexpression : Gives l (R.expression k) expression)
    (hprimary : Gives l (R.expression k) primary) {r : Refusal} (hend : primary.run [] = .error r)
    (hr : r.Fits l) : Gives l (R.expression k) (assignment expression primary) := by
  refine Gives.peekFirst (run_bind_of_error (relation_of_error hend)) hr fun t ht => ?_
  refine (gives_relation hexpression hprimary).bind fun left hleft =>
    (Gives.nextIs .assign).bind fun found _ => ?_
  cases found with
  | false => exact .pure hleft
  | true =>
    by_cases htarget : left.isTarget
    · simp only [htarget, if_true]
      exact Gives.advance.bind fun _ _ => hexpression.bind fun value hvalue =>
        .pure (R.assign ht.place htarget hleft hvalue)
    · simp only [htarget]
      exact .refuseAt rfl ht

theorem gives_elements (hexpression : Gives l (R.expression k) expression) (n : Nat) :
    Gives l (fun es => ∀ e ∈ es, R.expression k e) (elements expression n) := by
  induction n with
  | zero => exact .pure (by simp)
  | succ n ih =>
    refine (Gives.nextIs _).bind fun closed _ => ?_
    cases closed with
    | true => exact .pure (by simp)
    | false =>
      refine hexpression.bind fun first hfirst => (Gives.nextIs _).bind fun comma _ => ?_
      cases comma with
      | true =>
        exact Gives.advance.bind fun _ _ => ih.bind fun rest hrest =>
          .pure (List.forall_mem_cons.2 ⟨hfirst, hrest⟩)
      | false => exact .pure (by simpa using hfirst)

theorem gives_moreElements (hexpression : Gives l (R.expression k) expression) (n : Nat) :
    Gives l (fun es => ∀ e ∈ es, R.expression k e) (moreElements expression n) := by
  induction n with
  | zero => exact .pure (by simp)
  | succ n ih =>
    refine (Gives.nextIs _).bind fun comma _ => ?_
    cases comma with
    | false => exact .pure (by simp)
    | true =>
      refine Gives.advance.bind fun _ _ => (Gives.nextIs _).bind fun closed _ => ?_
      cases closed with
      | true => exact .pure (by simp)
      | false =>
        exact hexpression.bind fun first hfirst => ih.bind fun rest hrest =>
          .pure (List.forall_mem_cons.2 ⟨hfirst, hrest⟩)

theorem gives_parenthesized (hexpression : Gives l (R.expression k) expression) {place : Place}
    (hplace : l.place place) : Gives l (R.expression (k + 1)) (parenthesized expression place) := by
  refine (Gives.nextIs _).bind fun closed _ => ?_
  cases closed with
  | true => exact Gives.advance.bind fun _ _ => .pure (R.literal hplace .null)
  | false =>
    have hclose (e : Node) (he : R.expression (k + 1) e) : Gives l (R.expression (k + 1))
        (discard (expect .rightParen) >>= fun _ => pure e) :=
      (Gives.expect _).discarded.bind fun _ _ => .pure he
    refine hexpression.bind fun first hfirst => (Gives.nextIs _).bind fun comma _ => ?_
    cases comma with
    | true =>
      exact (Gives.loop (gives_moreElements hexpression)).bind fun rest hrest =>
        hclose _ (R.tuple hplace (by simp) (List.forall_mem_cons.2 ⟨hfirst, hrest⟩))
    | false => exact hclose first (R.parenthesized hfirst)

end Levels

section Nesting

variable {R : Rules l} {sub : Parsers}

theorem gives_nested (hexpression : ∀ k, Gives l (R.expression k) (sub.expression k))
    (hprimary : ∀ k, Gives l (R.expression k) (sub.primary k)) {t : Token} (ht : t.Fits l)
    (hsign : t.kind ≠ .leftBracket → t.kind ≠ .leftParen → ∃ s ∈ signs, t.text = .str s)
    (k : Nat) : Gives l (R.expression k) (nested sub t k) := by
  cases k with
  | zero => exact .refuseAt rfl ht
  | succ k =>
    simp only [nested]
    split
    · exact (Gives.loop (gives_elements (hexpression k))).bind fun items hitems =>
        (Gives.expect _).discarded.bind fun _ _ => .pure (R.array ht.place hitems)
    · exact gives_parenthesized (hexpression k) ht.place
    · rename_i hbracket hparen
      obtain ⟨s, hs, htext⟩ := hsign hbracket hparen
      rw [htext]
      exact (hprimary k).bind fun value hvalue => .pure (R.unary ht.place hs hvalue)

theorem primary_nil (sub : Parsers) (k : Nat) :
    (primary sub k).run [] = .error (.error .unexpectedEnd none) := rfl

theorem gives_primary (hexpression : ∀ k, Gives l (R.expression k) (sub.expression k))
    (hprimary : ∀ k, Gives l (R.expression k) (sub.primary k)) (k : Nat) :
    Gives l (R.expression k) (primary sub k) := by
  refine Gives.peekFirst (primary_nil sub k) ⟨rfl, by simp⟩ fun t ht => ?_
  have hnested := gives_nested hexpression hprimary ht
  simp only
  split
  · rename_i hkind
    obtain ⟨s, hs, hname⟩ := ht.text_of_kind hkind
    rw [hs]
    exact Gives.advance.bind fun _ _ => .pure (R.ident ht.place hname)
  · rename_i hkind
    exact Gives.advance.bind fun _ _ => gives_integerLiteral R k ht hkind
  · rename_i hkind
    exact Gives.advance.bind fun _ _ => gives_realLiteral R k ht hkind
  · obtain ⟨s, hs, -⟩ := ht.text
    rw [hs]
    exact Gives.advance.bind fun _ _ => .pure (R.literal ht.place (.string s))
  · rename_i hkind
    obtain ⟨s, hs, hnot⟩ := ht.text_of_kind hkind
    exact Gives.advance.bind fun _ _ =>
      hnested (fun _ _ => ⟨s, by rw [hnot]; decide, hs⟩) k
  · rename_i hkind
    exact Gives.advance.bind fun _ _ => hnested (fun hne => absurd hkind hne) k
  · rename_i hkind
    exact Gives.advance.bind fun _ _ => hnested (fun _ hne => absurd hkind hne) k
  · by_cases hsum : isSum t
    · simp only [hsum, if_true]
      refine Gives.advance.bind fun _ _ => hnested (fun _ _ => ?_) k
      simp only [isSum, Bool.and_eq_true] at hsum
      obtain ⟨s, hs, htext⟩ := text_of_isOneOf hsum.2
      exact ⟨s, by simp only [signs, List.mem_cons] at hs ⊢; tauto, htext⟩
    · simp only [hsum]
      exact .refuseAt rfl ht
  · exact .refuseAt rfl ht

end Nesting

-- However deep expressions may stand inside each other.
theorem gives_parsers (R : Rules l) (n : Nat) :
    (∀ k, Gives l (R.expression k) ((parsers n).expression k)) ∧
      ∀ k, Gives l (R.expression k) ((parsers n).primary k) := by
  induction n with
  | zero =>
    have hnone (k : Nat) : Gives l (R.expression k) (do refuse .nestsTooDeeply (← peek)) :=
      Gives.peek.bind fun _ hnext => .refuse rfl hnext
    exact ⟨hnone, hnone⟩
  | succ n ih =>
    obtain ⟨hexpression, hprimary⟩ := ih
    have houter := gives_primary hexpression hprimary
    exact ⟨fun k => gives_assignment (hexpression k) (houter k) (primary_nil _ k) ⟨rfl, by simp⟩,
      houter⟩

theorem parsers_nil (n k : Nat) :
    ((parsers (n + 1)).expression k).run [] = .error (.error .unexpectedEnd none) := by
  have hrelation : (relation ((parsers n).expression k) (primary (parsers n) k)).run [] =
      .error (.error .unexpectedEnd none) := relation_of_error (primary_nil (parsers n) k)
  have houter : (parsers (n + 1)).expression k =
      assignment ((parsers n).expression k) (primary (parsers n) k) := rfl
  rw [houter, assignment, StateT.run_bind, run_peek, bind_ok]
  exact run_bind_of_error hrelation

-- There is no expression at the end of the input.
theorem expression_nil [Machine] (k : Nat) :
    (expression k).run [] = .error (.error .unexpectedEnd none) := by
  obtain ⟨n, hroom⟩ := Nat.exists_eq_add_of_lt Machine.room_large
  rw [expression, hroom]
  exact parsers_nil (64 + n) k

section Statements

variable [Machine] (R : Rules l) (k : Nat)

theorem gives_expression : Gives l (R.expression k) (expression k) :=
  (gives_parsers R Machine.room).1 k

theorem gives_bracketed : Gives l (R.expression k) (bracketed k) :=
  (gives_parsers R Machine.room).2 k

theorem gives_comparison : Gives l (R.expression k) (comparison k) :=
  gives_relation (gives_expression R k) (gives_bracketed R k)

theorem gives_declared : Gives l (fun n => n.isTarget ∧ R.expression k n) (declared k) := by
  refine Gives.peek.bind fun next hnext => ?_
  cases next with
  | none => exact .refuse rfl hnext
  | some t =>
    have ht : t.Fits l := hnext t rfl
    simp only
    split
    · rename_i hkind
      obtain ⟨s, hs, hname⟩ := ht.text_of_kind hkind
      rw [hs]
      exact Gives.advance.bind fun _ _ => .pure ⟨rfl, R.ident ht.place hname⟩
    · refine (gives_bracketed R k).bind fun target htarget => ?_
      by_cases hbound : target.isTarget
      · simp only [hbound, if_true]
        exact .pure ⟨hbound, htarget⟩
      · simp only [hbound]
        exact .refuse rfl hnext
    · exact .refuse rfl hnext

theorem gives_declaration : Gives l (R.part k .statement) (declaration k) := by
  refine (Gives.expectWord _).bind fun start hstart => (gives_declared R k).bind
    fun target htarget => (Gives.nextIs _).bind fun found _ => ?_
  have hend (value : Option Node) (hvalue : ∀ n ∈ value, R.expression k n) :
      Gives l (R.part k .statement)
        (discard (expect .semicolon) >>= fun _ => pure (.declare start.place target value)) :=
    (Gives.expect _).discarded.bind fun _ _ =>
      .pure (R.declare hstart.place htarget.1 htarget.2 hvalue)
  cases found with
  | false => exact hend none (by simp)
  | true =>
    refine Gives.advance.bind fun _ _ => ?_
    exact (gives_expression R k).someOf.bind fun value hvalue => hend value hvalue

theorem gives_annotation? :
    Gives l (fun type => ∀ n ∈ type, R.expression k n) ( annotation? k) := by
  refine (Gives.nextIs _).bind fun found _ => ?_
  cases found with
  | false => exact .pure (by simp)
  | true => exact Gives.advance.bind fun _ _ => (gives_comparison R k).someOf

theorem gives_parameter : Gives l (R.part k .parameter) (parameter k) := by
  refine Gives.peek.bind fun next hnext => ?_
  cases next with
  | none => exact .refuse rfl hnext
  | some t =>
    have ht : t.Fits l := hnext t rfl
    by_cases hkind : t.kind = .ident
    · obtain ⟨s, hs, hname⟩ := ht.text_of_kind hkind
      simp only [hkind, if_true, hs]
      exact Gives.advance.bind fun _ _ => (gives_annotation? R k).bind fun type htype =>
        .pure (R.parameter ht.place hname htype)
    · simp only [hkind, if_false]
      exact .refuse rfl hnext

theorem label_nil : (label k).run [] = .error (.error .unexpectedEnd none) := by
  have hend := expression_nil k
  simp only [label, StateT.run_bind, run_peek, bind_ok, run_nextIsWord]
  exact hend

theorem gives_label : Gives l (R.expression k) (label k) := by
  refine Gives.peekFirst (label_nil k) ⟨rfl, by simp⟩ fun t ht =>
    (Gives.nextIsWord _).bind fun found _ => ?_
  cases found with
  | false => exact gives_expression R k
  | true => exact Gives.advance.bind fun _ _ => .pure (R.literal ht.place .null)

theorem gives_evaluation : Gives l (R.part k .statement) (evaluation k) := by
  refine (gives_expression R k).bind fun node hnode => ?_
  have hend : Gives l (R.part k .statement) (pure node) := .pure (R.ofExpression hnode)
  cases node.isAssign with
  | true => exact (Gives.expect _).discarded.bind fun _ _ => hend
  | false => exact (Gives.skip _).bind fun _ _ => hend

variable {block : Parse Node} (hblock : Gives l (R.part k .block) block)

include hblock

theorem gives_conditional : Gives l (R.part k .statement) (conditional k block) := by
  refine (Gives.expectWord _).bind fun start hstart => (gives_comparison R k).bind
    fun condition hcondition => hblock.bind fun thenBlock hthen =>
      (Gives.nextIsWord _).bind fun found _ => ?_
  cases found with
  | false => exact .pure (R.conditional hstart.place hcondition hthen (by simp))
  | true =>
    exact Gives.advance.bind fun _ _ => hblock.someOf.bind fun elseBlock helse =>
      .pure (R.conditional hstart.place hcondition hthen helse)

theorem gives_arm : Gives l (R.part k .arm) (arm k block) :=
  Gives.peekFirst (run_bind_of_error (label_nil k)) ⟨rfl, by simp⟩ fun _ hstart =>
    (gives_label R k).bind fun _ hlabel => (Gives.expect _).discarded.bind fun _ _ =>
      hblock.bind fun _ hbody => (Gives.expect _).discarded.bind fun _ _ =>
        .pure (R.arm hstart.place hlabel hbody)

theorem gives_cases : Gives l (R.part k .statement) (cases k block) :=
  (Gives.expectWord _).bind fun _ hstart => (gives_expression R k).bind
    fun _ hscrutinee => (Gives.expectWord _).discarded.bind fun _ _ =>
      (Gives.expect _).discarded.bind fun _ _ =>
        (Gives.loop (gives_arm R k hblock).upTo).bind fun _ harms =>
          (Gives.expect _).discarded.bind fun _ _ => (Gives.expect _).discarded.bind fun _ _ =>
            .pure (R.cases hstart.place hscrutinee harms)

theorem gives_function : Gives l (R.part k .statement) (function k block) := by
  refine (Gives.expectWord _).bind fun start hstart => (Gives.expect .ident).bind
    fun name hname => ?_
  obtain ⟨s, hs, hallowed⟩ := hname.1.text_of_kind hname.2
  rw [hs]
  exact (Gives.expect _).discarded.bind fun _ _ =>
    (Gives.loop (gives_parameter R k).separated).bind fun _ hparameters =>
      (Gives.expect _).discarded.bind fun _ _ => (gives_annotation? R k).bind
        fun _ hresult => hblock.bind fun _ hbody =>
          .pure (R.function hstart.place hallowed hparameters hresult hbody)

theorem gives_statementOver : Gives l (R.part k .statement) (statementOver k block) := by
  refine Gives.peek.bind fun next hnext => ?_
  cases next with
  | none => exact gives_evaluation R k
  | some t =>
    simp only
    split
    · split
      · exact gives_declaration R k
      split
      · exact gives_conditional R k hblock
      split
      · exact gives_cases R k hblock
      split
      · exact gives_function R k hblock
      · exact .refuse rfl hnext
    · exact hblock.mono fun n hn => R.ofBlock hn
    · exact gives_evaluation R k

end Statements

theorem gives_sequence {P : Node → Prop} {done : Option Token → Bool} {statement : Parse Node}
    (h : Gives l P statement) (n : Nat) :
    Gives l (fun ss => ∀ s ∈ ss, P s) (sequence done statement n) := by
  induction n with
  | zero => exact .pure (by simp)
  | succ n ih =>
    refine Gives.peek.bind fun next _ => ?_
    cases done next with
    | true => exact .pure (by simp)
    | false =>
      refine (Gives.nextIs _).bind fun found _ => ?_
      cases found with
      | true => exact Gives.advance.bind fun _ _ => ih
      | false =>
        exact h.bind fun first hfirst => ih.bind fun rest hrest =>
          .pure (List.forall_mem_cons.2 ⟨hfirst, hrest⟩)

theorem gives_block [Machine] (R : Rules l) (k : Nat) : Gives l (R.part k .block) (block k) := by
  induction k with
  | zero => exact (Gives.expect _).bind fun _ hstart => .refuseAt rfl hstart.1
  | succ k ih =>
    exact (Gives.expect _).bind fun start hstart =>
      (Gives.loop (gives_sequence (gives_statementOver R k ih))).bind fun _ hbody =>
        (Gives.expect _).discarded.bind fun _ _ => .pure (R.block hstart.1.place hbody)

-- A program is a list of statements.
theorem gives_program [Machine] (R : Rules l) :
    Gives l (fun n => ∃ ss, n = .program .start (.list ss) ∧
      ∀ s ∈ ss, R.part maxNesting .statement s) program :=
  (Gives.loop (gives_sequence (gives_statementOver R maxNesting (gives_block R maxNesting)))).bind
    fun ss hss => .pure ⟨ss, rfl, hss⟩

-- The end of the input is at the place of a token.
theorem place_input {tokens : List Token} (hne : tokens ≠ []) (h : ∀ t ∈ tokens, t.Fits l) :
    l.place (input tokens).2 := by
  unfold input
  cases hmark : (tokens.dropWhile (·.kind ≠ .endOfInput)).head? with
  | some t =>
    have ht : t ∈ tokens := (List.dropWhile_suffix _).subset (List.mem_of_mem_head? hmark)
    simpa [hmark] using (h t ht).place
  | none => simpa [hmark, List.getLast?_eq_getLast_of_ne_nil hne] using
      (h _ (List.getLast_mem hne)).place

end Grammar

namespace Node

variable [Machine] {l : Leaves} {tokens : List Token}

theorem ofTokens_of_ok {node : Node} {rest : List Token}
    (h : Grammar.program.run (Grammar.input tokens).1 = .ok (node, rest)) :
    ofTokens tokens = .ok node := by
  have hrun : Grammar.program (Grammar.input tokens).1 = _ := h
  simp only [ofTokens, hrun]

theorem ofTokens_of_error {r : Grammar.Refusal}
    (h : Grammar.program.run (Grammar.input tokens).1 = .error r) :
    ofTokens tokens = .error (r.toFailure (Grammar.input tokens).2) := by
  have hrun : Grammar.program (Grammar.input tokens).1 = _ := h
  simp only [ofTokens, hrun]

theorem isSound_program (R : Grammar.Rules l) (htokens : ∀ t ∈ tokens, t.Fits l) :
    Grammar.Parse.IsSound l (fun n => ∃ ss, n = .program .start (.list ss) ∧
      ∀ s ∈ ss, R.part Grammar.maxNesting .statement s)
      (Grammar.program.run (Grammar.input tokens).1) :=
  Grammar.gives_program R (Grammar.input tokens).1 fun t ht =>
    htokens t ((List.takeWhile_prefix _).subset ht)

theorem statements_of_ofTokens (R : Grammar.Rules l) (htokens : ∀ t ∈ tokens, t.Fits l)
    {program : Node} (h : ofTokens tokens = .ok program) :
    ∃ ss, program = .program .start (.list ss) ∧
      ∀ s ∈ ss, R.part Grammar.maxNesting .statement s := by
  have hend := isSound_program R htokens
  cases hrun : Grammar.program.run (Grammar.input tokens).1 with
  | ok read =>
    rw [hrun] at hend
    rw [ofTokens_of_ok hrun] at h
    cases hend with
    | ok value _ => exact Except.ok.inj h ▸ value
  | error r =>
    rw [ofTokens_of_error hrun] at h
    cases h

-- Whatever is parsed is well-formed.
theorem isProgram_of_ofTokens (hstart : l.place .start) (htokens : ∀ t ∈ tokens, t.Fits l)
    {program : Node} (h : ofTokens tokens = .ok program) : program.IsProgram l := by
  obtain ⟨ss, rfl, hss⟩ := statements_of_ofTokens (.wellFormed l) htokens h
  exact .program hstart hss

-- What is refused is refused at the place of a token.
theorem place_of_ofTokens_error (htokens : ∀ t ∈ tokens, t.Fits l) (hne : tokens ≠ [])
    {e : Error} (h : ofTokens tokens = .error (.error e)) :
    e.cause.cls = .parse ∧ l.place e.place := by
  have hend := isSound_program (.wellFormed l) htokens
  cases hrun : Grammar.program.run (Grammar.input tokens).1 with
  | ok read =>
    rw [ofTokens_of_ok hrun] at h
    cases h
  | error r =>
    rw [hrun] at hend
    rw [ofTokens_of_error hrun] at h
    have hfailure := Except.error.inj h
    cases hend with
    | error hr =>
      cases r with
      | fault f => cases hfailure
      | error cause token =>
        cases token with
        | none =>
          obtain rfl := Failure.error.inj hfailure
          exact ⟨hr.1, Grammar.place_input hne htokens⟩
        | some t =>
          obtain rfl := Failure.error.inj hfailure
          exact ⟨hr.1, (hr.2 t rfl).place⟩

end Node

end TernLang
