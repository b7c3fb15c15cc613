import TernLang.Proofs.Eval.Pieces
import TernLang.Proofs.Syntax.ExpressionText

-- Values that are read back from their text in traces: run as a program, the text has this value,
-- and nothing else happens.

namespace TernLang

namespace Value

-- The values that can be read back. Numbers are written without a sign, so that the least word
-- cannot be; and a tuple of one would be taken for its item in parentheses.
inductive IsReadable : Value → Prop where
  | null : IsReadable .null
  | bool (b : Bool) : IsReadable (.bool b)
  | int {n : Int} (low : Word.least < n) (high : n ≤ Word.greatest) : IsReadable (.int n)
  | str {s : String} (plain : '\x22' ∉ s.toList) : IsReadable (.str s)
  | array {items : List Value} (each : ∀ v ∈ items, IsReadable v) : IsReadable (.array items)
  | tuple {items : List Value} (size : 2 ≤ items.length) (each : ∀ v ∈ items, IsReadable v) :
    IsReadable (.tuple items)

mutual

-- How deep arrays, tuples and signs stand inside each other.
def depth : Value → Nat
  | int n => if n < 0 then 1 else 0
  | array items | tuple items => depthAll items + 1
  | _ => 0

def depthAll : List Value → Nat
  | [] => 0
  | v :: vs => max v.depth (depthAll vs)

end

mutual

-- The expression that the text of a value writes out.
def toNode : Value → Node
  | null => .ident .unknown (.str "null")
  | bool b => .ident .unknown (.str (truth b))
  | int n =>
    if n < 0 then .unary .unknown (.str "-") (.literal .unknown (.int (-n)) (.str "Integer"))
    else .literal .unknown (.int n) (.str "Integer")
  | str s => .literal .unknown (.str s) (.str "String")
  | array items => .array .unknown (.list (toNodes items))
  | tuple items => .tuple .unknown (.list (toNodes items))
  | _ => .stray .null

def toNodes : List Value → List Node
  | [] => []
  | v :: vs => v.toNode :: toNodes vs

end

theorem toNodes_eq_map (vs : List Value) : toNodes vs = vs.map toNode := by
  induction vs with
  | nil => rfl
  | cons v vs ih => rw [toNodes, ih, List.map_cons]

theorem isExpression_toNode {v : Value} (h : v.IsReadable) : v.toNode.IsExpression .any := by
  induction h with
  | null => exact .ident trivial trivial
  | bool b => exact .ident trivial trivial
  | @int n low high =>
    simp only [Word.least, Word.greatest] at low high
    rw [toNode]
    split
    · exact .unary trivial (by decide)
        (.literal trivial (.integer _ (by omega) (by simp only [Word.greatest]; omega)))
    · exact .literal trivial (.integer _ (by omega) (by simpa [Word.greatest] using high))
  | str => exact .literal trivial (.string _)
  | array _ ih =>
    rw [toNode, toNodes_eq_map]
    exact .array trivial (List.forall_mem_map.2 ih)
  | @tuple items size _ ih =>
    rw [toNode, toNodes_eq_map]
    refine .tuple trivial ?_ (List.forall_mem_map.2 ih)
    rintro hnil
    simp [List.map_eq_nil_iff.1 hnil] at size

mutual

theorem levels_toNode (cost : Node.Cost) : ∀ v : Value, v.toNode.levels cost = v.depth
  | int n => by
    rw [toNode, depth]
    split <;> rfl
  | array items | tuple items => by
    rw [toNode, depth, Node.levels, levelsAll_toNodes cost items]
  | null | bool _ | real .. | str _ | object _ | function _ | builtin _ | method .. | alien _ => rfl

theorem levelsAll_toNodes (cost : Node.Cost) : ∀ vs : List Value,
    Node.levelsAll cost (toNodes vs) = depthAll vs
  | [] => rfl
  | v :: vs => by
    rw [toNodes, depthAll, Node.levelsAll, levels_toNode cost v, levelsAll_toNodes cost vs]

end

theorem isAssign_toNode (v : Value) : v.toNode.isAssign = false := by
  cases v with
  | int n =>
    rw [toNode]
    split <;> rfl
  | _ => rfl

mutual

theorem unplaced_toNode : ∀ v : Value, v.toNode.unplaced = v.toNode
  | int n => by
    rw [toNode]
    split <;> rfl
  | array items | tuple items => by
    rw [toNode, Node.unplaced, Node.unplacedItems, unplacedAll_toNodes items]
  | null | bool _ | real .. | str _ | object _ | function _ | builtin _ | method .. | alien _ => rfl

theorem unplacedAll_toNodes : ∀ vs : List Value, Node.unplacedAll (toNodes vs) = toNodes vs
  | [] => rfl
  | v :: vs => by rw [toNodes, Node.unplacedAll, unplaced_toNode v, unplacedAll_toNodes vs]

end

mutual

theorem nesting_toNode_le : ∀ v : Value, v.toNode.nesting ≤ v.depth + 1
  | int n => by
    rw [toNode, depth]
    split <;> exact Nat.le_refl _
  | array items | tuple items => by
    rw [toNode, depth, Node.nesting, Node.nestingItems]
    exact Nat.succ_le_succ (nestingAll_toNodes_le items)
  | null | bool _ | real .. | str _ | object _ | function _ | builtin _ | method .. | alien _ =>
    Nat.le_refl 1

theorem nestingAll_toNodes_le : ∀ vs : List Value,
    Node.nestingAll (toNodes vs) ≤ depthAll vs + 1
  | [] => Nat.zero_le _
  | v :: vs => by
    have hv := nesting_toNode_le v
    have hvs := nestingAll_toNodes_le vs
    rw [toNodes, depthAll, Node.nestingAll]
    omega

end

section Text

open Token (Writes IsMaximal)

-- What the text of a value may stand in front of: nothing, or what ends an item.
def EndsItem (rest : List Char) : Prop := ∀ c ∈ rest.head?, c = ',' ∨ c = ']' ∨ c = ')'

variable {rest : List Char}

-- Every lexeme comes to its end there.
theorem isMaximal_of_endsItem (h : EndsItem rest) (kind : Token.Kind) (lexeme : List Char) :
    IsMaximal kind lexeme rest where
  word _ c hc := by rcases h c hc with rfl | rfl | rfl <;> decide
  number _ c hc := by rcases h c hc with rfl | rfl | rfl <;> decide
  comparison _ hc := by simpa using h _ hc
  slash _ hc := by simpa using h _ hc

-- A sign of one character that is not part of a longer one.
theorem writes_sign {t : Token} {c : Char} (htext : t.text = .str (String.ofList [c]))
    (hlisted : (t.kind, String.ofList [c]) ∈ Token.signTexts) (hc : c ∉ ['>', '<', '=', '!', '/'])
    (rest : List Char) : Writes [t] [c] rest := by
  have hkinds : ∀ p ∈ Token.signTexts, (p.1 ≠ .string ∧ p.1 ≠ .endOfInput) ∧
      ¬(p.1 = .ident ∨ p.1 = .keyword) ∧ ¬(p.1 = .integer ∨ p.1 = .real) := by decide
  obtain ⟨hkind, hword, hnumber⟩ := hkinds _ hlisted
  simp only [List.mem_cons, List.not_mem_nil, or_false, not_or] at hc
  refine .plain htext (.sign hlisted) hkind ⟨(absurd · hword), (absurd · hnumber), ?_, ?_⟩
  · simp [hc]
  · simp [hc]

theorem writes_name {s : String} (hword : Token.IsWord s.toList) (hfree : s ∉ Token.keywords)
    (hrest : EndsItem rest) : Writes [Render.named .ident (.str s)] s.toList rest := by
  refine .plain ?_ (.ident hword ?_) (by simp) (isMaximal_of_endsItem hrest _ _)
  · rw [String.ofList_toList]
    rfl
  · rwa [String.ofList_toList]

theorem writes_integer (n : Nat) (hrest : EndsItem rest) :
    Writes (Render.literal (.int n)) (Nat.toDigits 10 n) rest :=
  .plain rfl (.integer (Reading.isDigits_toDigits n)) (by simp) (isMaximal_of_endsItem hrest _ _)

-- Items with a comma and a blank between them.
theorem writes_commas {items : List (List Token)} {texts : List String}
    (h : List.Forall₂ (fun ts text => ∀ rest, EndsItem rest → Writes ts text.toList rest)
      items texts) (hrest : EndsItem rest) :
    Writes (Render.commas items) (commas texts).toList rest := by
  induction h with
  | nil => exact .nil rest
  | @cons ts text items texts hfirst hlater ih =>
    cases hlater with
    | nil => exact hfirst rest hrest
    | cons hsecond hlater =>
      rw [commas, String.intercalate_cons_cons, String.toList_append, String.toList_append,
        List.append_assoc]
      refine .append (hfirst _ (by simp [EndsItem])) ?_
      exact .append (writes_sign rfl (by decide) (by decide) _) ih.blank

theorem debugAll_eq_map (vs : List Value) : debugAll vs = vs.map debug := by
  induction vs with
  | nil => rfl
  | cons v vs ih => rw [debugAll, ih, List.map_cons]

-- The items of an array or a tuple, up to the bracket that closes it.
theorem writes_items_before {items : List Value}
    (h : ∀ v ∈ items, ∀ rest, EndsItem rest → Writes v.toNode.tokens v.debug.toList rest)
    {c : Char} (hc : c = ']' ∨ c = ')') {closing : Token} (hclosing : Writes [closing] [c] rest) :
    Writes (Render.commas (Node.tokensAll (toNodes items)) ++ [closing])
      ((commas (debugAll items)).toList ++ [c]) rest := by
  refine .append ?_ hclosing
  rw [debugAll_eq_map, Node.tokensAll_eq_map, toNodes_eq_map, List.map_map]
  refine writes_commas ?_ ?_
  · exact List.forall₂_map_left_iff.2 (List.forall₂_map_right_iff.2 (List.forall₂_same.2 h))
  · simpa [EndsItem] using Or.inr hc

theorem tupleItems_of_two_le {items : List (List Token)} (h : 2 ≤ items.length) :
    Render.tupleItems items = Render.commas items := by
  match items with
  | [] => rfl
  | [_] => simp at h
  | _ :: _ :: _ => rfl

-- The text of a value writes out its expression.
theorem writes_toNode {v : Value} (h : v.IsReadable) :
    ∀ rest, EndsItem rest → Writes v.toNode.tokens v.debug.toList rest := by
  induction h with
  | null => exact fun rest hrest => writes_name (by decide) (by decide) hrest
  | bool b =>
    intro rest hrest
    cases b with
    | true => exact writes_name (by decide) (by decide) hrest
    | false => exact writes_name (by decide) (by decide) hrest
  | @int n =>
    intro rest hrest
    cases n with
    | ofNat n =>
      have htext : (int (.ofNat n)).debug.toList = Nat.toDigits 10 n := Nat.toList_repr
      have hnode : (int (.ofNat n)).toNode = .literal .unknown (.int n) (.str "Integer") := by
        rw [toNode, if_neg (show ¬Int.ofNat n < 0 from Int.not_lt.2 (Int.natCast_nonneg n))]
        rfl
      rw [htext, hnode]
      exact writes_integer n hrest
    | negSucc n =>
      have htext : (int (.negSucc n)).debug.toList = ['-'] ++ Nat.toDigits 10 (n + 1) := by
        rw [← Nat.toList_repr]
        exact String.toList_append
      have hnode : (int (.negSucc n)).toNode = .unary .unknown (.str "-")
          (.literal .unknown (.int (n + 1 : Nat)) (.str "Integer")) := by
        rw [toNode, if_pos (Int.negSucc_lt_zero n)]
        rfl
      rw [htext, hnode]
      exact (writes_sign rfl (by decide) (by decide) _).append (writes_integer (n + 1) hrest)
  | @str s plain =>
    intro rest hrest
    have htext : (str s).debug.toList = '\x22' :: s.toList ++ ['\x22'] := by
      rw [debug, String.toList_append, String.toList_append]
      rfl
    have hwritten : Token.IsWritten .string s.toList ('\x22' :: s.toList ++ ['\x22']) rest :=
      ⟨.string (.inr rfl) plain, .closed (.inr rfl) plain rfl rfl⟩
    rw [htext]
    exact .one (congrArg Tree.str String.ofList_toList.symm) hwritten
  | @array items _ ih =>
    intro rest hrest
    have htext : (array items).debug.toList =
        ['['] ++ ((commas (debugAll items)).toList ++ [']']) := by
      rw [debug, String.toList_append, String.toList_append, List.append_assoc]
      rfl
    rw [htext]
    exact (writes_sign rfl (by decide) (by decide) _).append
      (writes_items_before ih (.inl rfl) (writes_sign rfl (by decide) (by decide) rest))
  | @tuple items size _ ih =>
    intro rest hrest
    have htext : (tuple items).debug.toList =
        ['('] ++ ((commas (debugAll items)).toList ++ [')']) := by
      rw [debug, String.toList_append, String.toList_append, List.append_assoc]
      rfl
    have hsize : 2 ≤ (Node.tokensAll (toNodes items)).length := by
      rwa [Node.tokensAll_eq_map, toNodes_eq_map, List.length_map, List.length_map]
    rw [htext, toNode, Node.tokens, tupleItems_of_two_le hsize]
    exact (writes_sign rfl (by decide) (by decide) _).append
      (writes_items_before ih (.inr rfl) (writes_sign rfl (by decide) (by decide) rest))

end Text

theorem hasText_of_isReadable {v : Value} (h : v.IsReadable) : v.hasText := by
  induction h with
  | array _ ih => exact haveText_eq_true ih
  | tuple _ _ ih => exact haveText_eq_true ih
  | _ => rfl

theorem equalAll_self {vs : List Value} (h : ∀ v ∈ vs, v.equal v = .ok true) :
    equalAll vs vs = .ok true := by
  induction vs with
  | nil => rfl
  | cons v vs ih =>
    obtain ⟨hv, hvs⟩ := List.forall_mem_cons.1 h
    rw [equalAll, hv]
    exact ih hvs

theorem equal_self {v : Value} (h : v.IsReadable) : v.equal v = .ok true := by
  induction h with
  | array _ ih =>
    rw [equal, if_pos rfl]
    exact equalAll_self ih
  | tuple _ _ ih =>
    rw [equal, if_pos rfl]
    exact equalAll_self ih
  | null => rfl
  | bool b => exact congrArg Except.ok (decide_eq_true rfl)
  | int => exact congrArg Except.ok (decide_eq_true rfl)
  | str => exact congrArg Except.ok (decide_eq_true rfl)

end Value

namespace Eval

variable {α β : Type} {m : Eval α} {a : α}

theorem emitted_eq (level : Int) (event : Event) (s : State) :
    emitted level event s = { s with trace := (emitted level event s).trace } := by
  unfold emitted
  split <;> rfl

-- The constants that values are written with mean what they do at first.
structure IsSeeded (c : Chain Value) : Prop where
  null : c.lookup? "null" = some .null
  truth (b : Bool) : c.lookup? (Value.truth b) = some (.bool b)

-- A computation that gives this value and only adds to the trace.
def Yields (m : Eval α) (a : α) : Prop :=
  ∀ s : State, IsSeeded s.scopes → ∃ trace, m s = .ok a { s with trace }

namespace Yields

theorem pure (a : α) : Yields (Pure.pure a) a := fun s _ => ⟨s.trace, rfl⟩

theorem bind {f : α → Eval β} {b : β} (hm : Yields m a) (hf : Yields (f a) b) :
    Yields (m >>= f) b := by
  intro s hs
  obtain ⟨trace, hfirst⟩ := hm s hs
  obtain ⟨later, hsecond⟩ := hf { s with trace } hs
  refine ⟨later, ?_⟩
  simp only [Bind.bind, EStateM.bind, hfirst, hsecond]

theorem lookup {name : String} {v : Value}
    (h : ∀ c : Chain Value, IsSeeded c → c.lookup? name = some v) :
    Yields (Eval.lookup (.str name)) v := by
  intro s hs
  have hlookup : Eval.lookup (.str name) s =
      Eval.lift (Name.lookup s.scopes.lookup? (.str name)) s := rfl
  rw [hlookup, Name.lookup_str_of_some (h s.scopes hs)]
  exact ⟨s.trace, rfl⟩

theorem emit {event : Event} (h : event.fault? = none) (level : Int) :
    Yields (Eval.emit level event) () := by
  intro s _
  rw [emit_eq_modify h]
  exact ⟨_, congrArg (EStateM.Result.ok ()) (emitted_eq level event s)⟩

theorem located (h : Yields m a) (place : Place) : Yields (Eval.located place m) a := by
  intro s hs
  obtain ⟨trace, hm⟩ := h s hs
  exact ⟨trace, by rw [Eval.located, hm]⟩

-- Visiting a node is only seen in the trace.
theorem visit {v : Value} {m : Eval Value} (h : Yields m v) (level : Int) (node : Node) :
    Yields (Eval.visit level node m) v := by
  unfold Eval.visit
  split
  · exact (emit rfl level).bind (h.located _)
  · exact h

-- A sign in front of a number does not wrap around.
theorem negation {n : Int} (low : Word.least ≤ -n) (high : -n ≤ Word.greatest) :
    Yields (Eval.result ((Value.int n).unary (.str "-"))) (.int (-n)) := by
  have hwrap : Word.wrap (-n) = -n := by
    simp only [Word.least, Word.greatest] at low high
    exact Int.bmod_eq_of_le (by omega) (by omega)
  have hunary : (Value.int n).unary (.str "-") = .ok (.int (-n)) := by
    simp [Value.unary, hwrap]
  rw [hunary]
  exact fun s _ => ⟨s.trace, rfl⟩

end Yields

theorem yields_toNodes {level : Int} {call : Caller} {vs : List Value}
    (h : ∀ v ∈ vs, ∀ node, v.toNode.Twin (fun _ _ => True) node → Yields (eval level call node) v)
    {nodes : List Node}
    (hnodes : List.Forall₂ (Node.Twin fun _ _ => True) (Value.toNodes vs) nodes) :
    Yields (evalItems level call (.list nodes)) vs := by
  rw [evalItems]
  induction vs generalizing nodes with
  | nil =>
    cases hnodes
    rw [evalAll]
    exact .pure []
  | cons v vs ih =>
    obtain ⟨hv, hvs⟩ := List.forall_mem_cons.1 h
    cases hnodes with
    | cons hnode hnodes =>
      rw [evalAll]
      exact (hv _ hnode).bind ((ih hvs hnodes).bind (.pure _))

theorem yields_number (level : Int) (call : Caller) (place : Place) (n : Int) :
    Yields (eval level call (.literal place (.int n) (.str "Integer"))) (.int n) := by
  rw [eval]
  exact .visit (.pure _) level _

-- Wherever the parts of a value's expression stand.
theorem yields_toNode (level : Int) (call : Caller) {v : Value} (h : v.IsReadable) :
    ∀ node, v.toNode.Twin (fun _ _ => True) node → Yields (eval level call node) v := by
  induction h with
  | null =>
    intro node hnode
    cases hnode with
    | ident =>
      rw [eval]
      exact (Yields.lookup fun _ hc => hc.null).visit level _
  | bool b =>
    intro node hnode
    cases hnode with
    | ident =>
      rw [eval]
      exact (Yields.lookup fun _ hc => hc.truth b).visit level _
  | @int n low high =>
    intro node hnode
    rw [Value.toNode] at hnode
    split at hnode
    · cases hnode with
      | unary _ _ hoperand =>
        cases hoperand with
        | literal =>
          have hsign := Yields.negation (n := -n) (by omega) (by omega)
          rw [Int.neg_neg] at hsign
          rw [eval]
          exact .visit (.bind (yields_number level call _ (-n)) hsign) level _
    · cases hnode with
      | literal => exact yields_number level call _ n
  | str =>
    intro node hnode
    cases hnode with
    | literal =>
      rw [eval]
      exact (Yields.pure _).visit level _
  | @array items _ ih =>
    intro node hnode
    rw [Value.toNode] at hnode
    cases hnode with
    | array _ helements =>
      cases helements with
      | list each =>
        rw [eval]
        exact .visit (.bind (yields_toNodes ih each) (.pure _)) level _
  | @tuple items _ _ ih =>
    intro node hnode
    rw [Value.toNode] at hnode
    cases hnode with
    | tuple _ helements =>
      cases helements with
      | list each =>
        rw [eval]
        exact .visit (.bind (yields_toNodes ih each) (.pure _)) level _

section Programs

variable {level depth : Int} {node : Node} {v : Value}

-- A program that is one expression has its value.
theorem yields_runFrom [Machine] (hroom : Settings.hasRoom depth node) (htext : v.hasText)
    (h : Yields (eval level (invoke level depth depth.toNat) node) v) :
    Yields (runFrom level depth (.list [node])) v := by
  have hsequence :
      Yields (evalSequence level (invoke level depth depth.toNat) .null [node]) v := by
    rw [evalSequence]
    refine h.bind ?_
    rw [evalSequence]
    exact .pure v
  have hexecute : Yields (execute level depth (.list [node])) v := by
    have hfitting : [node].takeWhile (Settings.hasRoom depth) = [node] := by simp [hroom]
    simp only [execute, hfitting, if_true]
    exact hsequence.bind (.pure v)
  intro s hs
  obtain ⟨trace, hend⟩ := hexecute s hs
  rw [runFrom_of_ok hend, finish_of_hasText htext]
  exact ⟨_, congrArg (EStateM.Result.ok v) (emitted_eq level _ _)⟩

theorem yields_run [Machine] (hstack : Settings.HasStack depth)
    (hroom : Settings.hasRoom depth node)
    (htext : v.hasText) (h : Yields (eval level (invoke level depth depth.toNat) node) v)
    (place : Place) : Yields (run ⟨level, some depth⟩ (.program place (.list [node]))) v := by
  intro s hs
  rw [run_of_checkStack (Settings.checkStack_of_hasStack level hstack) rfl rfl, emitted_eq]
  exact yields_runFrom hroom htext h _ hs

end Programs

end Eval

namespace Session

theorem isSeeded_start (settings : Settings) (input : String) :
    Eval.IsSeeded (start settings input).state.scopes where
  null := rfl
  truth b := by cases b <;> rfl

theorem runSource_of_run [Machine] {s : Session} {source : String} {program : Node} {v : Value}
    {t : State}
    (hparse : Node.parse source = .ok program)
    (hrun : Eval.run s.settings program s.state = .ok v t) :
    s.runSource source = (.ok v, { s with state := t }) := by
  rw [runSource_of_parse hparse, perform, hrun]

-- Run as a program, the text of a value has this value, whatever the trace is. Nothing is written
-- or read, and no name is bound.
theorem runSource_debug [Machine] (level depth : Int) (input : String) {v : Value}
    (h : v.IsReadable)
    (hdepth : v.depth ≤ 64) (hlimit : 0 ≤ depth) (hstack : Settings.HasStack depth) :
    ∃ after, (start ⟨level, some depth⟩ input).runSource v.debug = (.ok v, after) ∧
      v.equal v = .ok true ∧ after.state.output = "" ∧
      after.state.scopes = (start ⟨level, some depth⟩ input).state.scopes ∧
      after.state.input = input.toList := by
  have hwrites := Value.writes_toNode h [] (by simp [Value.EndsItem])
  have hassign : v.toNode.unplaced.isAssign = false := by
    rw [Value.unplaced_toNode, Value.isAssign_toNode]
  have hnest : v.toNode.levels .nesting ≤ Grammar.maxNesting := by
    rw [Value.levels_toNode]
    exact hdepth
  have hroom : v.toNode.levels .room < Machine.room := by
    rw [Value.levels_toNode]
    exact Nat.lt_of_le_of_lt hdepth Machine.room_large
  obtain ⟨node, hparse, htwin⟩ :=
    Node.parse_of_writes (Value.isExpression_toNode h) hassign hnest hroom hwrites
  rw [Value.unplaced_toNode] at htwin
  have hfits : Settings.hasRoom depth node := by
    have hnesting := htwin.nesting
    have hle := Value.nesting_toNode_le v
    have hlevels := Machine.levels_large hlimit
    exact decide_eq_true (by omega)
  obtain ⟨trace, hrun⟩ := Eval.yields_run hstack hfits (Value.hasText_of_isReadable h)
    (Eval.yields_toNode level _ h node htwin) .start _ (isSeeded_start ⟨level, some depth⟩ input)
  exact ⟨_, runSource_of_run hparse hrun, Value.equal_self h, rfl, rfl, rfl⟩

section

attribute [local instance] Machine.usual

-- `("a//b", [-9223372036854775807, null])`
theorem runSource_debug_tuple :
    let v := Value.tuple [.str "a//b", .array [.int (-9223372036854775807), .null]]
    ∃ after, (start ⟨0, some 1000⟩ "").runSource v.debug = (.ok v, after) ∧
      v.equal v = .ok true ∧ after.state.output = "" ∧
      after.state.scopes = (start ⟨0, some 1000⟩ "").state.scopes ∧
      after.state.input = "".toList := by
  refine runSource_debug 0 1000 "" ?_ (by decide) (by decide) ⟨by decide, by decide⟩
  have harray : Value.IsReadable (.array [.int (-9223372036854775807), .null]) := by
    refine .array ?_
    simp only [List.mem_cons, List.not_mem_nil, or_false, forall_eq_or_imp, forall_eq]
    exact ⟨.int (by decide) (by decide), .null⟩
  refine .tuple (by decide) ?_
  simp only [List.mem_cons, List.not_mem_nil, or_false, forall_eq_or_imp, forall_eq]
  exact ⟨.str (by decide), harray⟩

end

end Session

end TernLang
