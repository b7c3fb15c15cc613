import TernLang.Proofs.Ast.Twin
import TernLang.Proofs.Syntax.Lexemes

-- Programs that are read from a text are well-formed, with names that are no keywords, and nowhere
-- do more blocks, brackets and signs stand inside each other than the grammar allows.

namespace TernLang

namespace Node

-- The nodes right below a node.
def children : Node → List Node
  | program _ (.list ns) | block _ (.list ns) | array _ (.list ns) | tuple _ (.list ns) => ns
  | compare _ _ a b | binary _ _ a b | assign _ a b | member _ a b | index _ a b | convert _ a b
  | arm _ a b => [a, b]
  | unary _ _ a => [a]
  | call _ f (.list ns) | cases _ f (.list ns) => f :: ns
  | call _ f (.other _) | cases _ f (.other _) => [f]
  | declare _ a b => a :: b.toList
  | parameter _ _ a => a.toList
  | function _ _ (.list ns) r b => ns ++ r.toList ++ [b]
  | function _ _ (.other _) r b => r.toList ++ [b]
  | conditional _ a b c => [a, b] ++ c.toList
  | program _ (.other _) | block _ (.other _) | array _ (.other _) | tuple _ (.other _)
  | literal .. | ident .. | stray _ => []

@[simp]
theorem children_array (p : Place) (items : Items Node) :
    (array p items).children = items.listed := by
  cases items <;> rfl

@[simp]
theorem children_tuple (p : Place) (items : Items Node) :
    (tuple p items).children = items.listed := by
  cases items <;> rfl

@[simp]
theorem children_block (p : Place) (items : Items Node) :
    (block p items).children = items.listed := by
  cases items <;> rfl

@[simp]
theorem children_program (p : Place) (items : Items Node) :
    (program p items).children = items.listed := by
  cases items <;> rfl

@[simp]
theorem children_call (p : Place) (f : Node) (items : Items Node) :
    (call p f items).children = f :: items.listed := by
  cases items <;> rfl

@[simp]
theorem children_cases (p : Place) (n : Node) (items : Items Node) :
    (cases p n items).children = n :: items.listed := by
  cases items <;> rfl

@[simp]
theorem children_function (p : Place) (name : Tree) (items : Items Node) (r : Option Node)
    (b : Node) : (function p name items r b).children = items.listed ++ r.toList ++ [b] := by
  cases items <;> rfl

theorem nesting_pos (n : Node) : 0 < n.nesting := by
  cases n <;> simp only [nesting] <;> omega

theorem Twin.of_mem_children {R : Place → Place → Prop} {n m : Node} (h : n.Twin R n)
    (hm : m ∈ n.children) : m.Twin R m := by
  cases h with
  | program _ ha | block _ ha | array _ ha | tuple _ ha =>
    exact Items.twin_self.1 ha m (by simpa using hm)
  | compare _ _ ha hb | binary _ _ ha hb | assign _ ha hb | member _ ha hb | index _ ha hb
  | convert _ ha hb | arm _ ha hb =>
    simp only [children, List.mem_cons, List.not_mem_nil, or_false] at hm
    rcases hm with rfl | rfl
    · exact ha
    · exact hb
  | unary _ _ ha =>
    obtain rfl := List.mem_singleton.1 hm
    exact ha
  | call _ ha hb =>
    rw [children_call] at hm
    rcases List.mem_cons.1 hm with rfl | hm
    · exact ha
    · exact Items.twin_self.1 hb m hm
  | cases _ ha hb =>
    rw [children_cases] at hm
    rcases List.mem_cons.1 hm with rfl | hm
    · exact ha
    · exact Items.twin_self.1 hb m hm
  | declare _ ha hb =>
    rcases List.mem_cons.1 hm with rfl | hm
    · exact ha
    · exact rel_self.1 hb m (Option.mem_toList.1 hm)
  | parameter _ _ ha => exact rel_self.1 ha m (Option.mem_toList.1 hm)
  | function _ _ ha hb hc =>
    simp only [children_function, List.mem_append, Option.mem_toList, List.mem_singleton] at hm
    rcases hm with (hm | hm) | rfl
    · exact Items.twin_self.1 ha m hm
    · exact rel_self.1 hb m hm
    · exact hc
  | conditional _ ha hb hc =>
    simp only [children, List.mem_append, List.mem_cons, List.not_mem_nil, or_false,
      Option.mem_toList] at hm
    rcases hm with (rfl | rfl) | hm
    · exact ha
    · exact hb
    · exact rel_self.1 hc m hm
  | literal | ident | stray => exact absurd hm List.not_mem_nil

theorem nesting_le_nestingAll {n : Node} {ns : List Node} (h : n ∈ ns) :
    n.nesting ≤ nestingAll ns := by
  induction ns with
  | nil => simp at h
  | cons m ns ih =>
    rw [nestingAll]
    rcases List.mem_cons.1 h with rfl | h
    · exact Nat.le_max_left ..
    · exact Nat.le_trans (ih h) (Nat.le_max_right ..)

theorem nesting_le_nestingSome {n : Node} {o : Option Node} (h : n ∈ o) :
    n.nesting ≤ nestingSome o := by
  rw [Option.mem_def.1 h, nestingSome]

theorem nesting_lt_of_mem_children {n m : Node} (h : m ∈ n.children) : m.nesting < n.nesting := by
  have hall {ns : List Node} : m ∈ ns → m.nesting ≤ nestingAll ns := nesting_le_nestingAll
  have hsome {o : Option Node} : m ∈ o → m.nesting ≤ nestingSome o := nesting_le_nestingSome
  fun_cases children n <;>
    simp only [children, nesting, nestingItems, List.mem_cons, List.mem_append,
      Option.mem_toList, List.not_mem_nil, or_false] at h ⊢
  all_goals grind

-- The nodes that the grammar counts as a level.
def isLevel : Node → Bool
  | block .. | array .. | tuple .. | unary .. => true
  | _ => false

-- A way down a tree from its root, which goes from a node to one right below it.
inductive Descends : Node → List Node → Prop where
  | here (n : Node) : Descends n [n]
  | down {n child : Node} {path : List Node} (below : child ∈ n.children)
    (later : Descends child path) : Descends n (n :: path)

-- No way down a tree has more levels.
def Bounded (k : Nat) (n : Node) : Prop := ∀ path, Descends n path → path.countP isLevel ≤ k

theorem Bounded.mono {k m : Nat} {n : Node} (h : n.Bounded k) (hle : k ≤ m) : n.Bounded m :=
  fun path hpath => Nat.le_trans (h path hpath) hle

theorem bounded_of_children {k : Nat} {n : Node} (h : ∀ child ∈ n.children, child.Bounded k) :
    n.Bounded (k + if n.isLevel then 1 else 0) := by
  intro path hpath
  cases hpath with
  | here => simp [List.countP_cons]
  | @down _ child path below later =>
    have hchild := h child below path later
    rw [List.countP_cons]
    omega

-- Only blocks, brackets and signs take a level.
theorem bounded_of_not_isLevel {k : Nat} {n : Node} (hlevel : n.isLevel = false)
    (h : ∀ child ∈ n.children, child.Bounded k) : n.Bounded k := by
  have hall := bounded_of_children h
  rwa [hlevel] at hall

theorem bounded_of_isLevel {k : Nat} {n : Node} (hlevel : n.isLevel)
    (h : ∀ child ∈ n.children, child.Bounded k) : n.Bounded (k + 1) := by
  have hall := bounded_of_children h
  rwa [hlevel] at hall

theorem forall_mem_pair {P : Node → Prop} {a b : Node} (ha : P a) (hb : P b) :
    ∀ n ∈ [a, b], P n :=
  List.forall_mem_cons.2 ⟨ha, List.forall_mem_singleton.2 hb⟩

-- As many levels as may still be opened bound those that are there.
def boundedRules (l : Leaves) : Grammar.Rules l where
  expression := Bounded
  part k _ := Bounded k
  literal _ _ := bounded_of_not_isLevel rfl (by simp [children])
  ident _ _ := bounded_of_not_isLevel rfl (by simp [children])
  parenthesized h := h.mono (Nat.le_succ _)
  array _ h := bounded_of_isLevel rfl h
  tuple _ _ h := bounded_of_isLevel rfl h
  unary _ _ h := bounded_of_isLevel rfl (List.forall_mem_singleton.2 h)
  compare _ _ _ _ left right := bounded_of_not_isLevel rfl (forall_mem_pair left right)
  binary _ _ _ _ left right := bounded_of_not_isLevel rfl (forall_mem_pair left right)
  assign _ _ target value := bounded_of_not_isLevel rfl (forall_mem_pair target value)
  member _ target property := bounded_of_not_isLevel rfl (forall_mem_pair target property)
  index _ target index := bounded_of_not_isLevel rfl (forall_mem_pair target index)
  convert _ value type := bounded_of_not_isLevel rfl (forall_mem_pair value type)
  call _ function arguments :=
    bounded_of_not_isLevel rfl (List.forall_mem_cons.2 ⟨function, arguments⟩)
  parameter _ _ type := bounded_of_not_isLevel rfl fun n hn => type n (Option.mem_toList.1 hn)
  block _ statements := bounded_of_isLevel rfl statements
  arm _ label body := bounded_of_not_isLevel rfl (forall_mem_pair label body)
  declare _ _ target value := bounded_of_not_isLevel rfl
    (List.forall_mem_cons.2 ⟨target, fun n hn => value n (Option.mem_toList.1 hn)⟩)
  function _ _ parameters result body := bounded_of_not_isLevel rfl fun n hn => by
    simp only [children, List.mem_append, Option.mem_toList, List.mem_singleton] at hn
    rcases hn with (hn | hn) | rfl
    · exact parameters n hn
    · exact result n hn
    · exact body
  conditional _ condition thenBlock elseBlock := bounded_of_not_isLevel rfl fun n hn => by
    simp only [children, List.mem_append, Option.mem_toList] at hn
    rcases hn with hn | hn
    · exact forall_mem_pair condition thenBlock n hn
    · exact elseBlock n hn
  cases _ scrutinee arms :=
    bounded_of_not_isLevel rfl (List.forall_mem_cons.2 ⟨scrutinee, arms⟩)
  ofBlock := id
  ofExpression := id

-- Names are words, and no keywords.
def Leaves.named : Leaves :=
  ⟨fun _ => True, fun s => Token.IsWord s.toList ∧ s ∉ Token.keywords⟩

theorem fits_named_of_scan {source : String} {tokens : List Token}
    (h : Token.scan source = .ok tokens) : ∀ t ∈ tokens, t.Fits .named := by
  refine fun t ht => ⟨trivial, Token.text_of_scan (fun cs hword hfree => ?_) h t ht⟩
  exact ⟨by rwa [String.toList_ofList], hfree⟩

-- Whatever a text denotes is well-formed, and bounded in its levels.
theorem isProgram_and_bounded_of_parse [Machine] {source : String} {program : Node}
    (h : parse source = .ok program) :
    program.IsProgram .named ∧
      ∀ path, Descends program path → path.countP isLevel ≤ 64 := by
  unfold parse at h
  split at h
  · rename_i tokens hscan
    have htokens := fits_named_of_scan hscan
    refine ⟨isProgram_of_ofTokens trivial htokens h, ?_⟩
    obtain ⟨ss, rfl, hss⟩ := statements_of_ofTokens (boundedRules .named) htokens h
    exact bounded_of_not_isLevel rfl hss
  · exact absurd h (by simp)

section

attribute [local instance] Machine.usual

theorem isProgram_and_bounded_of_parse_array :
    ∃ program, parse "(a, b) = [-c];" = .ok program ∧ program.IsProgram .named ∧
      ∀ path, Descends program path → path.countP isLevel ≤ 64 := by
  have hread : (parse "(a, b) = [-c];").isOk := by decide +kernel
  cases hparse : parse "(a, b) = [-c];" with
  | ok program => exact ⟨program, rfl, isProgram_and_bounded_of_parse hparse⟩
  | error f =>
    rw [hparse] at hread
    exact absurd hread (by simp [Except.isOk, Except.toBool])

end

end Node

end TernLang
