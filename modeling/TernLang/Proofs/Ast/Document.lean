import TernLang.Ast.Document
import TernLang.Proofs.Ast.Codec
import TernLang.Proofs.Json.RoundTrip
import TernLang.Proofs.Syntax.Places

-- The documents of parsed programs: they are written and read back as they are, and the programs
-- are read back from them.

namespace TernLang

namespace Tree

-- A property that documents have when their parts have it.
structure IsHereditary (Q : Tree → Prop) : Prop where
  null : Q .null
  str (s : String) : Q (.str s)
  list {ts : List Tree} (items : ∀ t ∈ ts, Q t) : Q (.list ts)
  node {type : NodeType} {line column : Tree} {fields : List Tree} (first : Q line)
    (second : Q column) (count : fields.length = type.fields.length) (inside : ∀ t ∈ fields, Q t) :
    Q (.node type line column fields)

theorem isHereditary_isWhole : IsHereditary IsWhole := ⟨.null, .str, .list, .node⟩

-- A document that can be written as text and read again.
structure IsLasting (t : Tree) : Prop where
  whole : t.IsWhole
  writable : t.toJson.IsWritable

theorem isLasting_int {n : Int} (h : n.natAbs < 10 ^ Reading.digitLimit) : IsLasting (.int n) :=
  ⟨.int n, .int h⟩

theorem isHereditary_isLasting : IsHereditary IsLasting where
  null := ⟨.null, .null⟩
  str s := ⟨.str s, .str s⟩
  list {ts} h := by
    refine ⟨.list fun t ht => (h t ht).whole, ?_⟩
    rw [toJson, toJsonList_eq_map]
    refine .list fun j hj => ?_
    obtain ⟨t, ht, rfl⟩ := List.mem_map.1 hj
    exact (h t ht).writable
  node {type line column fields} hline hcolumn hcount hfields := by
    refine ⟨.node hline.whole hcolumn.whole hcount fun t ht => (hfields t ht).whole, ?_⟩
    rw [toJson, toJsonList_eq_map]
    refine .object (List.forall_mem_cons.2 ⟨.str _, List.forall_mem_cons.2 ⟨hline.writable,
      List.forall_mem_cons.2 ⟨hcolumn.writable, fun m hm => ?_⟩⟩⟩)
    obtain ⟨t, ht, hwritten⟩ := List.mem_map.1 (List.of_mem_zip hm).2
    rw [← hwritten]
    exact (hfields t ht).writable

end Tree

namespace Place

open TernLang.Tree

theorem Within.isLasting {bound : Int} {p : Place} (h : p.Within bound)
    (hbound : bound < 10 ^ Reading.digitLimit) : p.line.IsLasting ∧ p.column.IsLasting := by
  obtain ⟨q, ⟨⟨hline, hline'⟩, hcolumn, hcolumn'⟩, rfl⟩ := h
  have hshort (n : Int) (hlow : 0 ≤ n) (hhigh : n ≤ bound) :
      n.natAbs < 10 ^ Reading.digitLimit := by
    have hcast : ((n.natAbs : Nat) : Int) < ((10 ^ Reading.digitLimit : Nat) : Int) := by
      rw [Int.natAbs_of_nonneg hlow]
      push_cast
      omega
    exact Int.ofNat_lt.1 hcast
  exact ⟨isLasting_int (hshort _ hline hline'), isLasting_int (hshort _ hcolumn hcolumn')⟩

end Place

namespace Node

open TernLang.Tree

-- A node whose document has a property, and which is read from it.
structure IsStored (Q : Tree → Prop) (n : Node) : Prop where
  tree : Q n.toTree
  toNode : n.toTree.toNode = n
  notNull : n.toTree ≠ .null

theorem toTrees_eq_map (ns : List Node) : toTrees ns = ns.map toTree := by
  induction ns with
  | nil => rfl
  | cons n ns ih => rw [toTrees, ih, List.map_cons]

theorem toNodes_eq_map (ts : List Tree) : toNodes ts = ts.map Tree.toNode := by
  induction ts with
  | nil => rfl
  | cons t ts ih => rw [toNodes, ih, List.map_cons]

section Stored

variable {Q : Tree → Prop} {l : Leaves}

theorem toItems_toTreeItems {ns : List Node} (h : ∀ n ∈ ns, n.IsStored Q) :
    (toTreeItems (.list ns)).toItems = .list ns := by
  rw [toTreeItems, toTrees_eq_map, toItems, toNodes_eq_map, List.map_map]
  have hid : ns.map (Tree.toNode ∘ toTree) = ns.map id :=
    List.map_congr_left fun n hn => (h n hn).toNode
  rw [hid, List.map_id]

theorem optional_toTree? {n : Option Node} (h : ∀ m ∈ n, m.IsStored Q) :
    Tree.optional (toTree? n) (toTree? n).toNode = n := by
  cases n with
  | none => rfl
  | some n =>
    have hstored := h n rfl
    rw [toTree?, hstored.toNode]
    unfold Tree.optional
    split
    · rename_i hnull
      exact absurd hnull hstored.notNull
    · rfl

variable (hQ : IsHereditary Q) (hplace : ∀ p, l.place p → Q p.line ∧ Q p.column)
  (hliteral : ∀ v t, IsLiteral v t → Q v ∧ Q t)

include hQ

theorem tree_toTreeItems {ns : List Node} (h : ∀ n ∈ ns, n.IsStored Q) :
    Q (toTreeItems (.list ns)) := by
  rw [toTreeItems, toTrees_eq_map]
  refine hQ.list fun t ht => ?_
  obtain ⟨n, hn, rfl⟩ := List.mem_map.1 ht
  exact (h n hn).tree

theorem tree_toTree? {n : Option Node} (h : ∀ m ∈ n, m.IsStored Q) : Q (toTree? n) := by
  cases n with
  | none => exact hQ.null
  | some n => exact (h n rfl).tree

include hplace

-- A node with a place and fields of its own.
theorem IsStored.ofEntry {n : Node} {type : NodeType} {p : Place} {fields : List Tree}
    (hp : l.place p) (hentry : n.toTree = entry type p fields)
    (hcount : fields.length = type.fields.length) (hfields : ∀ t ∈ fields, Q t)
    (hnode : (entry type p fields).toNode = n) : n.IsStored Q := by
  obtain ⟨hline, hcolumn⟩ := hplace p hp
  refine ⟨?_, ?_, ?_⟩
  · rw [hentry]
    exact hQ.node hline hcolumn hcount hfields
  · rw [hentry, hnode]
  · simp [hentry, entry]

include hliteral

theorem isStored_of_isExpression {n : Node} (h : n.IsExpression l) : n.IsStored Q := by
  induction h with
  | @literal p v t place value =>
    obtain ⟨hvalue, htype⟩ := hliteral v t value
    exact .ofEntry hQ hplace place rfl rfl (by simp [hvalue, htype]) rfl
  | ident place name => exact .ofEntry hQ hplace place rfl rfl (by simp [hQ.str]) rfl
  | array place _ ih =>
    refine .ofEntry hQ hplace place rfl rfl (by simp [tree_toTreeItems hQ ih]) ?_
    simp only [entry, Tree.toNode, toItems_toTreeItems ih]
  | tuple place _ _ ih =>
    refine .ofEntry hQ hplace place rfl rfl (by simp [tree_toTreeItems hQ ih]) ?_
    simp only [entry, Tree.toNode, toItems_toTreeItems ih]
  | compare c place _ _ hleft hright =>
    refine .ofEntry hQ hplace place rfl rfl (by simp [hQ.str, hleft.tree, hright.tree]) ?_
    simp only [entry, Tree.toNode, hleft.toNode, hright.toNode]
  | binary c place _ _ hleft hright =>
    refine .ofEntry hQ hplace place rfl rfl (by simp [hQ.str, hleft.tree, hright.tree]) ?_
    simp only [entry, Tree.toNode, hleft.toNode, hright.toNode]
  | unary place _ _ hoperand =>
    refine .ofEntry hQ hplace place rfl rfl (by simp [hQ.str, hoperand.tree]) ?_
    simp only [entry, Tree.toNode, hoperand.toNode]
  | assign place _ _ _ hleft hright =>
    refine .ofEntry hQ hplace place rfl rfl (by simp [hleft.tree, hright.tree]) ?_
    simp only [entry, Tree.toNode, hleft.toNode, hright.toNode]
  | member place _ _ hleft hright =>
    refine .ofEntry hQ hplace place rfl rfl (by simp [hleft.tree, hright.tree]) ?_
    simp only [entry, Tree.toNode, hleft.toNode, hright.toNode]
  | index place _ _ hleft hright =>
    refine .ofEntry hQ hplace place rfl rfl (by simp [hleft.tree, hright.tree]) ?_
    simp only [entry, Tree.toNode, hleft.toNode, hright.toNode]
  | convert place _ _ hleft hright =>
    refine .ofEntry hQ hplace place rfl rfl (by simp [hleft.tree, hright.tree]) ?_
    simp only [entry, Tree.toNode, hleft.toNode, hright.toNode]
  | call place _ _ hfunction hargs =>
    refine .ofEntry hQ hplace place rfl rfl
      (by simp [hfunction.tree, tree_toTreeItems hQ hargs]) ?_
    simp only [entry, Tree.toNode, hfunction.toNode, toItems_toTreeItems hargs]

theorem isStored_of_isPart {part : Part} {n : Node} (h : n.IsPart l part) : n.IsStored Q := by
  have hoption {o : Option Node} (ho : ∀ m ∈ o, m.IsExpression l) : ∀ m ∈ o, m.IsStored Q :=
    fun m hm => isStored_of_isExpression hQ hplace hliteral (ho m hm)
  induction h with
  | parameter place name type =>
    refine .ofEntry hQ hplace place rfl rfl
      (by simp [hQ.str, tree_toTree? hQ (hoption type)]) ?_
    simp only [entry, Tree.toNode, optional_toTree? (hoption type)]
  | block place _ ih =>
    refine .ofEntry hQ hplace place rfl rfl (by simp [tree_toTreeItems hQ ih]) ?_
    simp only [entry, Tree.toNode, toItems_toTreeItems ih]
  | arm place label _ hbody =>
    have hlabel := isStored_of_isExpression hQ hplace hliteral label
    refine .ofEntry hQ hplace place rfl rfl (by simp [hlabel.tree, hbody.tree]) ?_
    simp only [entry, Tree.toNode, hlabel.toNode, hbody.toNode]
  | declare place _ target value =>
    have htarget := isStored_of_isExpression hQ hplace hliteral target
    refine .ofEntry hQ hplace place rfl rfl
      (by simp [htarget.tree, tree_toTree? hQ (hoption value)]) ?_
    simp only [entry, Tree.toNode, htarget.toNode, optional_toTree? (hoption value)]
  | function place name _ result _ hparameters hbody =>
    refine .ofEntry hQ hplace place rfl rfl (by simp [hQ.str, tree_toTreeItems hQ hparameters,
      tree_toTree? hQ (hoption result), hbody.tree]) ?_
    simp only [entry, Tree.toNode, toItems_toTreeItems hparameters,
      optional_toTree? (hoption result), hbody.toNode]
  | conditional place condition _ _ hthen helse =>
    have hcondition := isStored_of_isExpression hQ hplace hliteral condition
    refine .ofEntry hQ hplace place rfl rfl
      (by simp [hcondition.tree, hthen.tree, tree_toTree? hQ helse]) ?_
    simp only [entry, Tree.toNode, hcondition.toNode, hthen.toNode, optional_toTree? helse]
  | cases place scrutinee _ harms =>
    have hscrutinee := isStored_of_isExpression hQ hplace hliteral scrutinee
    refine .ofEntry hQ hplace place rfl rfl
      (by simp [hscrutinee.tree, tree_toTreeItems hQ harms]) ?_
    simp only [entry, Tree.toNode, hscrutinee.toNode, toItems_toTreeItems harms]
  | ofBlock _ ih => exact ih
  | ofExpression expression => exact isStored_of_isExpression hQ hplace hliteral expression

theorem isStored_of_isProgram {n : Node} (h : n.IsProgram l) : n.IsStored Q := by
  obtain ⟨place, statements⟩ := h
  have hall := fun n hn => isStored_of_isPart hQ hplace hliteral (statements n hn)
  refine .ofEntry hQ hplace place rfl rfl (by simp [tree_toTreeItems hQ hall]) ?_
  simp only [entry, Tree.toNode, toItems_toTreeItems hall]

end Stored

-- A node whose document can be written, and which is read from it.
structure IsKept (n : Node) : Prop where
  lasting : n.toTree.IsLasting
  toNode : n.toTree.toNode = n
  notNull : n.toTree ≠ .null

theorem isLasting_of_isLiteral {v t : Tree} (h : IsLiteral v t) : v.IsLasting ∧ t.IsLasting := by
  have hstr := isHereditary_isLasting.str
  cases h with
  | integer n low high =>
    refine ⟨isLasting_int ?_, hstr _⟩
    have hpower : 10 ^ 19 ≤ 10 ^ Reading.digitLimit := Nat.pow_le_pow_right (by decide) (by decide)
    have hword : n.natAbs < 10 ^ 19 := by
      unfold Word.greatest at high
      omega
    exact Nat.lt_of_lt_of_le hword hpower
  | real x cs text value =>
    have hread : Reading.looseReal? cs = some x := by
      simp only [Grammar.realOf, String.toList_ofList] at value
      split at value
      · cases value
        assumption
      · cases value
    exact ⟨⟨.real x, .real (Reading.isNonnegative_of_isRealText text hread)⟩, hstr _⟩
  | string s => exact ⟨hstr s, hstr _⟩
  | null => exact ⟨isHereditary_isLasting.null, hstr _⟩

-- The document of a parsed program is read back, and the program from it. The numbers of lines and
-- columns must not be too long to be read.
theorem isKept_of_parse [Machine] {source : String} {program : Node}
    (h : Node.parse source = .ok program)
    (hlength : source.toList.length + 1 < 10 ^ Reading.digitLimit) : program.IsKept := by
  have hplace (p : Place) (hp : p.Within (source.toList.length + 1)) :
      p.line.IsLasting ∧ p.column.IsLasting := hp.isLasting (by exact_mod_cast hlength)
  obtain ⟨hlasting, hnode, hnull⟩ := isStored_of_isProgram isHereditary_isLasting hplace
    (fun _ _ => isLasting_of_isLiteral) (isProgram_within_of_parse h)
  exact ⟨hlasting, hnode, hnull⟩

theorem isStored_of_parse [Machine] {source : String} {program : Node}
    (h : Node.parse source = .ok program) :
    program.IsStored IsWhole := by
  refine isStored_of_isProgram isHereditary_isWhole ?_ ?_ (isProgram_within_of_parse h)
  · rintro p ⟨q, -, rfl⟩
    exact ⟨.int _, .int _⟩
  · intro v t hliteral
    obtain ⟨hv, ht⟩ := isLasting_of_isLiteral hliteral
    exact ⟨hv.whole, ht.whole⟩

end Node

end TernLang
