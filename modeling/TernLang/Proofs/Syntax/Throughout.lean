import TernLang.Proofs.Syntax.Nesting

-- What holds of all nodes of a tree, and that the integers in a program fit a word.

namespace TernLang.Node

variable {P : Node → Prop} {n : Node}

-- `P` holds of every node on every way down the tree.
def Everywhere (P : Node → Prop) (n : Node) : Prop := ∀ path, Descends n path → ∀ k ∈ path, P k

theorem everywhere_iff : n.Everywhere P ↔ P n ∧ ∀ child ∈ n.children, child.Everywhere P := by
  constructor
  · intro h
    refine ⟨h [n] (.here n) n List.mem_cons_self, fun child hchild path hpath k hk => ?_⟩
    exact h (n :: path) (.down hchild hpath) k (List.mem_cons_of_mem _ hk)
  · rintro ⟨hroot, hbelow⟩ path hpath k hk
    cases hpath with
    | here =>
      obtain rfl := List.mem_singleton.1 hk
      exact hroot
    | @down _ child path below later =>
      rcases List.mem_cons.1 hk with rfl | hk
      · exact hroot
      · exact hbelow child below path later k hk

theorem Everywhere.root (h : n.Everywhere P) : P n := (everywhere_iff.1 h).1

theorem Everywhere.below (h : n.Everywhere P) : ∀ child ∈ n.children, child.Everywhere P :=
  (everywhere_iff.1 h).2

-- Whether `P` holds of every node down to a depth.
def holdsTo (P : Node → Prop) [DecidablePred P] : Nat → Node → Bool
  | 0, _ => true
  | k + 1, n => decide (P n) && n.children.all (holdsTo P k)

theorem holdsTo_iff [DecidablePred P] {k : Nat} (h : n.nesting ≤ k) :
    holdsTo P k n = true ↔ n.Everywhere P := by
  induction k generalizing n with
  | zero =>
    have hpos : 0 < n.nesting := by cases n <;> simp [nesting]
    omega
  | succ k ih =>
    rw [everywhere_iff, holdsTo, Bool.and_eq_true, decide_eq_true_iff, List.all_eq_true]
    refine and_congr_right fun _ => forall₂_congr fun child hchild => ih ?_
    have hless := nesting_lt_of_mem_children hchild
    omega

instance [DecidablePred P] : Decidable (n.Everywhere P) :=
  decidable_of_iff _ (holdsTo_iff (Nat.le_refl n.nesting))

-- An integer that is written in a program fits a word.
def LiteralFits : Node → Prop
  | literal _ (.int m) _ => Word.Fits m
  | _ => True

theorem literalFits_of_isLiteral {place : Place} {value type : Tree} (h : IsLiteral value type) :
    (literal place value type).LiteralFits := by
  cases h with
  | integer m low high =>
    have hleast : Word.least ≤ 0 := by decide
    exact ⟨Int.le_trans hleast low, high⟩
  | _ => trivial

theorem everywhere_literalFits_of_isExpression {l : Leaves} (h : n.IsExpression l) :
    n.Everywhere LiteralFits := by
  induction h with
  | literal _ hvalue =>
    exact everywhere_iff.2 ⟨literalFits_of_isLiteral hvalue, by simp [children]⟩
  | ident => exact everywhere_iff.2 ⟨trivial, by simp [children]⟩
  | array _ _ ih => exact everywhere_iff.2 ⟨trivial, ih⟩
  | tuple _ _ _ ih => exact everywhere_iff.2 ⟨trivial, ih⟩
  | unary _ _ _ ih => exact everywhere_iff.2 ⟨trivial, List.forall_mem_singleton.2 ih⟩
  | call _ _ _ ihf ihargs => exact everywhere_iff.2 ⟨trivial, List.forall_mem_cons.2 ⟨ihf, ihargs⟩⟩
  | compare _ _ _ _ iha ihb | binary _ _ _ _ iha ihb | assign _ _ _ _ iha ihb
  | member _ _ _ iha ihb | index _ _ _ iha ihb | convert _ _ _ iha ihb =>
    exact everywhere_iff.2 ⟨trivial, forall_mem_pair iha ihb⟩

theorem everywhere_literalFits_of_isPart {l : Leaves} {part : Part} (h : n.IsPart l part) :
    n.Everywhere LiteralFits := by
  have hexpression {e : Node} (he : e.IsExpression l) : e.Everywhere LiteralFits :=
    everywhere_literalFits_of_isExpression he
  induction h with
  | parameter _ _ htype =>
    refine everywhere_iff.2 ⟨trivial, fun n hn => ?_⟩
    exact hexpression (htype n (Option.mem_toList.1 hn))
  | block _ _ ih => exact everywhere_iff.2 ⟨trivial, ih⟩
  | arm _ hlabel _ ih =>
    exact everywhere_iff.2 ⟨trivial, forall_mem_pair (hexpression hlabel) ih⟩
  | declare _ _ htarget hvalue =>
    refine everywhere_iff.2 ⟨trivial, List.forall_mem_cons.2 ⟨hexpression htarget, fun n hn => ?_⟩⟩
    exact hexpression (hvalue n (Option.mem_toList.1 hn))
  | function _ _ _ hresult _ ihparameters ihbody =>
    refine everywhere_iff.2 ⟨trivial, fun n hn => ?_⟩
    simp only [children, List.mem_append, Option.mem_toList, List.mem_singleton] at hn
    rcases hn with (hn | hn) | rfl
    · exact ihparameters n hn
    · exact hexpression (hresult n hn)
    · exact ihbody
  | conditional _ hcondition _ _ ihthen ihelse =>
    refine everywhere_iff.2 ⟨trivial, fun n hn => ?_⟩
    simp only [children, List.mem_append, Option.mem_toList] at hn
    rcases hn with hn | hn
    · exact forall_mem_pair (hexpression hcondition) ihthen n hn
    · exact ihelse n hn
  | cases _ hscrutinee _ ih =>
    exact everywhere_iff.2 ⟨trivial, List.forall_mem_cons.2 ⟨hexpression hscrutinee, ih⟩⟩
  | ofBlock _ ih => exact ih
  | ofExpression he => exact hexpression he

theorem everywhere_literalFits_of_parse [Machine] {source : String} {program : Node}
    (h : parse source = .ok program) : program.Everywhere LiteralFits := by
  cases (isProgram_and_bounded_of_parse h).1 with
  | program _ hstatements =>
    exact everywhere_iff.2
      ⟨trivial, fun n hn => everywhere_literalFits_of_isPart (hstatements n hn)⟩

end TernLang.Node
