import TernLang.Proofs.Ast.Image
import TernLang.Proofs.Ast.Twin
import TernLang.Proofs.Number.Quantity
import TernLang.Proofs.Number.Reading

-- Trees of the grammar that are alike are twins. Sameness of trees mixes up numbers of different
-- kinds, but the type of a literal says of which kind its number is, and no literal is negative.

namespace TernLang

namespace Node

variable {l m : Leaves} {a b : Node}

-- Twins in any places.
def Anywhere (_ _ : Place) : Prop := True

theorem eq_of_alike_str {s t : String} (h : (Tree.str s).alike (.str t) = true) : s = t := by
  simpa [Tree.alike] using h

theorem isNonnegative_of_isLiteral {x : Float} {t : Tree} (h : IsLiteral (.real x) t) :
    Floating.IsNonnegative x := by
  cases h with
  | real _ cs text value =>
    cases hread : Reading.looseReal? cs with
    | none => simp [Grammar.realOf, hread] at value
    | some y =>
      simp only [Grammar.realOf, String.toList_ofList, hread, Except.ok.injEq] at value
      exact value ▸ Reading.isNonnegative_of_isRealText text hread

-- Literals with one type and one quantity are one literal.
theorem eq_of_alike_literal {v w t u : Tree} (hv : IsLiteral v t) (hw : IsLiteral w u)
    (h : v.alike w = true) (htype : t.alike u = true) : v = w ∧ t = u := by
  cases hv with
  | integer n =>
    cases hw with
    | integer k =>
      have hsame : n = k := by simpa [Tree.alike, Tree.quantity?, Quantity.ofInt] using h
      exact ⟨by rw [hsame], rfl⟩
    | _ => exact absurd (eq_of_alike_str htype) (by decide)
  | real x cs text value =>
    cases hw with
    | real y ds text' value' =>
      have hx : Floating.IsNonnegative x := isNonnegative_of_isLiteral (.real x cs text value)
      have hy : Floating.IsNonnegative y := isNonnegative_of_isLiteral (.real y ds text' value')
      have hquantity : Quantity.ofFloat x = .ofFloat y := by
        simpa [Tree.alike, Tree.quantity?] using h
      exact ⟨by rw [Floating.eq_of_ofFloat hx hy hquantity], rfl⟩
    | _ => exact absurd (eq_of_alike_str htype) (by decide)
  | string s =>
    cases hw with
    | string s' => exact ⟨by rw [eq_of_alike_str h], rfl⟩
    | _ => exact absurd (eq_of_alike_str htype) (by decide)
  | null =>
    cases hw with
    | null => exact ⟨rfl, rfl⟩
    | _ => exact absurd (eq_of_alike_str htype) (by decide)

section Lists

variable {Q : Node → Prop} {R : Place → Place → Prop}

theorem twin_of_alikeItems {as bs : List Node}
    (h : ∀ a ∈ as, ∀ b, Q b → a.alike b = true → a.Twin R b) (hbs : ∀ b ∈ bs, Q b)
    (halike : alikeItems (.list as) (.list bs) = true) :
    Items.Twin (Twin R) (.list as) (.list bs) := by
  rw [alikeItems] at halike
  refine .list ?_
  induction as generalizing bs with
  | nil =>
    cases bs with
    | nil => exact .nil
    | cons b bs => simp [alikeAll] at halike
  | cons a as ih =>
    cases bs with
    | nil => simp [alikeAll] at halike
    | cons b bs =>
      rw [List.forall_mem_cons] at h hbs
      rw [alikeAll, Bool.and_eq_true] at halike
      exact .cons (h.1 b hbs.1 halike.1) (ih h.2 hbs.2 halike.2)

theorem twin_of_alikeSome {v w : Option Node}
    (h : ∀ a ∈ v, ∀ b, Q b → a.alike b = true → a.Twin R b) (hw : ∀ b ∈ w, Q b)
    (halike : alikeSome v w = true) : Option.Rel (Twin R) v w := by
  cases v with
  | none =>
    cases w with
    | none => exact .none
    | some b => simp [alikeSome] at halike
  | some a =>
    cases w with
    | none => simp [alikeSome] at halike
    | some b =>
      rw [alikeSome] at halike
      exact .some (h a rfl b (hw b rfl) halike)

end Lists

theorem IsExpression.twin_of_alike (ha : a.IsExpression l) (hb : b.IsExpression m)
    (h : a.alike b = true) : a.Twin Anywhere b := by
  induction ha generalizing b with
  | literal _ hv =>
    cases hb with
    | literal _ hw =>
      rw [alike, Bool.and_eq_true] at h
      obtain ⟨rfl, rfl⟩ := eq_of_alike_literal hv hw h.1 h.2
      exact .literal _ _ trivial
    | _ => cases type?_eq_of_alike h
  | ident =>
    cases hb with
    | ident =>
      rw [alike] at h
      obtain rfl := eq_of_alike_str h
      exact .ident _ trivial
    | _ => cases type?_eq_of_alike h
  | array _ _ ih =>
    cases hb with
    | array _ helements =>
      rw [alike] at h
      exact .array trivial (twin_of_alikeItems (fun e he _ => ih e he) helements h)
    | _ => cases type?_eq_of_alike h
  | tuple _ _ _ ih =>
    cases hb with
    | tuple _ _ helements =>
      rw [alike] at h
      exact .tuple trivial (twin_of_alikeItems (fun e he _ => ih e he) helements h)
    | _ => cases type?_eq_of_alike h
  | compare c _ _ _ ihl ihr =>
    cases hb with
    | compare d _ hl hr =>
      rw [alike, Bool.and_eq_true, Bool.and_eq_true] at h
      rw [eq_of_alike_str h.1.1]
      exact .compare _ trivial (ihl hl h.1.2) (ihr hr h.2)
    | _ => cases type?_eq_of_alike h
  | binary c _ _ _ ihl ihr =>
    cases hb with
    | binary d _ hl hr =>
      rw [alike, Bool.and_eq_true, Bool.and_eq_true] at h
      rw [eq_of_alike_str h.1.1]
      exact .binary _ trivial (ihl hl h.1.2) (ihr hr h.2)
    | _ => cases type?_eq_of_alike h
  | unary _ _ _ ih =>
    cases hb with
    | unary _ _ hoperand =>
      rw [alike, Bool.and_eq_true] at h
      rw [eq_of_alike_str h.1]
      exact .unary _ trivial (ih hoperand h.2)
    | _ => cases type?_eq_of_alike h
  | assign _ _ _ _ iht ihv =>
    cases hb with
    | assign _ _ ht hv =>
      rw [alike, Bool.and_eq_true] at h
      exact .assign trivial (iht ht h.1) (ihv hv h.2)
    | _ => cases type?_eq_of_alike h
  | member _ _ _ iht ihp =>
    cases hb with
    | member _ ht hp =>
      rw [alike, Bool.and_eq_true] at h
      exact .member trivial (iht ht h.1) (ihp hp h.2)
    | _ => cases type?_eq_of_alike h
  | index _ _ _ iht ihi =>
    cases hb with
    | index _ ht hi =>
      rw [alike, Bool.and_eq_true] at h
      exact .index trivial (iht ht h.1) (ihi hi h.2)
    | _ => cases type?_eq_of_alike h
  | convert _ _ _ ihv iht =>
    cases hb with
    | convert _ hv ht =>
      rw [alike, Bool.and_eq_true] at h
      exact .convert trivial (ihv hv h.1) (iht ht h.2)
    | _ => cases type?_eq_of_alike h
  | call _ _ _ ihf ihargs =>
    cases hb with
    | call _ hf hargs =>
      rw [alike, Bool.and_eq_true] at h
      exact .call trivial (ihf hf h.1) (twin_of_alikeItems (fun e he _ => ihargs e he) hargs h.2)
    | _ => cases type?_eq_of_alike h

-- The types of statements that are no expressions.
def statementTypes : List NodeType := [.block, .varDecl, .funcDecl, .ifStmt, .caseStmt]

theorem not_isExpression {type : NodeType} (htype : type ∈ statementTypes)
    (ha : a.type? = some type) : ¬a.IsExpression l := by
  intro h
  cases h <;> cases ha <;> exact absurd htype (by decide)

theorem IsPart.twin_of_alike {part : Part} (ha : a.IsPart l part) (hb : b.IsPart m part)
    (h : a.alike b = true) : a.Twin Anywhere b := by
  have hoption {v w : Option Node} (hv : ∀ n ∈ v, n.IsExpression l)
      (hw : ∀ n ∈ w, n.IsExpression m) (hvw : alikeSome v w = true) :
      Option.Rel (Twin Anywhere) v w :=
    twin_of_alikeSome (fun n hn _ => (hv n hn).twin_of_alike) hw hvw
  induction ha generalizing b with
  | parameter _ _ htype =>
    cases hb with
    | parameter _ _ htype' =>
      rw [alike, Bool.and_eq_true] at h
      rw [eq_of_alike_str h.1]
      exact .parameter _ trivial (hoption htype htype' h.2)
  | block _ _ ih =>
    cases hb with
    | block _ hstatements =>
      rw [alike] at h
      exact .block trivial (twin_of_alikeItems (fun n hn _ => ih n hn) hstatements h)
  | arm _ hlabel _ ih =>
    cases hb with
    | arm _ hlabel' hbody =>
      rw [alike, Bool.and_eq_true] at h
      exact .arm trivial (hlabel.twin_of_alike hlabel' h.1) (ih hbody h.2)
  | declare _ _ htarget hvalue =>
    cases hb with
    | declare _ _ htarget' hvalue' =>
      rw [alike, Bool.and_eq_true] at h
      exact .declare trivial (htarget.twin_of_alike htarget' h.1) (hoption hvalue hvalue' h.2)
    | ofBlock hblock =>
      cases hblock
      cases type?_eq_of_alike h
    | ofExpression he => exact absurd he (not_isExpression (by decide) (type?_eq_of_alike h).symm)
    | _ => cases type?_eq_of_alike h
  | function _ _ _ hresult _ ihparameters ihbody =>
    cases hb with
    | function _ _ hparameters hresult' hbody =>
      rw [alike, Bool.and_eq_true, Bool.and_eq_true, Bool.and_eq_true] at h
      rw [eq_of_alike_str h.1.1.1]
      exact .function _ trivial
        (twin_of_alikeItems (fun n hn _ => ihparameters n hn) hparameters h.1.1.2)
        (hoption hresult hresult' h.1.2) (ihbody hbody h.2)
    | ofBlock hblock =>
      cases hblock
      cases type?_eq_of_alike h
    | ofExpression he => exact absurd he (not_isExpression (by decide) (type?_eq_of_alike h).symm)
    | _ => cases type?_eq_of_alike h
  | conditional _ hcondition _ _ ihthen ihelse =>
    cases hb with
    | conditional _ hcondition' hthen helse =>
      rw [alike, Bool.and_eq_true, Bool.and_eq_true] at h
      exact .conditional trivial (hcondition.twin_of_alike hcondition' h.1.1) (ihthen hthen h.1.2)
        (twin_of_alikeSome (fun n hn _ => ihelse n hn) helse h.2)
    | ofBlock hblock =>
      cases hblock
      cases type?_eq_of_alike h
    | ofExpression he => exact absurd he (not_isExpression (by decide) (type?_eq_of_alike h).symm)
    | _ => cases type?_eq_of_alike h
  | cases _ hscrutinee _ ih =>
    cases hb with
    | cases _ hscrutinee' harms =>
      rw [alike, Bool.and_eq_true] at h
      exact .cases trivial (hscrutinee.twin_of_alike hscrutinee' h.1)
        (twin_of_alikeItems (fun n hn _ => ih n hn) harms h.2)
    | ofBlock hblock =>
      cases hblock
      cases type?_eq_of_alike h
    | ofExpression he => exact absurd he (not_isExpression (by decide) (type?_eq_of_alike h).symm)
    | _ => cases type?_eq_of_alike h
  | ofBlock hblock ih =>
    have htype : some NodeType.block = b.type? := by
      rw [← type?_eq_of_alike h]
      cases hblock
      rfl
    cases hb with
    | ofBlock hblock' => exact ih hblock' h
    | ofExpression he => exact absurd he (not_isExpression (by decide) htype.symm)
    | _ => cases htype
  | ofExpression he =>
    cases hb with
    | ofExpression he' => exact he.twin_of_alike he' h
    | ofBlock hblock =>
      cases hblock
      exact absurd he (not_isExpression (by decide) (type?_eq_of_alike h))
    | _ => exact absurd he (not_isExpression (by decide) (type?_eq_of_alike h))

end Node

end TernLang
