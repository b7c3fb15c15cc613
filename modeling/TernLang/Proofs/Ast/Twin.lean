import Mathlib.Data.List.Forall2
import Mathlib.Data.Option.Basic
import Mathlib.Tactic.Common
import TernLang.Ast.Alike

-- Twin trees: the same trees but for their places, which a relation ties together. Nothing that is
-- asked of a tree besides its places tells twins apart.

namespace TernLang

section Parts

variable {α β : Type} {S : α → β → Prop}

theorem rel_flip {T : β → α → Prop} (hST : ∀ a b, S a b → T b a) {a : Option α} {b : Option β}
    (h : Option.Rel S a b) : Option.Rel T b a := by
  cases h with
  | some h => exact .some (hST _ _ h)
  | none => exact .none

theorem rel_imp {T : α → β → Prop} (hST : ∀ a b, S a b → T a b) {a : Option α} {b : Option β}
    (h : Option.Rel S a b) : Option.Rel T a b :=
  rel_flip (T := T) (fun _ _ => hST _ _) (rel_flip (T := fun b a => S a b) (fun _ _ h => h) h)

theorem rel_self {S : α → α → Prop} {o : Option α} : Option.Rel S o o ↔ ∀ a ∈ o, S a a := by
  constructor
  · intro h a ha
    obtain rfl := ha
    cases h with
    | some h => exact h
  · intro h
    cases o with
    | none => exact .none
    | some a => exact .some (h a rfl)

-- The items of a list; other data has none.
def Items.listed : Items α → List α
  | .list items => items
  | .other _ => []

-- The same number of items, one by one, or the same other data.
inductive Items.Twin (S : α → β → Prop) : Items α → Items β → Prop where
  | list {xs : List α} {ys : List β} (each : List.Forall₂ S xs ys) : Twin S (.list xs) (.list ys)
  | other (t : Tree) : Twin S (.other t) (.other t)

namespace Items.Twin

variable {a : Items α} {b : Items β}

theorem size? (h : Items.Twin S a b) : a.size? = b.size? := by
  cases h with
  | list each => exact congrArg some each.length_eq
  | other t => cases t <;> rfl

theorem flip {T : β → α → Prop} (hST : ∀ a b, S a b → T b a) (h : Items.Twin S a b) :
    Items.Twin T b a := by
  cases h with
  | list each => exact .list (each.imp hST).flip
  | other t => exact .other t

theorem mono {T : α → β → Prop} (hST : ∀ a b, S a b → T a b) (h : Items.Twin S a b) :
    Items.Twin T a b :=
  flip (T := T) (fun _ _ => hST _ _) (h.flip (T := fun b a => S a b) fun _ _ h => h)

end Items.Twin

theorem Items.twin_self {S : α → α → Prop} {items : Items α} :
    Items.Twin S items items ↔ ∀ a ∈ items.listed, S a a := by
  cases items with
  | list xs =>
    refine Iff.trans ⟨fun h => ?_, .list⟩ List.forall₂_same
    cases h with
    | list each => exact each
  | other t => exact ⟨fun _ _ ha => absurd ha List.not_mem_nil, fun _ => .other t⟩

end Parts

namespace Node

inductive Twin (R : Place → Place → Prop) : Node → Node → Prop where
  | program {p q : Place} {a b : Items Node} (place : R p q) (body : Items.Twin (Twin R) a b) :
    Twin R (.program p a) (.program q b)
  | block {p q : Place} {a b : Items Node} (place : R p q)
    (statements : Items.Twin (Twin R) a b) : Twin R (.block p a) (.block q b)
  | literal {p q : Place} (v t : Tree) (place : R p q) : Twin R (.literal p v t) (.literal q v t)
  | array {p q : Place} {a b : Items Node} (place : R p q)
    (elements : Items.Twin (Twin R) a b) : Twin R (.array p a) (.array q b)
  | tuple {p q : Place} {a b : Items Node} (place : R p q)
    (elements : Items.Twin (Twin R) a b) : Twin R (.tuple p a) (.tuple q b)
  | ident {p q : Place} (name : Tree) (place : R p q) : Twin R (.ident p name) (.ident q name)
  | compare {p q : Place} (op : Tree) {a b c d : Node} (place : R p q) (left : Twin R a b)
    (right : Twin R c d) : Twin R (.compare p op a c) (.compare q op b d)
  | binary {p q : Place} (op : Tree) {a b c d : Node} (place : R p q) (left : Twin R a b)
    (right : Twin R c d) : Twin R (.binary p op a c) (.binary q op b d)
  | unary {p q : Place} (op : Tree) {a b : Node} (place : R p q) (operand : Twin R a b) :
    Twin R (.unary p op a) (.unary q op b)
  | assign {p q : Place} {a b c d : Node} (place : R p q) (target : Twin R a b)
    (value : Twin R c d) : Twin R (.assign p a c) (.assign q b d)
  | member {p q : Place} {a b c d : Node} (place : R p q) (target : Twin R a b)
    (property : Twin R c d) : Twin R (.member p a c) (.member q b d)
  | index {p q : Place} {a b c d : Node} (place : R p q) (target : Twin R a b)
    (index : Twin R c d) : Twin R (.index p a c) (.index q b d)
  | convert {p q : Place} {a b c d : Node} (place : R p q) (value : Twin R a b)
    (type : Twin R c d) : Twin R (.convert p a c) (.convert q b d)
  | call {p q : Place} {a b : Node} {c d : Items Node} (place : R p q) (function : Twin R a b)
    (args : Items.Twin (Twin R) c d) : Twin R (.call p a c) (.call q b d)
  | declare {p q : Place} {a b : Node} {c d : Option Node} (place : R p q) (target : Twin R a b)
    (value : Option.Rel (Twin R) c d) : Twin R (.declare p a c) (.declare q b d)
  | parameter {p q : Place} (name : Tree) {a b : Option Node} (place : R p q)
    (type : Option.Rel (Twin R) a b) : Twin R (.parameter p name a) (.parameter q name b)
  | function {p q : Place} (name : Tree) {a b : Items Node} {c d : Option Node} {e f : Node}
    (place : R p q) (parameters : Items.Twin (Twin R) a b) (result : Option.Rel (Twin R) c d)
    (body : Twin R e f) : Twin R (.function p name a c e) (.function q name b d f)
  | conditional {p q : Place} {a b c d : Node} {e f : Option Node} (place : R p q)
    (condition : Twin R a b) (thenBlock : Twin R c d) (elseBlock : Option.Rel (Twin R) e f) :
    Twin R (.conditional p a c e) (.conditional q b d f)
  | arm {p q : Place} {a b c d : Node} (place : R p q) (label : Twin R a b) (body : Twin R c d) :
    Twin R (.arm p a c) (.arm q b d)
  | cases {p q : Place} {a b : Node} {c d : Items Node} (place : R p q) (scrutinee : Twin R a b)
    (arms : Items.Twin (Twin R) c d) : Twin R (.cases p a c) (.cases q b d)
  | stray (t : Tree) : Twin R (.stray t) (.stray t)

namespace Twin

variable {R S : Place → Place → Prop} {n m k l : Node}

-- Induction on twins. Of the parts that stand in lists it is known that they are twins too.
theorem induct {motive : ∀ n m : Node, n.Twin R m → Prop}
    (program : ∀ {p q a b} (hp : R p q) (ha : Items.Twin (Twin R) a b),
      Items.Twin (fun n m => ∃ h, motive n m h) a b →
      motive (.program p a) (.program q b) (.program hp ha))
    (block : ∀ {p q a b} (hp : R p q) (ha : Items.Twin (Twin R) a b),
      Items.Twin (fun n m => ∃ h, motive n m h) a b →
      motive (.block p a) (.block q b) (.block hp ha))
    (literal : ∀ {p q} v t (hp : R p q),
      motive (.literal p v t) (.literal q v t) (.literal v t hp))
    (array : ∀ {p q a b} (hp : R p q) (ha : Items.Twin (Twin R) a b),
      Items.Twin (fun n m => ∃ h, motive n m h) a b →
      motive (.array p a) (.array q b) (.array hp ha))
    (tuple : ∀ {p q a b} (hp : R p q) (ha : Items.Twin (Twin R) a b),
      Items.Twin (fun n m => ∃ h, motive n m h) a b →
      motive (.tuple p a) (.tuple q b) (.tuple hp ha))
    (ident : ∀ {p q} name (hp : R p q),
      motive (.ident p name) (.ident q name) (.ident name hp))
    (compare : ∀ {p q} op {a b c d} (hp : R p q) (ha : Twin R a b) (hc : Twin R c d),
      motive a b ha → motive c d hc →
      motive (.compare p op a c) (.compare q op b d) (.compare op hp ha hc))
    (binary : ∀ {p q} op {a b c d} (hp : R p q) (ha : Twin R a b) (hc : Twin R c d),
      motive a b ha → motive c d hc →
      motive (.binary p op a c) (.binary q op b d) (.binary op hp ha hc))
    (unary : ∀ {p q} op {a b} (hp : R p q) (ha : Twin R a b), motive a b ha →
      motive (.unary p op a) (.unary q op b) (.unary op hp ha))
    (assign : ∀ {p q a b c d} (hp : R p q) (ha : Twin R a b) (hc : Twin R c d),
      motive a b ha → motive c d hc → motive (.assign p a c) (.assign q b d) (.assign hp ha hc))
    (member : ∀ {p q a b c d} (hp : R p q) (ha : Twin R a b) (hc : Twin R c d),
      motive a b ha → motive c d hc → motive (.member p a c) (.member q b d) (.member hp ha hc))
    (index : ∀ {p q a b c d} (hp : R p q) (ha : Twin R a b) (hc : Twin R c d),
      motive a b ha → motive c d hc → motive (.index p a c) (.index q b d) (.index hp ha hc))
    (convert : ∀ {p q a b c d} (hp : R p q) (ha : Twin R a b) (hc : Twin R c d),
      motive a b ha → motive c d hc → motive (.convert p a c) (.convert q b d) (.convert hp ha hc))
    (call : ∀ {p q a b c d} (hp : R p q) (ha : Twin R a b) (hc : Items.Twin (Twin R) c d),
      motive a b ha → Items.Twin (fun n m => ∃ h, motive n m h) c d →
      motive (.call p a c) (.call q b d) (.call hp ha hc))
    (declare : ∀ {p q a b c d} (hp : R p q) (ha : Twin R a b) (hc : Option.Rel (Twin R) c d),
      motive a b ha → Option.Rel (fun n m => ∃ h, motive n m h) c d →
      motive (.declare p a c) (.declare q b d) (.declare hp ha hc))
    (parameter : ∀ {p q} name {a b} (hp : R p q) (ha : Option.Rel (Twin R) a b),
      Option.Rel (fun n m => ∃ h, motive n m h) a b →
      motive (.parameter p name a) (.parameter q name b) (.parameter name hp ha))
    (function : ∀ {p q} name {a b c d e f} (hp : R p q) (ha : Items.Twin (Twin R) a b)
      (hc : Option.Rel (Twin R) c d) (he : Twin R e f),
      Items.Twin (fun n m => ∃ h, motive n m h) a b →
      Option.Rel (fun n m => ∃ h, motive n m h) c d → motive e f he →
      motive (.function p name a c e) (.function q name b d f) (.function name hp ha hc he))
    (conditional : ∀ {p q a b c d e f} (hp : R p q) (ha : Twin R a b) (hc : Twin R c d)
      (he : Option.Rel (Twin R) e f), motive a b ha → motive c d hc →
      Option.Rel (fun n m => ∃ h, motive n m h) e f →
      motive (.conditional p a c e) (.conditional q b d f) (.conditional hp ha hc he))
    (arm : ∀ {p q a b c d} (hp : R p q) (ha : Twin R a b) (hc : Twin R c d),
      motive a b ha → motive c d hc → motive (.arm p a c) (.arm q b d) (.arm hp ha hc))
    (cases : ∀ {p q a b c d} (hp : R p q) (ha : Twin R a b) (hc : Items.Twin (Twin R) c d),
      motive a b ha → Items.Twin (fun n m => ∃ h, motive n m h) c d →
      motive (.cases p a c) (.cases q b d) (.cases hp ha hc))
    (stray : ∀ t, motive (.stray t) (.stray t) (.stray t)) (h : n.Twin R m) : motive n m h :=
  @Twin.rec R motive (fun a b _ => Items.Twin (fun n m => ∃ h, motive n m h) a b)
    (fun a b _ => Option.Rel (fun n m => ∃ h, motive n m h) a b)
    (fun ns ms _ => List.Forall₂ (fun n m => ∃ h, motive n m h) ns ms)
    program block literal array tuple ident compare binary unary assign member index convert call
    declare parameter function conditional arm cases stray
    (fun _ => .list) .other (fun h ih => .some ⟨h, ih⟩) .none .nil
    (fun h _ ih => .cons ⟨h, ih⟩) n m h

theorem swap (hRS : ∀ p q, R p q → S q p) (h : n.Twin R m) : m.Twin S n := by
  have hpart (n m : Node) : (∃ _ : n.Twin R m, m.Twin S n) → m.Twin S n := fun h => h.2
  induction h using induct with
  | program hp _ iha => exact .program (hRS _ _ hp) (iha.flip hpart)
  | block hp _ iha => exact .block (hRS _ _ hp) (iha.flip hpart)
  | literal v t hp => exact .literal v t (hRS _ _ hp)
  | array hp _ iha => exact .array (hRS _ _ hp) (iha.flip hpart)
  | tuple hp _ iha => exact .tuple (hRS _ _ hp) (iha.flip hpart)
  | ident name hp => exact .ident name (hRS _ _ hp)
  | compare op hp _ _ iha ihb => exact .compare op (hRS _ _ hp) iha ihb
  | binary op hp _ _ iha ihb => exact .binary op (hRS _ _ hp) iha ihb
  | unary op hp _ iha => exact .unary op (hRS _ _ hp) iha
  | assign hp _ _ iha ihb => exact .assign (hRS _ _ hp) iha ihb
  | member hp _ _ iha ihb => exact .member (hRS _ _ hp) iha ihb
  | index hp _ _ iha ihb => exact .index (hRS _ _ hp) iha ihb
  | convert hp _ _ iha ihb => exact .convert (hRS _ _ hp) iha ihb
  | call hp _ _ iha ihb => exact .call (hRS _ _ hp) iha (ihb.flip hpart)
  | declare hp _ _ iha ihb => exact .declare (hRS _ _ hp) iha (rel_flip hpart ihb)
  | parameter name hp _ iha => exact .parameter name (hRS _ _ hp) (rel_flip hpart iha)
  | function name hp _ _ _ iha ihb ihc =>
    exact .function name (hRS _ _ hp) (iha.flip hpart) (rel_flip hpart ihb) ihc
  | conditional hp _ _ _ iha ihb ihc =>
    exact .conditional (hRS _ _ hp) iha ihb (rel_flip hpart ihc)
  | arm hp _ _ iha ihb => exact .arm (hRS _ _ hp) iha ihb
  | cases hp _ _ iha ihb => exact .cases (hRS _ _ hp) iha (ihb.flip hpart)
  | stray t => exact .stray t

theorem mono (hRS : ∀ p q, R p q → S p q) (h : n.Twin R m) : n.Twin S m :=
  swap (R := fun q p => R p q) (fun _ _ => hRS _ _) (h.swap fun _ _ hp => hp)

mutual

theorem refl (hR : ∀ p, R p p) : ∀ n : Node, n.Twin R n
  | .program p a => .program (hR p) (refl_items hR a)
  | .block p a => .block (hR p) (refl_items hR a)
  | .literal p v t => .literal v t (hR p)
  | .array p a => .array (hR p) (refl_items hR a)
  | .tuple p a => .tuple (hR p) (refl_items hR a)
  | .ident p name => .ident name (hR p)
  | .compare p op a b => .compare op (hR p) (refl hR a) (refl hR b)
  | .binary p op a b => .binary op (hR p) (refl hR a) (refl hR b)
  | .unary p op a => .unary op (hR p) (refl hR a)
  | .assign p a b => .assign (hR p) (refl hR a) (refl hR b)
  | .member p a b => .member (hR p) (refl hR a) (refl hR b)
  | .index p a b => .index (hR p) (refl hR a) (refl hR b)
  | .convert p a b => .convert (hR p) (refl hR a) (refl hR b)
  | .call p a b => .call (hR p) (refl hR a) (refl_items hR b)
  | .declare p a b => .declare (hR p) (refl hR a) (refl_some hR b)
  | .parameter p name a => .parameter name (hR p) (refl_some hR a)
  | .function p name a b c => .function name (hR p) (refl_items hR a) (refl_some hR b) (refl hR c)
  | .conditional p a b c => .conditional (hR p) (refl hR a) (refl hR b) (refl_some hR c)
  | .arm p a b => .arm (hR p) (refl hR a) (refl hR b)
  | .cases p a b => .cases (hR p) (refl hR a) (refl_items hR b)
  | .stray t => .stray t

theorem refl_items (hR : ∀ p, R p p) : ∀ a : Items Node, Items.Twin (Twin R) a a
  | .list ns => .list (refl_all hR ns)
  | .other t => .other t

theorem refl_all (hR : ∀ p, R p p) : ∀ ns : List Node, List.Forall₂ (Twin R) ns ns
  | [] => .nil
  | n :: ns => .cons (refl hR n) (refl_all hR ns)

theorem refl_some (hR : ∀ p, R p p) : ∀ n : Option Node, Option.Rel (Twin R) n n
  | none => .none
  | some n => .some (refl hR n)

end

-- Trees whose places are the same are the same.
theorem eq (h : n.Twin Eq m) : n = m := by
  have hitems {a b : Items Node} (h : Items.Twin (fun n m => ∃ _ : n.Twin Eq m, n = m) a b) :
      a = b := by
    cases h with
    | list each =>
      have heach := each.imp fun _ _ h => h.2
      rw [List.forall₂_eq_eq_eq] at heach
      rw [heach]
    | other t => rfl
  have hsome {a b : Option Node} (h : Option.Rel (fun n m => ∃ _ : n.Twin Eq m, n = m) a b) :
      a = b := by
    cases h with
    | some h => rw [h.2]
    | none => rfl
  induction h using induct with
  | literal v t hp => rw [hp]
  | ident name hp => rw [hp]
  | compare op hp _ _ iha ihb => rw [hp, iha, ihb]
  | binary op hp _ _ iha ihb => rw [hp, iha, ihb]
  | unary op hp _ iha => rw [hp, iha]
  | parameter name hp _ iha => rw [hp, hsome iha]
  | function name hp _ _ _ iha ihb ihc => rw [hp, hitems iha, hsome ihb, ihc]
  | stray t => rfl
  | program hp _ iha | block hp _ iha | array hp _ iha | tuple hp _ iha => rw [hp, hitems iha]
  | assign hp _ _ iha ihb | member hp _ _ iha ihb | index hp _ _ iha ihb
  | convert hp _ _ iha ihb | arm hp _ _ iha ihb => rw [hp, iha, ihb]
  | call hp _ _ iha ihb | cases hp _ _ iha ihb => rw [hp, iha, hitems ihb]
  | declare hp _ _ iha ihb => rw [hp, iha, hsome ihb]
  | conditional hp _ _ _ iha ihb ihc => rw [hp, iha, ihb, hsome ihc]

theorem nesting_all {ns ms : List Node}
    (h : List.Forall₂ (fun n m => n.nesting = m.nesting) ns ms) :
    nestingAll ns = nestingAll ms := by
  induction h with
  | nil => rfl
  | cons hn _ ih => rw [nestingAll, nestingAll, hn, ih]

theorem nesting (h : n.Twin R m) : n.nesting = m.nesting := by
  have hitems {a b : Items Node}
      (h : Items.Twin (fun n m => ∃ _ : n.Twin R m, n.nesting = m.nesting) a b) :
      nestingItems a = nestingItems b := by
    cases h with
    | list each => exact nesting_all (each.imp fun _ _ h => h.2)
    | other t => rfl
  have hsome {a b : Option Node}
      (h : Option.Rel (fun n m => ∃ _ : n.Twin R m, n.nesting = m.nesting) a b) :
      nestingSome a = nestingSome b := by
    cases h with
    | some h => exact h.2
    | none => rfl
  induction h using induct with
  | literal | ident | stray => rfl
  | program _ _ iha | block _ _ iha | array _ _ iha | tuple _ _ iha =>
    simp only [Node.nesting, hitems iha]
  | compare _ _ _ _ iha ihb | binary _ _ _ _ iha ihb | assign _ _ _ iha ihb
  | member _ _ _ iha ihb | index _ _ _ iha ihb | convert _ _ _ iha ihb | arm _ _ _ iha ihb =>
    simp only [Node.nesting, iha, ihb]
  | unary _ _ _ iha => simp only [Node.nesting, iha]
  | call _ _ _ iha ihb | cases _ _ _ iha ihb => simp only [Node.nesting, iha, hitems ihb]
  | declare _ _ _ iha ihb => simp only [Node.nesting, iha, hsome ihb]
  | parameter _ _ _ iha => simp only [Node.nesting, hsome iha]
  | function _ _ _ _ _ iha ihb ihc => simp only [Node.nesting, hitems iha, hsome ihb, ihc]
  | conditional _ _ _ _ iha ihb ihc => simp only [Node.nesting, iha, ihb, hsome ihc]

theorem areTargets_of_forall₂ {ns ms : List Node}
    (h : List.Forall₂ (fun n m => n.isTarget = m.isTarget) ns ms) :
    areTargets ns = areTargets ms := by
  induction h with
  | nil => rfl
  | cons hn _ ih => rw [areTargets, areTargets, hn, ih]

theorem isTarget (h : n.Twin R m) : n.isTarget = m.isTarget := by
  induction h using induct with
  | tuple _ _ iha =>
    cases iha with
    | list each => exact areTargets_of_forall₂ (each.imp fun _ _ h => h.2)
    | other t => rfl
  | _ => rfl

theorem isAssign (h : n.Twin R m) : n.isAssign = m.isAssign := by
  cases h <;> rfl

theorem typeName (h : n.Twin R m) : n.typeName = m.typeName := by
  cases h <;> rfl

theorem place? (h : n.Twin R m) : Option.Rel R n.place? m.place? := by
  cases h with
  | stray t => exact .none
  | literal _ _ hp | ident _ hp | compare _ hp | binary _ hp | unary _ hp | parameter _ hp
  | function _ hp => exact .some hp
  | program hp | block hp | array hp | tuple hp | assign hp | member hp | index hp | convert hp
  | call hp | declare hp | conditional hp | arm hp | cases hp => exact .some hp

-- Induction on the comparison of the first trees: the second ones are of the same shapes.
theorem alike_of_alike (hn : n.Twin R m) (hk : k.Twin R l) (hnk : n.alike k) : m.alike l := by
  refine Node.alike.induct
    (fun n k => ∀ {m l : Node}, n.Twin R m → k.Twin R l → n.alike k → m.alike l)
    (fun a c => ∀ {b d : Option Node}, Option.Rel (Twin R) a b → Option.Rel (Twin R) c d →
      alikeSome a c → alikeSome b d)
    (fun a c => ∀ {b d : Items Node}, Items.Twin (Twin R) a b → Items.Twin (Twin R) c d →
      alikeItems a c → alikeItems b d)
    (fun a c => ∀ {b d : List Node}, List.Forall₂ (Twin R) a b → List.Forall₂ (Twin R) c d →
      alikeAll a c → alikeAll b d)
    ?program ?block ?array ?tuple ?literal ?ident ?compare ?binary ?unary ?assign ?member ?index
    ?convert ?arm ?call ?cases ?declare ?parameter ?function ?conditional ?stray ?differ
    ?none ?some ?someDiffer ?list ?other ?itemsDiffer ?nil ?cons ?allDiffer n k hn hk hnk
  case program | block | array | tuple =>
    intro p a q c ih m l hn hk h
    cases hn; cases hk
    rw [alike] at h ⊢
    exact ih ‹_› ‹_› h
  case literal =>
    intro p v s q w t m l hn hk h
    cases hn; cases hk
    rw [alike] at h ⊢
    exact h
  case ident =>
    intro p s q t m l hn hk h
    cases hn; cases hk
    rw [alike] at h ⊢
    exact h
  case stray =>
    intro s t m l hn hk h
    cases hn; cases hk
    exact h
  case compare | binary =>
    intro p s a b q t c d iha ihb m l hn hk h
    cases hn; cases hk
    simp only [alike, Bool.and_eq_true] at h ⊢
    exact ⟨⟨h.1.1, iha ‹_› ‹_› h.1.2⟩, ihb ‹_› ‹_› h.2⟩
  case unary =>
    intro p s a q t b ih m l hn hk h
    cases hn; cases hk
    simp only [alike, Bool.and_eq_true] at h ⊢
    exact ⟨h.1, ih ‹_› ‹_› h.2⟩
  case assign | member | index | convert | arm | call | cases | declare =>
    intro p a b q c d iha ihb m l hn hk h
    cases hn; cases hk
    simp only [alike, Bool.and_eq_true] at h ⊢
    exact ⟨iha ‹_› ‹_› h.1, ihb ‹_› ‹_› h.2⟩
  case parameter =>
    intro p s a q t b ih m l hn hk h
    cases hn; cases hk
    simp only [alike, Bool.and_eq_true] at h ⊢
    exact ⟨h.1, ih ‹_› ‹_› h.2⟩
  case function =>
    intro p s a r b q t c u d iha ihr ihb m l hn hk h
    cases hn; cases hk
    simp only [alike, Bool.and_eq_true] at h ⊢
    exact ⟨⟨⟨h.1.1.1, iha ‹_› ‹_› h.1.1.2⟩, ihr ‹_› ‹_› h.1.2⟩, ihb ‹_› ‹_› h.2⟩
  case conditional =>
    intro p a b e q c d f iha ihb ihe m l hn hk h
    cases hn; cases hk
    simp only [alike, Bool.and_eq_true] at h ⊢
    exact ⟨⟨iha ‹_› ‹_› h.1.1, ihb ‹_› ‹_› h.1.2⟩, ihe ‹_› ‹_› h.2⟩
  case differ =>
    intros
    simp_all [alike]
  case none =>
    intro b d ha hc h
    cases ha; cases hc
    exact h
  case some =>
    intro a c ih b d ha hc h
    cases ha; cases hc
    rw [alikeSome] at h ⊢
    exact ih ‹_› ‹_› h
  case list =>
    intro a c ih b d ha hc h
    cases ha; cases hc
    rw [alikeItems] at h ⊢
    exact ih ‹_› ‹_› h
  case other =>
    intro s t b d ha hc h
    cases ha; cases hc
    exact h
  case nil =>
    intro b d ha hc h
    cases ha; cases hc
    exact h
  case cons =>
    intro a as c cs ih ihs b d ha hc h
    cases ha; cases hc
    simp only [alikeAll, Bool.and_eq_true] at h ⊢
    exact ⟨ih ‹_› ‹_› h.1, ihs ‹_› ‹_› h.2⟩
  case someDiffer | itemsDiffer | allDiffer =>
    intros
    simp_all [alikeSome, alikeItems, alikeAll]

-- Sameness but for places does not tell twins apart, on either side.
theorem alike (hn : n.Twin R m) (hk : k.Twin R l) : n.alike k = m.alike l := by
  have hback : m.alike l → n.alike k :=
    alike_of_alike (R := fun q p => R p q) (hn.swap fun _ _ h => h) (hk.swap fun _ _ h => h)
  exact Bool.eq_iff_iff.2 ⟨alike_of_alike hn hk, hback⟩

end Twin

end Node

end TernLang
