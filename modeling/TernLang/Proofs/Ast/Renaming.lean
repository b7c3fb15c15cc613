import Mathlib.Algebra.Group.End
import TernLang.Ast.Alike
import TernLang.Proofs.Scope.Renaming
import TernLang.Proofs.Syntax.Throughout

-- Trees under other names. The names of variables are changed where they are used, bound and
-- declared as parameters; those of members and of the types of conversions are not names of
-- variables. The name of a declared function stays as it is.

namespace TernLang

-- What can stand for a variable in a source text.
abbrev Name.IsIdentifier (s : String) : Prop := Token.IsWord s.toList ∧ s ∉ Token.keywords

-- The names are exchanged among each other, and all other texts stay.
def Renaming.ofIdentifiers (σ : Equiv.Perm {s // Name.IsIdentifier s})
    (h : ∀ s, isConstantName (σ s) = isConstantName s) : Renaming where
  map := Equiv.Perm.ofSubtype σ
  injective := Equiv.injective _
  isConstantName_map s := by
    by_cases hs : Name.IsIdentifier s
    · rw [Equiv.Perm.ofSubtype_apply_of_mem σ hs]
      exact h ⟨s, hs⟩
    · rw [Equiv.Perm.ofSubtype_apply_of_not_mem σ hs]

def Renaming.swap (s t : {s // Name.IsIdentifier s}) (h : isConstantName s = isConstantName t) :
    Renaming :=
  .ofIdentifiers (Equiv.swap s t) fun u => by
    rw [Equiv.swap_apply_def]
    by_cases hs : u = s
    · rw [if_pos hs, hs, h]
    · rw [if_neg hs]
      by_cases ht : u = t
      · rw [if_pos ht, ht, h]
      · rw [if_neg ht]

namespace Tree

variable (ρ : Renaming) (a b : Tree)

theorem alike_rename : (Name.rename ρ a).alike (Name.rename ρ b) = a.alike b := by
  cases a <;> cases b <;> first | rfl | skip
  rename_i s t
  simp only [Name.rename, alike, ρ.injective.eq_iff]

end Tree

namespace Node

mutual

def rename (ρ : Renaming) : Node → Node
  | program p ns => program p (renameItems ρ ns)
  | block p ns => block p (renameItems ρ ns)
  | literal p v t => literal p v t
  | array p ns => array p (renameItems ρ ns)
  | tuple p ns => tuple p (renameItems ρ ns)
  | ident p s => ident p (Name.rename ρ s)
  | compare p op a b => compare p op (rename ρ a) (rename ρ b)
  | binary p op a b => binary p op (rename ρ a) (rename ρ b)
  | unary p op a => unary p op (rename ρ a)
  | assign p a b => assign p (rename ρ a) (rename ρ b)
  | member p a (ident q s) => member p (rename ρ a) (ident q s)
  | member p a b => member p (rename ρ a) (rename ρ b)
  | index p a b => index p (rename ρ a) (rename ρ b)
  | convert p a (ident q s) => convert p (rename ρ a) (ident q s)
  | convert p a b => convert p (rename ρ a) (rename ρ b)
  | call p f ns => call p (rename ρ f) (renameItems ρ ns)
  | declare p a v => declare p (rename ρ a) (renameSome ρ v)
  | parameter p s t => parameter p (Name.rename ρ s) (renameSome ρ t)
  | function p s ns r b => function p s (renameItems ρ ns) (renameSome ρ r) (rename ρ b)
  | conditional p a b c => conditional p (rename ρ a) (rename ρ b) (renameSome ρ c)
  | arm p a b => arm p (rename ρ a) (rename ρ b)
  | cases p a ns => cases p (rename ρ a) (renameItems ρ ns)
  | stray t => stray t

def renameItems (ρ : Renaming) : Items Node → Items Node
  | .list ns => .list (renameAll ρ ns)
  | .other t => .other t

def renameAll (ρ : Renaming) : List Node → List Node
  | [] => []
  | n :: ns => rename ρ n :: renameAll ρ ns

def renameSome (ρ : Renaming) : Option Node → Option Node
  | none => none
  | some n => some (rename ρ n)

end

variable (ρ : Renaming)

-- What stands where only a name says something: a name that is no variable's stays.
def renameUnlessName : Node → Node
  | ident p s => ident p s
  | n => rename ρ n

theorem rename_member (p : Place) (a b : Node) :
    rename ρ (member p a b) = member p (rename ρ a) (renameUnlessName ρ b) := by
  cases b <;> rfl

theorem rename_convert (p : Place) (a b : Node) :
    rename ρ (convert p a b) = convert p (rename ρ a) (renameUnlessName ρ b) := by
  cases b <;> rfl

@[simp]
theorem place?_rename (n : Node) : (rename ρ n).place? = n.place? := by
  cases n with
  | member p a b => rw [rename_member]; rfl
  | convert p a b => rw [rename_convert]; rfl
  | _ => rfl

@[simp]
theorem typeName_rename (n : Node) : (rename ρ n).typeName = n.typeName := by
  cases n with
  | member p a b => rw [rename_member]; rfl
  | convert p a b => rw [rename_convert]; rfl
  | _ => rfl

theorem renameAll_eq_map (ns : List Node) : renameAll ρ ns = ns.map (rename ρ) := by
  induction ns with
  | nil => rfl
  | cons n ns ih => rw [renameAll, ih, List.map_cons]

theorem renameSome_eq_map (o : Option Node) : renameSome ρ o = o.map (rename ρ) := by
  cases o <;> rfl

theorem size?_renameItems (items : Items Node) : (renameItems ρ items).size? = items.size? := by
  cases items with
  | list ns => simp [renameItems, Items.size?, renameAll_eq_map]
  | other t => rfl

mutual

theorem nesting_rename : ∀ n : Node, (rename ρ n).nesting = n.nesting
  | program _ ns | block _ ns | array _ ns | tuple _ ns => by
    simp only [rename, nesting, nesting_renameItems ns]
  | compare _ _ a b | binary _ _ a b | assign _ a b | index _ a b | arm _ a b => by
    simp only [rename, nesting, nesting_rename a, nesting_rename b]
  | member _ a b | convert _ a b => by
    have hb : (renameUnlessName ρ b).nesting = b.nesting := by
      have h := nesting_rename b
      cases b <;> first | rfl | exact h
    simp only [rename_member, rename_convert, nesting, nesting_rename a, hb]
  | unary _ _ a => by simp only [rename, nesting, nesting_rename a]
  | call _ f ns | cases _ f ns => by
    simp only [rename, nesting, nesting_rename f, nesting_renameItems ns]
  | declare _ a v => by simp only [rename, nesting, nesting_rename a, nesting_renameSome v]
  | parameter _ _ t => by simp only [rename, nesting, nesting_renameSome t]
  | function _ _ ns r b => by
    simp only [rename, nesting, nesting_renameItems ns, nesting_renameSome r, nesting_rename b]
  | conditional _ a b c => by
    simp only [rename, nesting, nesting_rename a, nesting_rename b, nesting_renameSome c]
  | literal .. | ident .. | stray _ => rfl

theorem nesting_renameItems : ∀ ns : Items Node, nestingItems (renameItems ρ ns) = nestingItems ns
  | .list ns => by simp only [renameItems, nestingItems, nesting_renameAll ns]
  | .other _ => rfl

theorem nesting_renameAll : ∀ ns : List Node, nestingAll (renameAll ρ ns) = nestingAll ns
  | [] => rfl
  | n :: ns => by simp only [renameAll, nestingAll, nesting_rename n, nesting_renameAll ns]

theorem nesting_renameSome : ∀ n : Option Node, nestingSome (renameSome ρ n) = nestingSome n
  | none => rfl
  | some n => by simp only [renameSome, nestingSome, nesting_rename n]

end

theorem ctorIdx_eq_of_alike {n m : Node} (h : n.alike m) : n.ctorIdx = m.ctorIdx := by
  rw [alike.eq_def] at h
  split at h
  case h_22 => exact absurd h (by simp)
  all_goals rfl

@[simp]
theorem ctorIdx_rename (n : Node) : (rename ρ n).ctorIdx = n.ctorIdx := by
  cases n with
  | member p a b => rw [rename_member]; rfl
  | convert p a b => rw [rename_convert]; rfl
  | _ => rfl

-- Nodes of different types are different, whatever is in them.
theorem alike_eq_of_ne {n m n' m' : Node} (hn : n'.ctorIdx = n.ctorIdx)
    (hm : m'.ctorIdx = m.ctorIdx) (h : n.ctorIdx ≠ m.ctorIdx) : n'.alike m' = n.alike m := by
  have hrenamed : ¬n'.alike m' := by
    intro halike
    have heq := ctorIdx_eq_of_alike halike
    rw [hn, hm] at heq
    exact h heq
  have hplain : ¬n.alike m := fun halike => h (ctorIdx_eq_of_alike halike)
  rw [Bool.not_eq_true] at hrenamed hplain
  rw [hrenamed, hplain]

theorem alike_rename_of_ne {n m : Node} (h : n.ctorIdx ≠ m.ctorIdx) :
    (rename ρ n).alike (rename ρ m) = n.alike m :=
  alike_eq_of_ne (ctorIdx_rename ρ n) (ctorIdx_rename ρ m) h

-- A node is a name, or it is renamed in the same way wherever it stands.
theorem renameUnlessName_eq (n : Node) :
    (∃ p s, n = ident p s) ∨
      (∀ p s, n.ctorIdx ≠ (ident p s).ctorIdx) ∧ renameUnlessName ρ n = rename ρ n := by
  cases n with
  | ident p s => exact .inl ⟨p, s, rfl⟩
  | _ => exact .inr ⟨nofun, rfl⟩

theorem alike_renameUnlessName {n m : Node} (h : (rename ρ n).alike (rename ρ m) = n.alike m) :
    (renameUnlessName ρ n).alike (renameUnlessName ρ m) = n.alike m := by
  rcases renameUnlessName_eq ρ n with ⟨p, s, rfl⟩ | ⟨hn, heq⟩
  · rcases renameUnlessName_eq ρ m with ⟨q, t, rfl⟩ | ⟨hm, heq⟩
    · rfl
    · rw [heq]
      exact alike_eq_of_ne rfl (ctorIdx_rename ρ m) (hm p s).symm
  · rcases renameUnlessName_eq ρ m with ⟨q, t, rfl⟩ | ⟨hm, heq'⟩
    · rw [heq]
      exact alike_eq_of_ne (ctorIdx_rename ρ n) rfl (hn q t)
    · rw [heq, heq']
      exact h

mutual

-- Trees are the same under other names if and only if they are the same.
theorem alike_rename (n m : Node) : (rename ρ n).alike (rename ρ m) = n.alike m := by
  cases n with
  | program _ a | block _ a | array _ a | tuple _ a =>
    cases m <;> first
      | exact alike_rename_of_ne ρ (Nat.ne_of_beq_eq_false rfl)
      | simp only [rename, alike, alikeItems_rename a]
  | literal | stray =>
    cases m <;> first | exact alike_rename_of_ne ρ (Nat.ne_of_beq_eq_false rfl) | simp only [rename]
  | ident =>
    cases m <;> first
      | exact alike_rename_of_ne ρ (Nat.ne_of_beq_eq_false rfl)
      | simp only [rename, alike, Tree.alike_rename]
  | compare _ _ a b | binary _ _ a b | assign _ a b | index _ a b | arm _ a b =>
    cases m <;> first
      | exact alike_rename_of_ne ρ (Nat.ne_of_beq_eq_false rfl)
      | simp only [rename, alike, alike_rename a, alike_rename b]
  | member _ a b | convert _ a b =>
    cases m <;> first
      | exact alike_rename_of_ne ρ (Nat.ne_of_beq_eq_false rfl)
      | simp only [rename_member, rename_convert, alike, alike_rename a,
          alike_renameUnlessName ρ (alike_rename b _)]
  | unary _ _ a =>
    cases m <;> first
      | exact alike_rename_of_ne ρ (Nat.ne_of_beq_eq_false rfl)
      | simp only [rename, alike, alike_rename a]
  | call _ f a | cases _ f a =>
    cases m <;> first
      | exact alike_rename_of_ne ρ (Nat.ne_of_beq_eq_false rfl)
      | simp only [rename, alike, alike_rename f, alikeItems_rename a]
  | declare _ a v =>
    cases m <;> first
      | exact alike_rename_of_ne ρ (Nat.ne_of_beq_eq_false rfl)
      | simp only [rename, alike, alike_rename a, alikeSome_rename v]
  | parameter _ s t =>
    cases m <;> first
      | exact alike_rename_of_ne ρ (Nat.ne_of_beq_eq_false rfl)
      | simp only [rename, alike, Tree.alike_rename, alikeSome_rename t]
  | function _ _ ns r b =>
    cases m <;> first
      | exact alike_rename_of_ne ρ (Nat.ne_of_beq_eq_false rfl)
      | simp only [rename, alike, alikeItems_rename ns, alikeSome_rename r, alike_rename b]
  | conditional _ a b c =>
    cases m <;> first
      | exact alike_rename_of_ne ρ (Nat.ne_of_beq_eq_false rfl)
      | simp only [rename, alike, alike_rename a, alike_rename b, alikeSome_rename c]

theorem alikeItems_rename (a b : Items Node) :
    alikeItems (renameItems ρ a) (renameItems ρ b) = alikeItems a b := by
  cases a with
  | list as => cases b <;> simp only [renameItems, alikeItems, alikeAll_rename as]
  | other t => cases b <;> simp only [renameItems, alikeItems]

theorem alikeAll_rename (as bs : List Node) :
    alikeAll (renameAll ρ as) (renameAll ρ bs) = alikeAll as bs := by
  cases as with
  | nil => cases bs <;> simp only [renameAll, alikeAll]
  | cons a as => cases bs <;> simp only [renameAll, alikeAll, alike_rename a, alikeAll_rename as]

theorem alikeSome_rename (a b : Option Node) :
    alikeSome (renameSome ρ a) (renameSome ρ b) = alikeSome a b := by
  cases a with
  | none => cases b <;> simp only [renameSome, alikeSome]
  | some a => cases b <;> simp only [renameSome, alikeSome, alike_rename a]

end

end Node

end TernLang
