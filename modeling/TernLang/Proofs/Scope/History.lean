import TernLang.Proofs.Scope.Paths

-- Trees of scopes by their history. Which scope owns a name, and what was last written to the name
-- there, can be read off the operations alone. Lookup and assignment find this owner on the tree,
-- though the one asks for variables and constants and the other for variables only.

namespace TernLang

-- What a client did to a tree of scopes, the last operation outermost. The index counts the scopes
-- that there are by then, and every operation names one of them.
inductive History (α : Type) : Nat → Type where
  | start : History α 1
  | child {n : Nat} (earlier : History α n) (parent : Fin n) : History α (n + 1)
  | declare {n : Nat} (earlier : History α n) (scope : Fin n) (name : String) (value : α) :
    History α n
  | assign {n : Nat} (earlier : History α n) (scope : Fin n) (name : String) (value : α) :
    History α n
  | lookup {n : Nat} (earlier : History α n) (scope : Fin n) (name : String) : History α n

namespace History

variable {α : Type} {n : Nat}

-- An operation that fails leaves the tree as it was.
def tree {n : Nat} : History α n → ScopeTree α
  | start => {}
  | child h parent => (h.tree.child parent).2
  | declare h i name value => (h.tree.declare i (.str name) value).toOption.getD h.tree
  | assign h i name value => (h.tree.assign i (.str name) value).toOption.getD h.tree
  | lookup h _ _ => h.tree

-- A new scope has the number that comes after those in use.
def parent? {n : Nat} : History α n → Nat → Option Nat
  | start, _ => none
  | @child _ n h parent, i => if i = n then some parent.val else h.parent? i
  | declare h _ _ _, i => h.parent? i
  | assign h _ _ _, i => h.parent? i
  | lookup h _ _, i => h.parent? i

-- Whether a name has been declared in a scope.
def Declared {n : Nat} (name : String) (j : Nat) : History α n → Prop
  | start => False
  | child h _ => h.Declared name j
  | declare h i other _ => (i.val = j ∧ other = name) ∨ h.Declared name j
  | assign h _ _ _ => h.Declared name j
  | lookup h _ _ => h.Declared name j

-- The owner of a name for a scope.
def Owns (h : History α n) (name : String) : Nat → Nat → Prop :=
  Nearest h.parent? fun j => h.Declared name j

-- The value of the most recent write to a name in a scope. A declaration there is a write, and so
-- is an assignment from any scope for which that one owns the name at the time, unless the name is
-- that of a constant.
def LastWrite {n : Nat} (name : String) (j : Nat) (value : α) : History α n → Prop
  | start => False
  | child h _ => h.LastWrite name j value
  | declare h i other written =>
    ((i.val = j ∧ other = name) ∧ written = value) ∨
    (¬(i.val = j ∧ other = name) ∧ h.LastWrite name j value)
  | assign h i other written =>
    ((h.Owns name i j ∧ other = name ∧ isConstantName name = false) ∧ written = value) ∨
    (¬(h.Owns name i j ∧ other = name ∧ isConstantName name = false) ∧ h.LastWrite name j value)
  | lookup h _ _ => h.LastWrite name j value

theorem parent?_lt {n : Nat} (h : History α n) {i p : Nat} (hp : h.parent? i = some p) :
    p < i ∧ i < n := by
  induction h with
  | start => simp [parent?] at hp
  | @child n h parent ih =>
    rw [parent?] at hp
    split at hp
    · obtain rfl := Option.some.inj hp
      have := parent.isLt
      omega
    · have := ih hp
      omega
  | declare h _ _ _ ih => exact ih hp
  | assign h _ _ _ ih => exact ih hp
  | lookup h _ _ ih => exact ih hp

-- What was declared has been written, and all that was written had been declared.
theorem exists_lastWrite_iff {n : Nat} (h : History α n) {name : String} {j : Nat} :
    (∃ value, h.LastWrite name j value) ↔ h.Declared name j := by
  induction h with
  | start => simp [LastWrite, Declared]
  | child h _ ih => exact ih
  | declare h i other written ih =>
    by_cases hwrite : i.val = j ∧ other = name
    · simp [LastWrite, Declared, hwrite]
    · simp [LastWrite, Declared, ← ih, hwrite]
  | assign h i other written ih =>
    by_cases hwrite : h.Owns name i j ∧ other = name ∧ isConstantName name = false
    · simp [LastWrite, Declared, hwrite, show h.Declared name j from hwrite.1.holds]
    · simp [LastWrite, Declared, ← ih, hwrite]
  | lookup h _ _ ih => exact ih

-- A tree that has come about by a history.
structure Records (t : ScopeTree α) (h : History α n) : Prop where
  size : t.inner.length + 1 = n
  parents : t.parent? = h.parent?
  tidy : ∀ j f, t.frame? j = some f → f.Tidy
  entries : ∀ j name value, t.binding? j name = some value ↔ h.LastWrite name j value

namespace Records

variable {t u : ScopeTree α} {h : History α n} {name : String} {value : α} {i : Nat}

theorem grown (ht : Records t h) : t.Grown := fun i p hp =>
  (h.parent?_lt (by rwa [← ht.parents])).1

theorem isSome_binding?_iff (ht : Records t h) {j : Nat} :
    (t.binding? j name).isSome = true ↔ h.Declared name j := by
  rw [Option.isSome_iff_exists, ← h.exists_lastWrite_iff]
  exact exists_congr fun value => ht.entries j name value

-- A search that asks whether the name was declared finds its owner.
theorem find?_path_eq_some_iff (ht : Records t h) {q : Nat → Bool}
    (hq : ∀ j, q j = true ↔ h.Declared name j) {j : Nat} :
    (t.path i).find? q = some j ↔ h.Owns name i j := by
  rw [ScopeTree.find?_path_eq_some_iff ht.grown, Owns, ht.parents]
  have hP : (fun k => q k = true) = fun k => h.Declared name k := funext fun k => propext (hq k)
  rw [hP]

theorem lookup?_eq_some_iff (ht : Records t h) :
    t.lookup? i name = some value ↔ ∃ j, h.Owns name i j ∧ h.LastWrite name j value := by
  rw [ScopeTree.lookup?_eq, Option.bind_eq_some_iff]
  have hdeclared (j : Nat) : (t.binding? j name).isSome = true ↔ h.Declared name j :=
    ht.isSome_binding?_iff
  exact exists_congr fun j =>
    and_congr (ht.find?_path_eq_some_iff hdeclared) (ht.entries j name value)

theorem lookup?_eq_none_iff (ht : Records t h) :
    t.lookup? i name = none ↔ ¬∃ j, h.Owns name i j := by
  have howner : (∃ j, h.Owns name i j) ↔ ∃ value, t.lookup? i name = some value := by
    constructor
    · rintro ⟨j, hj⟩
      obtain ⟨value, hvalue⟩ := h.exists_lastWrite_iff.2 hj.holds
      exact ⟨value, ht.lookup?_eq_some_iff.2 ⟨j, hj, hvalue⟩⟩
    · rintro ⟨value, hvalue⟩
      obtain ⟨j, hj, -⟩ := ht.lookup?_eq_some_iff.1 hvalue
      exact ⟨j, hj⟩
  rw [howner, Option.eq_none_iff_forall_ne_some, not_exists]

-- A scope that has a name has it as a variable, unless it is that of a constant.
theorem hasVariable_iff (ht : Records t h) {j : Nat} :
    t.hasVariable name j = true ↔ isConstantName name = false ∧ h.Declared name j := by
  rw [ScopeTree.hasVariable_iff, ← ht.isSome_binding?_iff, ScopeTree.binding?]
  cases hf : t.frame? j with
  | none => simp
  | some f =>
    rw [Option.bind_some, (ht.tidy j f hf).get?_eq]
    cases hname : isConstantName name with
    | false => simp [Bindings.isSome_get?_iff]
    | true =>
      have hvars : name ∉ f.vars.names := fun hmem => by
        simpa [hname] using (ht.tidy j f hf).toOrdered.not_isConstantName hmem
      simp [hvars]

theorem assign?_eq_some_iff (ht : Records t h) :
    t.assign? i value name = some u ↔ isConstantName name = false ∧ ∃ j, h.Owns name i j ∧
      t.modify j (fun f => { f with vars := f.vars.put name value }) = u := by
  rw [ScopeTree.assign?, Option.map_eq_some_iff]
  cases hname : isConstantName name with
  | true =>
    have hnone : (t.path i).find? (t.hasVariable name) = none :=
      List.find?_eq_none.2 fun j _ hj => by simpa [hname] using ht.hasVariable_iff.1 hj
    simp [hnone]
  | false =>
    have hdeclared (j : Nat) : t.hasVariable name j = true ↔ h.Declared name j := by
      rw [ht.hasVariable_iff]
      simp [hname]
    simp [ht.find?_path_eq_some_iff hdeclared]

-- The owner of a name that is not a constant's has it as a variable.
theorem exists_of_owns (ht : Records t h) (hname : isConstantName name = false) {j : Nat}
    (hj : h.Owns name i j) : ∃ f, t.frame? j = some f ∧ name ∈ f.vars.names :=
  ScopeTree.hasVariable_iff.1 (ht.hasVariable_iff.2 ⟨hname, hj.holds⟩)

theorem start : Records {} (start : History α 1) where
  size := rfl
  parents := by
    funext i
    cases i <;> rfl
  tidy j f hf := by
    cases j with
    | zero => exact Option.some.inj hf ▸ Frame.tidy_empty
    | succ j => simp [ScopeTree.frame?] at hf
  entries j name value := by
    cases j <;> simp [ScopeTree.binding?, ScopeTree.frame?, Frame.get?, LastWrite]

theorem child (ht : Records t h) (p : Fin n) : Records (t.child p).2 (h.child p) where
  size := by simp [ScopeTree.child, ht.size]
  parents := by
    funext i
    rw [ScopeTree.parent?_child, ht.size, ht.parents, parent?]
  tidy j f hf := by
    rw [ScopeTree.frame?_child] at hf
    split at hf
    · exact Option.some.inj hf ▸ Frame.tidy_empty
    · exact ht.tidy j f hf
  entries j name value := by
    rw [ScopeTree.binding?_child]
    exact ht.entries j name value

-- What a write makes of the tree, where `g` is the scope that is written to.
theorem tidy_modify (ht : Records t h) {f : Frame α → Frame α} {g : Frame α}
    (hg : t.frame? i = some g) (hf : (f g).Tidy) (j : Nat) (g' : Frame α)
    (hg' : (t.modify i f).frame? j = some g') : g'.Tidy := by
  rw [ScopeTree.frame?_modify] at hg'
  split at hg'
  · rename_i hj
    subst hj
    obtain rfl : f g = g' := by simpa [hg] using hg'
    exact hf
  · exact ht.tidy j g' hg'

theorem declare (ht : Records t h) (i : Fin n) (name : String) (value : α) :
    Records (t.modify i (·.declare name value)) (h.declare i name value) := by
  obtain ⟨g, hg⟩ : ∃ g, t.frame? i = some g :=
    Option.isSome_iff_exists.1 (ScopeTree.isSome_frame?_iff.2 (ht.size ▸ i.isLt))
  have hget := (ht.tidy i g hg).get?_declare name value
  refine ⟨by simp [ht.size], by simp [ht.parents, parent?], ?_, fun j other w => ?_⟩
  · exact ht.tidy_modify hg ((ht.tidy i g hg).declare name value)
  · rw [ScopeTree.binding?_modify hg hget, LastWrite, ← ht.entries]
    by_cases hwrite : i.val = j ∧ name = other
    · simp [hwrite]
    · simp [hwrite]

theorem assign_ok (ht : Records t h) (i : Fin n) (hname : isConstantName name = false) {j : Nat}
    (hj : h.Owns name i j) (value : α) :
    Records (t.modify j fun f => { f with vars := f.vars.put name value })
      (h.assign i name value) := by
  obtain ⟨g, hg, hmem⟩ := ht.exists_of_owns hname hj
  have hget := (ht.tidy j g hg).get?_putVar hmem value
  refine ⟨by simp [ht.size], by simp [ht.parents, parent?], ?_, fun k other w => ?_⟩
  · exact ht.tidy_modify hg ((ht.tidy j g hg).putVar hmem value)
  · have howns : (h.Owns other i k ∧ name = other ∧ isConstantName other = false) ↔
        (j = k ∧ name = other) := by
      constructor
      · rintro ⟨hk, rfl, -⟩
        exact ⟨hj.unique hk, rfl⟩
      · rintro ⟨rfl, rfl⟩
        exact ⟨hj, rfl, hname⟩
    rw [ScopeTree.binding?_modify hg hget, LastWrite, ← ht.entries, howns]
    by_cases hwrite : j = k ∧ name = other
    · simp [hwrite]
    · simp [hwrite]

-- An assignment that fails writes nothing.
theorem assign_error (ht : Records t h) (i : Fin n)
    (hfails : ¬(isConstantName name = false ∧ ∃ j, h.Owns name i j)) (value : α) :
    Records t (h.assign i name value) := by
  refine ⟨ht.size, ht.parents, ht.tidy, fun k other w => ?_⟩
  have howns : ¬(h.Owns other i k ∧ name = other ∧ isConstantName other = false) := by
    rintro ⟨hk, rfl, hname⟩
    exact hfails ⟨hname, k, hk⟩
  simp [LastWrite, ht.entries, howns]

end Records

theorem records_tree {n : Nat} (h : History α n) : Records h.tree h := by
  induction h with
  | start => exact .start
  | child h p ih => exact ih.child p
  | declare h i name value ih => exact ih.declare i name value
  | assign h i name value ih =>
    rw [tree, ScopeTree.assign]
    cases hassign : h.tree.assign? i value name with
    | some u =>
      obtain ⟨hname, j, hj, rfl⟩ := ih.assign?_eq_some_iff.1 hassign
      rw [Name.lookup_str_of_some hassign]
      exact ih.assign_ok i hname hj value
    | none =>
      rw [Name.lookup_str_of_none hassign]
      refine ih.assign_error i ?_ value
      rintro ⟨hname, j, hj⟩
      rw [ih.assign?_eq_some_iff.2 ⟨hname, j, hj, rfl⟩] at hassign
      exact absurd hassign (by simp)
  | lookup h _ _ ih => exact ⟨ih.size, ih.parents, ih.tidy, ih.entries⟩

section Outcomes

variable (h : History α n) (i : Fin n) (name : String) (value : α)

theorem lookup_eq_ok_iff : h.tree.lookup i (.str name) = .ok value ↔
    ∃ j, h.Owns name i j ∧ h.LastWrite name j value := by
  rw [← (records_tree h).lookup?_eq_some_iff, ScopeTree.lookup]
  cases hlookup : h.tree.lookup? i name with
  | some found => simp [Name.lookup_str_of_some hlookup]
  | none => simp [Name.lookup_str_of_none hlookup]

theorem lookup_eq_error_iff (e : Failure) : h.tree.lookup i (.str name) = .error e ↔
    e = .ofCause (.undefinedName name) ∧ ¬∃ j, h.Owns name i j := by
  rw [← (records_tree h).lookup?_eq_none_iff, ScopeTree.lookup]
  cases hlookup : h.tree.lookup? i name with
  | some found => simp [Name.lookup_str_of_some hlookup]
  | none => simp [Name.lookup_str_of_none hlookup, eq_comm]

theorem assign_eq_ok_iff (u : ScopeTree α) : h.tree.assign i (.str name) value = .ok u ↔
    isConstantName name = false ∧ ∃ j, h.Owns name i j ∧
      h.tree.modify j (fun f => { f with vars := f.vars.put name value }) = u := by
  rw [← (records_tree h).assign?_eq_some_iff, ScopeTree.assign]
  cases hassign : h.tree.assign? i value name with
  | some found => simp [Name.lookup_str_of_some hassign]
  | none => simp [Name.lookup_str_of_none hassign]

theorem eq_of_assign_error {e : Failure} (he : h.tree.assign i (.str name) value = .error e) :
    e = .ofCause (.undefinedName name) := by
  rw [ScopeTree.assign] at he
  cases hassign : h.tree.assign? i value name with
  | some found => simp [Name.lookup_str_of_some hassign] at he
  | none => simpa [Name.lookup_str_of_none hassign, eq_comm] using he

-- The owner of a name is still its owner when the name has been assigned.
theorem lastWrite_assign {j : Nat} (hname : isConstantName name = false)
    (hj : h.Owns name i j) : (h.assign i name value).Owns name i j ∧
      (h.assign i name value).LastWrite name j value :=
  ⟨hj, .inl ⟨⟨hj, rfl, hname⟩, rfl⟩⟩

end Outcomes

-- What lookup and assignment do on a tree of scopes, whatever happened to it before.
theorem lookup_and_assign (h : History α n) (i : Fin n) (name : String) :
    (∀ value, h.tree.lookup i (.str name) = .ok value ↔
      ∃ j, h.Owns name i j ∧ h.LastWrite name j value) ∧
    (∀ e, h.tree.lookup i (.str name) = .error e ↔
      e = .ofCause (.undefinedName name) ∧ ¬∃ j, h.Owns name i j) ∧
    (h.lookup i name).tree = h.tree ∧
    ∀ value,
      ((∃ u, h.tree.assign i (.str name) value = .ok u) ↔
        isConstantName name = false ∧ ∃ j, h.Owns name i j) ∧
      (∀ u, h.tree.assign i (.str name) value = .ok u →
        (∃ j, h.Owns name i j ∧ h.tree.Overwritten u j name value) ∧
        u.lookup i (.str name) = .ok value ∧ (h.assign i name value).tree = u) ∧
      ∀ e, h.tree.assign i (.str name) value = .error e →
        e = .ofCause (.undefinedName name) ∧ (h.assign i name value).tree = h.tree := by
  have ht := records_tree h
  refine ⟨h.lookup_eq_ok_iff i name, h.lookup_eq_error_iff i name, rfl, fun value => ⟨?_, ?_, ?_⟩⟩
  · constructor
    · rintro ⟨u, hu⟩
      obtain ⟨hname, j, hj, -⟩ := (h.assign_eq_ok_iff i name value u).1 hu
      exact ⟨hname, j, hj⟩
    · rintro ⟨hname, j, hj⟩
      exact ⟨_, (h.assign_eq_ok_iff i name value _).2 ⟨hname, j, hj, rfl⟩⟩
  · intro u hu
    have htree : (h.assign i name value).tree = u := by rw [tree, hu]; rfl
    obtain ⟨hname, j, hj, rfl⟩ := (h.assign_eq_ok_iff i name value u).1 hu
    obtain ⟨f, hf, hmem⟩ := ht.exists_of_owns hname hj
    have hlast := h.lastWrite_assign i name value hname hj
    refine ⟨⟨j, hj, ScopeTree.overwritten_modify hf (ht.tidy j f hf) hmem value⟩, ?_, htree⟩
    rw [← htree]
    exact ((h.assign i name value).lookup_eq_ok_iff i name value).2 ⟨j, hlast⟩
  · intro e he
    refine ⟨h.eq_of_assign_error i name value he, ?_⟩
    rw [tree, he]
    rfl

end History
end TernLang
