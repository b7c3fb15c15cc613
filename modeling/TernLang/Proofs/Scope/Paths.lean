import TernLang.Proofs.Scope.Moves
import TernLang.Scope.Tree

-- Paths in a tree of scopes. The search for a name along a path finds the nearest scope that has
-- it, and a change to one scope is seen in that scope alone.

namespace TernLang

namespace Bindings

variable {α : Type} {bs : Bindings α} {name : String}

theorem mem_names_of_mem_put {other : String} {value : α} (h : other ∈ (bs.put name value).names) :
    other = name ∨ other ∈ bs.names := by
  obtain ⟨b, hb, rfl⟩ := List.mem_map.1 h
  exact (eq_or_mem_of_mem_put hb).imp (congrArg Prod.fst) List.mem_map_of_mem

theorem nodup_names_put (h : bs.names.Nodup) (name : String) (value : α) :
    (bs.put name value).names.Nodup := by
  induction bs with
  | nil => simp [put, names]
  | cons b bs ih =>
    obtain ⟨n, w⟩ := b
    obtain ⟨hn, hbs⟩ := List.nodup_cons.1 h
    rw [put]
    split
    · exact List.nodup_cons.2 ⟨hn, hbs⟩
    · rename_i hne
      refine List.nodup_cons.2 ⟨fun hmem => ?_, ih hbs⟩
      exact (mem_names_of_mem_put hmem).elim hne hn

-- Where a name is bound once, binding it anew changes its entry and leaves the others in place.
theorem put_eq_map (h : bs.names.Nodup) (hmem : name ∈ bs.names) (value : α) :
    bs.put name value = bs.map fun b => if b.1 = name then (name, value) else b := by
  induction bs with
  | nil => simp [names] at hmem
  | cons b bs ih =>
    obtain ⟨n, w⟩ := b
    obtain ⟨hn, hbs⟩ := List.nodup_cons.1 h
    rw [put, List.map_cons]
    split
    · rename_i heq
      subst heq
      have hrest (b : String × α) (hb : b ∈ bs) : (if b.1 = n then (n, value) else b) = b :=
        if_neg fun heq => hn (by simpa [heq] using List.mem_map_of_mem (f := (·.1)) hb)
      rw [List.map_congr_left hrest, List.map_id']
    · rename_i hne
      have hrest : name ∈ names bs := (List.mem_cons.1 hmem).resolve_left (Ne.symm hne)
      simp [ih hbs hrest]

end Bindings

-- A scope in which constants are kept apart by their names, and no variable is bound twice.
structure Frame.Tidy {α : Type} (f : Frame α) : Prop extends Frame.Ordered [] f where
  nodup : f.vars.names.Nodup

namespace Frame

variable {α : Type} {f : Frame α} {name : String}

theorem tidy_empty : (empty : Frame α).Tidy := ⟨ordered_empty, List.nodup_nil⟩

namespace Tidy

theorem declare (h : f.Tidy) (name : String) (value : α) : (f.declare name value).Tidy := by
  refine ⟨h.toOrdered.declare (by simp) name value, ?_⟩
  unfold Frame.declare
  split
  · exact h.nodup
  · exact Bindings.nodup_names_put h.nodup name value

theorem putVar (h : f.Tidy) (hmem : name ∈ f.vars.names) (value : α) :
    { f with vars := f.vars.put name value : Frame α }.Tidy := by
  have hassign : f.assign? name value = some { f with vars := f.vars.put name value } :=
    if_pos (Bindings.isSome_get?_iff.2 hmem)
  exact ⟨h.toOrdered.of_assign? hassign, Bindings.nodup_names_put h.nodup name value⟩

-- The name alone says whether to look among the constants or among the variables.
theorem get?_eq (h : f.Tidy) :
    f.get? name = if isConstantName name then f.consts.get? name else f.vars.get? name := by
  rw [Frame.get?]
  cases hvar : f.vars.get? name with
  | some value =>
    have hname : isConstantName name = false :=
      h.toOrdered.not_isConstantName (Bindings.isSome_get?_iff.1 (by simp [hvar]))
    simp [hname]
  | none =>
    cases hconst : f.consts.get? name with
    | none => simp
    | some value =>
      have hmem : name ∈ f.consts.names := Bindings.isSome_get?_iff.1 (by simp [hconst])
      obtain ⟨b, hb, rfl⟩ := List.mem_map.1 hmem
      have hname : isConstantName b.1 = true := (h.consts b hb).resolve_right (by simp)
      simp [hname]

theorem get?_declare (h : f.Tidy) (name : String) (value : α) (other : String) :
    (f.declare name value).get? other = if name = other then some value else f.get? other := by
  rw [(h.declare name value).get?_eq, h.get?_eq, Frame.declare]
  by_cases heq : name = other
  · subst heq
    cases hname : isConstantName name <;> simp
  · cases hname : isConstantName name <;> simp [heq, Bindings.get?_put_of_ne _ value heq]

theorem get?_putVar (h : f.Tidy) (hmem : name ∈ f.vars.names) (value : α) (other : String) :
    { f with vars := f.vars.put name value : Frame α }.get? other =
      if name = other then some value else f.get? other := by
  have hname : isConstantName name = false := h.toOrdered.not_isConstantName hmem
  have hdeclare : f.declare name value = { f with vars := f.vars.put name value } := by
    simp [Frame.declare, hname]
  rw [← hdeclare, h.get?_declare]

end Tidy

end Frame

-- The nearest of a scope and those around it that has a property.
inductive Nearest (parent? : Nat → Option Nat) (P : Nat → Prop) : Nat → Nat → Prop where
  | here {i : Nat} (holds : P i) : Nearest parent? P i i
  | around {i p j : Nat} (fails : ¬P i) (parent : parent? i = some p)
    (next : Nearest parent? P p j) : Nearest parent? P i j

namespace Nearest

variable {parent? : Nat → Option Nat} {P Q : Nat → Prop} {i j k : Nat}

theorem holds (h : Nearest parent? P i j) : P j := by
  induction h with
  | here holds => exact holds
  | around _ _ _ ih => exact ih

theorem unique (h : Nearest parent? P i j) (h' : Nearest parent? P i k) : j = k := by
  induction h with
  | here holds =>
    cases h' with
    | here _ => rfl
    | around fails _ _ => exact absurd holds fails
  | around fails parent _ ih =>
    cases h' with
    | here holds => exact absurd holds fails
    | around _ parent' next' =>
      obtain rfl := Option.some.inj (parent.symm.trans parent')
      exact ih next'

end Nearest

namespace ScopeTree

variable {α : Type} {t : ScopeTree α} {i j : Nat}

@[simp]
theorem parent?_modify (t : ScopeTree α) (i : Nat) (f : Frame α → Frame α) :
    (t.modify i f).parent? = t.parent? := by
  funext j
  cases i with
  | zero => cases j <;> rfl
  | succ i =>
    cases j with
    | zero => rfl
    | succ j =>
      simp only [modify, parent?, List.getElem?_modify]
      split <;> cases t.inner[j]? <;> rfl

theorem frame?_modify (t : ScopeTree α) (i j : Nat) (f : Frame α → Frame α) :
    (t.modify i f).frame? j = if i = j then (t.frame? j).map f else t.frame? j := by
  cases i with
  | zero => cases j <;> simp [modify, frame?]
  | succ i =>
    cases j with
    | zero => simp [modify, frame?]
    | succ j =>
      simp only [modify, frame?, List.getElem?_modify, Nat.succ.injEq, Option.map_map]
      split <;> cases t.inner[j]? <;> rfl

@[simp]
theorem length_inner_modify (t : ScopeTree α) (i : Nat) (f : Frame α → Frame α) :
    (t.modify i f).inner.length = t.inner.length := by
  cases i <;> simp [modify]

theorem getElem?_inner_child (t : ScopeTree α) (p i : Nat) :
    (t.child p).2.inner[i]? = if i = t.inner.length then some (p, {}) else t.inner[i]? := by
  rw [child, List.getElem?_append]
  rcases Nat.lt_trichotomy i t.inner.length with hi | rfl | hi
  · rw [if_pos hi, if_neg (Nat.ne_of_lt hi)]
  · simp
  · have hnone : [(p, ({} : Frame α))][i - t.inner.length]? = none :=
      List.getElem?_eq_none (by rw [List.length_singleton]; omega)
    rw [if_neg (by omega), if_neg (by omega), hnone, List.getElem?_eq_none (by omega)]

theorem parent?_child (t : ScopeTree α) (p i : Nat) :
    (t.child p).2.parent? i = if i = t.inner.length + 1 then some p else t.parent? i := by
  cases i with
  | zero => simp [parent?]
  | succ i =>
    rw [parent?, parent?, getElem?_inner_child]
    by_cases hi : i = t.inner.length <;> simp [hi]

theorem frame?_child (t : ScopeTree α) (p i : Nat) :
    (t.child p).2.frame? i = if i = t.inner.length + 1 then some {} else t.frame? i := by
  cases i with
  | zero => simp [frame?, child]
  | succ i =>
    rw [frame?, frame?, getElem?_inner_child]
    by_cases hi : i = t.inner.length <;> simp [hi]

theorem isSome_frame?_iff : (t.frame? i).isSome ↔ i < t.inner.length + 1 := by
  cases i <;> simp [frame?]

-- Every scope was made inside one with a smaller number.
def Grown (t : ScopeTree α) : Prop := ∀ i p, t.parent? i = some p → p < i

-- A scope comes first on its path, and then come the scopes on the path of the one around it.
theorem pathWithin_eq (ht : t.Grown) {n : Nat} (hn : i < n) : t.pathWithin n i = t.path i := by
  rw [path]
  suffices h : ∀ m, i < m → t.pathWithin n i = t.pathWithin m i from h _ (Nat.lt_succ_self i)
  induction n generalizing i with
  | zero => omega
  | succ n ih =>
    intro m hm
    obtain ⟨m, rfl⟩ : ∃ k, m = k + 1 := ⟨m - 1, by omega⟩
    rw [pathWithin, pathWithin]
    cases hp : t.parent? i with
    | none => rfl
    | some p =>
      have hlt := ht i p hp
      exact congrArg (i :: ·) (ih (by omega) m (by omega))

theorem path_eq (ht : t.Grown) (i : Nat) :
    t.path i = i :: ((t.parent? i).map t.path).getD [] := by
  rw [path, pathWithin]
  cases hp : t.parent? i with
  | none => rfl
  | some p => exact congrArg (i :: ·) (pathWithin_eq ht (ht i p hp))

-- The search along a path finds the nearest scope of the kind that is looked for.
theorem find?_path_eq_some_iff (ht : t.Grown) {q : Nat → Bool} :
    (t.path i).find? q = some j ↔ Nearest t.parent? (fun k => q k = true) i j := by
  induction i using Nat.strongRecOn with
  | _ i ih =>
    rw [path_eq ht, List.find?_cons]
    cases hq : q i with
    | true =>
      refine ⟨fun h => Option.some.inj h ▸ .here hq, fun h => ?_⟩
      exact congrArg some ((Nearest.here (P := fun k => q k = true) hq).unique h)
    | false =>
      have hfails : ¬q i = true := by simp [hq]
      cases hp : t.parent? i with
      | none =>
        refine iff_of_false (by simp) fun h => ?_
        cases h with
        | here holds => exact hfails holds
        | around _ parent _ => exact absurd (hp.symm.trans parent) (by simp)
      | some p =>
        refine (ih p (ht i p hp)).trans ⟨.around hfails hp, fun h => ?_⟩
        cases h with
        | here holds => exact absurd holds hfails
        | around _ parent next =>
          obtain rfl := Option.some.inj (hp.symm.trans parent)
          exact next

-- What a scope itself says of a name.
def binding? (t : ScopeTree α) (j : Nat) (name : String) : Option α :=
  (t.frame? j).bind (·.get? name)

theorem hasVariable_iff {name : String} :
    t.hasVariable name j = true ↔ ∃ f, t.frame? j = some f ∧ name ∈ f.vars.names := by
  cases hf : t.frame? j <;> simp [hasVariable, hf, Bindings.isSome_get?_iff]

-- A new scope says nothing of any name, as a scope that there is not.
theorem binding?_child (t : ScopeTree α) (p j : Nat) (name : String) :
    (t.child p).2.binding? j name = t.binding? j name := by
  rw [binding?, binding?, frame?_child]
  split
  · rename_i hj
    have hnone : t.frame? j = none := by
      rw [← Option.not_isSome_iff_eq_none, isSome_frame?_iff]
      omega
    simp [hnone, Frame.get?]
  · rfl

-- Writing to one name in one scope changes what that scope says of that name.
theorem binding?_modify {f : Frame α → Frame α} {g : Frame α} {name : String} {value : α}
    (hg : t.frame? i = some g)
    (hf : ∀ other, (f g).get? other = if name = other then some value else g.get? other)
    (j : Nat) (other : String) :
    (t.modify i f).binding? j other =
      if i = j ∧ name = other then some value else t.binding? j other := by
  rw [binding?, binding?, frame?_modify]
  by_cases hj : i = j
  · subst hj
    simp [hg, hf]
  · simp [hj]

theorem lookup?_eq (t : ScopeTree α) (i : Nat) (name : String) :
    t.lookup? i name =
      ((t.path i).find? fun j => (t.binding? j name).isSome).bind (t.binding? · name) := by
  rw [lookup?]
  induction t.path i with
  | nil => rfl
  | cons j js ih =>
    rw [List.findSome?_cons, List.find?_cons, ← binding?]
    cases hj : t.binding? j name with
    | some value => simp [hj]
    | none => simpa using ih

-- A variable of one scope has another value, and there is no other difference between two trees.
structure Overwritten (t u : ScopeTree α) (j : Nat) (name : String) (value : α) : Prop where
  size : u.inner.length = t.inner.length
  parents : u.parent? = t.parent?
  others : ∀ k, k ≠ j → u.frame? k = t.frame? k
  owner : ∃ f, t.frame? j = some f ∧ name ∈ f.vars.names ∧ u.frame? j =
    some { f with vars := f.vars.map fun b => if b.1 = name then (name, value) else b }

theorem overwritten_modify {f : Frame α} {name : String} (hf : t.frame? j = some f) (htidy : f.Tidy)
    (hmem : name ∈ f.vars.names) (value : α) :
    t.Overwritten (t.modify j fun f => { f with vars := f.vars.put name value }) j name value where
  size := length_inner_modify ..
  parents := parent?_modify ..
  others k hk := by rw [frame?_modify, if_neg (Ne.symm hk)]
  owner := by
    refine ⟨f, hf, hmem, ?_⟩
    rw [frame?_modify, if_pos rfl, hf, Option.map_some, Bindings.put_eq_map htidy.nodup hmem]

end ScopeTree

end TernLang
