import Mathlib.Data.List.Forall2
import TernLang.Scope.Chain

-- What can happen to a chain of scopes: a scope is opened or left, a name is declared in the
-- current scope, a variable is changed. Whatever happens between the opening of a scope and its
-- end, the scopes around it keep their names.

namespace TernLang

namespace Bindings

variable {α : Type} {bs : Bindings α} {name : String}

def names (bs : Bindings α) : List String := bs.map (·.1)

theorem isSome_get?_iff : (bs.get? name).isSome ↔ name ∈ bs.names := by
  simp [get?, names]

theorem names_put_of_mem (h : name ∈ bs.names) (value : α) :
    (bs.put name value).names = bs.names := by
  induction bs with
  | nil => simp [names] at h
  | cons b bs ih =>
    obtain ⟨n, v⟩ := b
    rw [put]
    split
    · rfl
    · rename_i hne
      have hmem : name ∈ names bs := by
        rcases List.mem_cons.1 h with heq | hmem
        · exact absurd heq.symm hne
        · exact hmem
      exact congrArg (n :: ·) (ih hmem)

theorem eq_or_mem_of_mem_put {value : α} {b : String × α}
    (h : b ∈ bs.put name value) : b = (name, value) ∨ b ∈ bs := by
  induction bs with
  | nil => exact .inl (List.mem_singleton.1 h)
  | cons first bs ih =>
    obtain ⟨n, v⟩ := first
    rw [put] at h
    split at h
    · rename_i hname
      subst hname
      rcases List.mem_cons.1 h with rfl | h
      · exact .inl rfl
      · exact .inr (List.mem_cons_of_mem _ h)
    · rcases List.mem_cons.1 h with rfl | h
      · exact .inr List.mem_cons_self
      · exact (ih h).imp_right (List.mem_cons_of_mem _)

-- A new name comes after those that there are.
theorem names_prefix_put (bs : Bindings α) (name : String) (value : α) :
    bs.names <+: (bs.put name value).names := by
  induction bs with
  | nil => exact List.nil_prefix
  | cons b bs ih =>
    obtain ⟨n, v⟩ := b
    rw [put]
    split
    · exact List.prefix_refl _
    · exact (List.prefix_cons_inj n).2 ih

end Bindings

namespace Frame

variable {α : Type} {f g h : Frame α}

-- Names may have been added, and none was lost.
structure Extended (f g : Frame α) : Prop where
  vars : f.vars.names <+: g.vars.names
  consts : f.consts.names <+: g.consts.names

-- At most the values of variables were changed.
structure Kept (f g : Frame α) : Prop where
  vars : g.vars.names = f.vars.names
  consts : g.consts = f.consts

-- A name is bound to the same as before, or is still not bound.
structure Spared (name : String) (f g : Frame α) : Prop where
  vars : g.vars.get? name = f.vars.get? name
  consts : g.consts.get? name = f.consts.get? name

namespace Kept

theorem refl (f : Frame α) : f.Kept f := ⟨rfl, rfl⟩

theorem trans (hfg : f.Kept g) (hgh : g.Kept h) : f.Kept h :=
  ⟨hgh.vars.trans hfg.vars, hgh.consts.trans hfg.consts⟩

theorem extended (hfg : f.Kept g) : f.Extended g :=
  ⟨hfg.vars ▸ List.prefix_refl _, hfg.consts ▸ List.prefix_refl _⟩

end Kept

theorem Extended.trans (hfg : f.Extended g) (hgh : g.Extended h) : f.Extended h :=
  ⟨hfg.vars.trans hgh.vars, hfg.consts.trans hgh.consts⟩

theorem exists_mem_vars {fs gs : List (Frame α)} (h : List.Forall₂ Extended fs gs) {name : String}
    (hname : ∃ f ∈ fs, name ∈ f.vars.names) : ∃ g ∈ gs, name ∈ g.vars.names := by
  induction h with
  | nil => exact hname
  | cons head _ ih =>
    rw [List.exists_mem_cons_iff] at hname ⊢
    exact hname.imp (fun hmem => head.vars.subset hmem) ih

theorem Spared.refl (name : String) (f : Frame α) : f.Spared name f := ⟨rfl, rfl⟩

theorem Spared.trans {name : String} (hfg : f.Spared name g) (hgh : g.Spared name h) :
    f.Spared name h :=
  ⟨hgh.vars.trans hfg.vars, hgh.consts.trans hfg.consts⟩

theorem extended_declare (f : Frame α) (name : String) (value : α) :
    f.Extended (f.declare name value) := by
  unfold declare
  split
  · exact ⟨List.prefix_refl _, Bindings.names_prefix_put ..⟩
  · exact ⟨Bindings.names_prefix_put .., List.prefix_refl _⟩

theorem mem_vars_declare (f : Frame α) {name : String} (hname : isConstantName name = false)
    (value : α) : name ∈ (f.declare name value).vars.names := by
  rw [← Bindings.isSome_get?_iff]
  simp [declare, hname]

section Assign

variable {name : String} {value : α}

theorem eq_of_assign? (hg : f.assign? name value = some g) :
    name ∈ f.vars.names ∧ g = { f with vars := f.vars.put name value } := by
  unfold assign? at hg
  split at hg
  · rename_i hsome
    exact ⟨Bindings.isSome_get?_iff.1 hsome, (Option.some.inj hg).symm⟩
  · exact absurd hg (by simp)

theorem assign?_eq_none_iff : f.assign? name value = none ↔ name ∉ f.vars.names := by
  rw [← Bindings.isSome_get?_iff]
  simp [assign?]

theorem kept_of_assign? (hg : f.assign? name value = some g) : f.Kept g := by
  obtain ⟨hmem, rfl⟩ := eq_of_assign? hg
  exact ⟨Bindings.names_put_of_mem hmem value, rfl⟩

theorem spared_of_assign? (hg : f.assign? name value = some g) {other : String}
    (hne : name ≠ other) : f.Spared other g := by
  obtain ⟨-, rfl⟩ := eq_of_assign? hg
  exact ⟨Bindings.get?_put_of_ne _ value hne, rfl⟩

end Assign

end Frame

-- Constants are kept apart from variables by their names, but for those that are given.
structure Frame.Ordered {α : Type} (given : Bindings α) (f : Frame α) : Prop where
  vars : ∀ b ∈ f.vars, isConstantName b.1 = false
  consts : ∀ b ∈ f.consts, isConstantName b.1 = true ∨ b ∈ given
  given : ∀ b ∈ given, f.consts.get? b.1 = some b.2

namespace Frame

variable {α : Type} {given : Bindings α} {f g : Frame α} {name : String} {value : α}

theorem ordered_empty : (empty : Frame α).Ordered [] :=
  ⟨by simp [empty], by simp [empty], by simp⟩

theorem Ordered.declare (h : f.Ordered given) (hgiven : ∀ b ∈ given, isConstantName b.1 = false)
    (name : String) (value : α) : (f.declare name value).Ordered given := by
  unfold Frame.declare
  split
  · rename_i hname
    refine ⟨h.vars, fun b hb => ?_, fun b hb => ?_⟩
    · rcases Bindings.eq_or_mem_of_mem_put hb with rfl | hb
      · exact .inl hname
      · exact h.consts b hb
    · have hne : name ≠ b.1 := fun heq => by simp [heq, hgiven b hb] at hname
      exact (Bindings.get?_put_of_ne _ value hne).trans (h.given b hb)
  · rename_i hname
    refine ⟨fun b hb => ?_, h.consts, h.given⟩
    rcases Bindings.eq_or_mem_of_mem_put hb with rfl | hb
    · simpa using hname
    · exact h.vars b hb

theorem Ordered.not_isConstantName (h : f.Ordered given) (hname : name ∈ f.vars.names) :
    isConstantName name = false := by
  obtain ⟨b, hb, rfl⟩ := List.mem_map.1 hname
  exact h.vars b hb

theorem Ordered.of_assign? (h : f.Ordered given) (hg : f.assign? name value = some g) :
    g.Ordered given := by
  obtain ⟨hmem, rfl⟩ := eq_of_assign? hg
  refine ⟨fun b hb => ?_, h.consts, h.given⟩
  rcases Bindings.eq_or_mem_of_mem_put hb with rfl | hb
  · exact h.not_isConstantName hmem
  · exact h.vars b hb

end Frame

theorem forall₂_trans {α : Type} {R : α → α → Prop} (hR : ∀ a b c, R a b → R b c → R a c)
    {as bs cs : List α} (hab : List.Forall₂ R as bs) (hbc : List.Forall₂ R bs cs) :
    List.Forall₂ R as cs := by
  induction hab generalizing cs with
  | nil => exact hbc
  | cons head _ ih =>
    cases hbc with
    | cons head' tail' => exact .cons (hR _ _ _ head head') (ih tail')

inductive Move (α : Type) where
  | enter
  | leave
  | declare (name : String) (value : α)
  | assign (name : String) (value : α)

namespace Chain

variable {α : Type} {c d e : Chain α}

-- A variable that is nowhere is not changed.
def move (c : Chain α) : Move α → Chain α
  | .enter => c.push .empty
  | .leave => c.pop
  | .declare name value => c.declare name value
  | .assign name value => (c.assign? name value).getD c

def after (c : Chain α) (moves : List (Move α)) : Chain α := moves.foldl move c

@[simp]
theorem after_nil (c : Chain α) : c.after [] = c := rfl

@[simp]
theorem after_cons (c : Chain α) (m : Move α) (ms : List (Move α)) :
    c.after (m :: ms) = (c.move m).after ms := rfl

@[simp]
theorem after_append (c : Chain α) (ms ns : List (Move α)) :
    c.after (ms ++ ns) = (c.after ms).after ns :=
  List.foldl_append

@[simp]
theorem frames_push (c : Chain α) (f : Frame α) : (c.push f).frames = f :: c.frames := rfl

theorem frames_pop (h : c.outer ≠ []) : c.pop.frames = c.outer := by
  unfold pop
  split
  · contradiction
  · rename_i houter
    exact houter.symm

section Assign

variable {name : String} {value : α}

-- The scopes of a chain in which a variable was changed.
theorem map_frames_assign? (c : Chain α) (name : String) (value : α) :
    (c.assign? name value).map frames = assignIn? name value c.frames := by
  rw [assign?, frames, assignIn?]
  cases c.current.assign? name value with
  | some g => rfl
  | none => cases assignIn? name value c.outer <;> rfl

theorem frames_of_assign? (h : c.assign? name value = some d) :
    assignIn? name value c.frames = some d.frames := by
  rw [← map_frames_assign?, h]
  rfl

-- One scope has the variable changed, and the others are as they were.
theorem forall₂_of_assignIn? {R : Frame α → Frame α → Prop} (hrefl : ∀ f, R f f)
    (hchange : ∀ f g, f.assign? name value = some g → R f g) {fs gs : List (Frame α)}
    (h : assignIn? name value fs = some gs) : List.Forall₂ R fs gs := by
  induction fs generalizing gs with
  | nil => exact absurd h (by simp [assignIn?])
  | cons f fs ih =>
    rw [assignIn?] at h
    split at h
    · rename_i g hg
      obtain rfl := Option.some.inj h
      exact .cons (hchange f g hg) (List.forall₂_same.2 fun f _ => hrefl f)
    · obtain ⟨rest, hrest, rfl⟩ := Option.map_eq_some_iff.1 h
      exact .cons (hrefl f) (ih hrest)

-- The variable is changed in one of the first `k` scopes, if one of them has it.
theorem spared_drop_of_assignIn? {fs gs : List (Frame α)} (h : assignIn? name value fs = some gs)
    {other : String} {k : Nat} (hinner : ∃ f ∈ fs.take k, other ∈ f.vars.names) :
    List.Forall₂ (Frame.Spared other) (fs.drop k) (gs.drop k) := by
  by_cases hne : name = other
  · subst hne
    induction fs generalizing gs k with
    | nil => exact absurd h (by simp [assignIn?])
    | cons f fs ih =>
      cases k with
      | zero => exact absurd hinner (by simp)
      | succ k =>
        rw [assignIn?] at h
        split at h
        · obtain rfl := Option.some.inj h
          exact List.forall₂_same.2 fun f _ => .refl name f
        · rename_i hf
          obtain ⟨rest, hrest, rfl⟩ := Option.map_eq_some_iff.1 h
          rw [List.take_succ_cons, List.exists_mem_cons_iff] at hinner
          exact ih hrest (hinner.resolve_left (Frame.assign?_eq_none_iff.1 hf))
  · have hchange (f g : Frame α) (hg : f.assign? name value = some g) : f.Spared other g :=
      Frame.spared_of_assign? hg hne
    exact List.forall₂_drop k (forall₂_of_assignIn? (.refl other) hchange h)

end Assign

section Scopes

variable {i : Nat} {f g : Frame α}

-- The scopes counted from the root, which is scope 0, to the current one.
def scope? (c : Chain α) (i : Nat) : Option (Frame α) := c.frames.reverse[i]?

-- A scope is the current one or one around it.
theorem scope?_eq_some_iff : c.scope? i = some g ↔
    (i = c.outer.length ∧ g = c.current) ∨ c.outer.reverse[i]? = some g := by
  have hlength : c.outer.reverse.length = c.outer.length := List.length_reverse
  rw [scope?, frames, List.reverse_cons]
  rcases Nat.lt_trichotomy i c.outer.length with hi | rfl | hi
  · rw [List.getElem?_append_left (by omega)]
    simp [Nat.ne_of_lt hi]
  · rw [List.getElem?_append_right (by omega), hlength]
    simp [eq_comm]
  · have hnone : (c.outer.reverse ++ [c.current])[i]? = none := by
      rw [List.getElem?_eq_none_iff, List.length_append, List.length_singleton]
      omega
    rw [hnone, List.getElem?_eq_none (by omega)]
    simp [Nat.ne_of_gt hi]

theorem exists_of_scope?_assign {name : String} {value : α} (h : c.assign? name value = some d)
    (hg : d.scope? i = some g) :
    ∃ f, c.scope? i = some f ∧ (g = f ∨ f.assign? name value = some g) := by
  have hframes := forall₂_of_assignIn? (R := fun f g => g = f ∨ f.assign? name value = some g)
    (fun _ => .inl rfl) (fun _ _ => .inr) (frames_of_assign? h)
  have hreverse := List.forall₂_reverse_iff.2 hframes
  obtain ⟨hi, rfl⟩ := List.getElem?_eq_some_iff.1 hg
  have hi' : i < c.frames.reverse.length := hreverse.length_eq ▸ hi
  exact ⟨_, List.getElem?_eq_getElem hi', hreverse.get hi' hi⟩

-- What a move does to one scope: it is new, or it stays as it is, or it is the current one and
-- something is declared in it, or one of its variables is changed.
theorem exists_of_scope?_move {m : Move α} (h : (c.move m).scope? i = some g) :
    (i = c.frames.length ∧ g = .empty) ∨
    ∃ f, c.scope? i = some f ∧
      (g = f ∨
        (∃ name value, m = .declare name value ∧ i + 1 = c.frames.length ∧
          g = f.declare name value) ∨
        ∃ name value, f.assign? name value = some g) := by
  cases m with
  | enter =>
    rcases scope?_eq_some_iff.1 h with ⟨hi, hg⟩ | hg
    · exact .inl ⟨hi, hg⟩
    · exact .inr ⟨g, hg, .inl rfl⟩
  | leave =>
    refine .inr ⟨g, ?_, .inl rfl⟩
    by_cases houter : c.outer = []
    · simpa [move, pop, houter] using h
    · rw [move, scope?, frames_pop houter] at h
      exact scope?_eq_some_iff.2 (.inr h)
  | declare name value =>
    refine .inr ?_
    rcases scope?_eq_some_iff.1 h with ⟨hi, rfl⟩ | hg
    · exact ⟨c.current, scope?_eq_some_iff.2 (.inl ⟨hi, rfl⟩),
        .inr (.inl ⟨name, value, rfl, congrArg (· + 1) hi, rfl⟩)⟩
    · exact ⟨g, scope?_eq_some_iff.2 (.inr hg), .inl rfl⟩
  | assign name value =>
    rw [move] at h
    cases hd : c.assign? name value with
    | none =>
      rw [hd] at h
      exact .inr ⟨g, h, .inl rfl⟩
    | some d =>
      rw [hd] at h
      obtain ⟨f, hf, hfg⟩ := exists_of_scope?_assign hd h
      exact .inr ⟨f, hf, hfg.imp_right fun hfg => .inr ⟨name, value, hfg⟩⟩

end Scopes

end Chain

-- Moves that leave every scope they open. Unless `declares` is true nothing is declared in the
-- scope that they start in.
inductive Balanced {α : Type} : Bool → List (Move α) → Prop where
  | nil {declares : Bool} : Balanced declares []
  | append {declares : Bool} {ms ns : List (Move α)} (first : Balanced declares ms)
    (second : Balanced declares ns) : Balanced declares (ms ++ ns)
  | assign {declares : Bool} (name : String) (value : α) : Balanced declares [.assign name value]
  | declare (name : String) (value : α) : Balanced true [.declare name value]
  | scope {declares : Bool} {ms : List (Move α)} (inner : Balanced true ms) :
    Balanced declares (.enter :: (ms ++ [.leave]))

namespace Chain

variable {α : Type} {c d e : Chain α} {declares : Bool}

-- What balanced moves make of a chain.
structure Framed (declares : Bool) (c d : Chain α) : Prop where
  outer : List.Forall₂ Frame.Kept c.outer d.outer
  extended : c.current.Extended d.current
  kept : declares = false → c.current.Kept d.current

namespace Framed

theorem of_kept (h : List.Forall₂ Frame.Kept c.frames d.frames) : Framed declares c d := by
  cases h with
  | cons current outer => exact ⟨outer, current.extended, fun _ => current⟩

theorem refl (c : Chain α) : Framed declares c c :=
  .of_kept (List.forall₂_same.2 fun f _ => .refl f)

theorem trans (hcd : Framed declares c d) (hde : Framed declares d e) : Framed declares c e where
  outer := forall₂_trans (fun _ _ _ => .trans) hcd.outer hde.outer
  extended := hcd.extended.trans hde.extended
  kept h := (hcd.kept h).trans (hde.kept h)

theorem frames (h : Framed declares c d) : List.Forall₂ Frame.Extended c.frames d.frames :=
  .cons h.extended (h.outer.imp fun _ _ hf => hf.extended)

theorem outer_ne_nil {f : Frame α} (h : Framed declares (c.push f) d) : d.outer ≠ [] := by
  have hlength := h.outer.length_eq
  intro hnil
  rw [hnil] at hlength
  exact absurd hlength (by simp [push, Chain.frames])

-- The scopes around the current one are left when that is.
theorem frames_pop {f : Frame α} (h : Framed declares (c.push f) d) : d.pop.frames = d.outer :=
  Chain.frames_pop h.outer_ne_nil

end Framed

theorem framed_after {ms : List (Move α)} (h : Balanced declares ms) (c : Chain α) :
    Framed declares c (c.after ms) := by
  induction h generalizing c with
  | nil => exact .refl c
  | append _ _ ihms ihns =>
    rw [after_append]
    exact (ihms c).trans (ihns _)
  | assign name value =>
    rw [after_cons, after_nil, move]
    cases hd : c.assign? name value with
    | none => exact .refl c
    | some d =>
      have hchange (f g : Frame α) (hg : f.assign? name value = some g) : f.Kept g :=
        Frame.kept_of_assign? hg
      exact .of_kept (forall₂_of_assignIn? Frame.Kept.refl hchange (frames_of_assign? hd))
  | declare name value =>
    exact ⟨List.forall₂_same.2 fun f _ => .refl f, Frame.extended_declare .., by simp⟩
  | @scope declares ms _ ih =>
    have hinner := ih (c.push .empty)
    rw [after_cons, after_append]
    refine .of_kept ?_
    rw [after_cons, after_nil, move, move, hinner.frames_pop]
    exact hinner.outer

-- A name that is a variable of one of the first `k` scopes keeps its bindings in all the others.
theorem spared_after {ms : List (Move α)} (h : Balanced declares ms) (c : Chain α) {name : String}
    {k : Nat} (hinner : ∃ f ∈ c.frames.take k, name ∈ f.vars.names) :
    List.Forall₂ (Frame.Spared name) (c.frames.drop k) ((c.after ms).frames.drop k) := by
  have hrefl (fs : List (Frame α)) : List.Forall₂ (Frame.Spared name) fs fs :=
    List.forall₂_same.2 fun f _ => .refl name f
  induction h generalizing c k with
  | nil => exact hrefl _
  | @append declares ms ns hms _ ihms ihns =>
    -- The first moves leave the variable where it is, so that it is in the way of the second too.
    have hnext : ∃ f ∈ (c.after ms).frames.take k, name ∈ f.vars.names :=
      Frame.exists_mem_vars (List.forall₂_take k (framed_after hms c).frames) hinner
    rw [after_append]
    exact forall₂_trans (fun _ _ _ => .trans) (ihms c hinner) (ihns _ hnext)
  | assign other value =>
    rw [after_cons, after_nil, move]
    cases hd : c.assign? other value with
    | none => exact hrefl _
    | some d => exact spared_drop_of_assignIn? (frames_of_assign? hd) hinner
  | declare other value =>
    cases k with
    | zero => exact absurd hinner (by simp)
    | succ k => exact hrefl _
  | @scope declares ms hms ih =>
    -- With the new scope there is one more in front of those that are looked at.
    have hframed := framed_after hms (c.push .empty)
    have hspared := ih (c.push .empty) (k := k + 1) (by simpa using .inr hinner)
    rw [after_cons, after_append, after_cons, after_nil, move, move, hframed.frames_pop]
    exact hspared

end Chain

end TernLang
