import Mathlib.Data.List.Nodup
import TernLang.Proofs.Scope.Moves

-- New values for several variables at once. Each goes to the innermost scope that has a variable of
-- its name, and the scopes around that one keep theirs. Variables that are changed one after the
-- other end up so, and of two values for one name the later counts.

namespace TernLang

namespace Bindings

variable {α : Type} {bs cs : Bindings α} {name : String}

theorem get?_append (bs cs : Bindings α) (name : String) :
    get? (bs ++ cs) name = (bs.get? name).or (cs.get? name) := by
  simp only [get?, List.find?_append]
  cases bs.find? (·.1 = name) <;> rfl

theorem get?_eq_none_iff : bs.get? name = none ↔ name ∉ bs.names := by
  rw [← isSome_get?_iff]
  simp

theorem get?_of_mem (h : bs.names.Nodup) {b : String × α} (hb : b ∈ bs) :
    bs.get? b.1 = some b.2 := by
  induction bs with
  | nil => exact absurd hb List.not_mem_nil
  | cons first bs ih =>
    obtain ⟨n, v⟩ := first
    obtain ⟨hn, hbs⟩ := List.nodup_cons.1 h
    rw [get?_cons]
    rcases List.mem_cons.1 hb with rfl | hb
    · exact if_pos rfl
    · have hname : b.1 ∈ names bs := List.mem_map_of_mem hb
      have hne : n ≠ b.1 := fun heq => hn (heq ▸ hname)
      rw [if_neg hne, ih hbs hb]

-- Where the names are distinct, their order does not matter.
theorem get?_reverse (h : bs.names.Nodup) (name : String) :
    get? bs.reverse name = bs.get? name := by
  have hnames : names bs.reverse = bs.names.reverse := List.map_reverse
  cases hget : bs.get? name with
  | none =>
    rw [get?_eq_none_iff] at hget ⊢
    simpa [hnames] using hget
  | some value =>
    obtain ⟨b, hfind, rfl⟩ := Option.map_eq_some_iff.1 hget
    have hname : b.1 = name := by simpa using List.find?_some hfind
    have hmem : b ∈ bs.reverse := List.mem_reverse.2 (List.mem_of_find?_eq_some hfind)
    have hreverse : (names bs.reverse).Nodup := by rwa [hnames, List.nodup_reverse]
    exact hname ▸ get?_of_mem hreverse hmem

-- The bindings of names that a scope has no variable of.
def without (bs : Bindings α) (f : Frame α) : Bindings α :=
  bs.filter fun b => b.1 ∉ f.vars.names

theorem get?_without (bs : Bindings α) {f : Frame α} (h : name ∉ f.vars.names) :
    (bs.without f).get? name = bs.get? name := by
  induction bs with
  | nil => rfl
  | cons b bs ih =>
    obtain ⟨n, v⟩ := b
    rw [without, List.filter_cons, get?_cons, ← without]
    by_cases hn : n = name
    · subst hn
      simp [h, get?_cons]
    · rw [if_neg hn]
      split
      · rw [get?_cons, if_neg hn, ih]
      · exact ih

theorem get?_without_of_mem (bs : Bindings α) {f : Frame α} (h : name ∈ f.vars.names) :
    (bs.without f).get? name = none := by
  rw [get?_eq_none_iff]
  intro hmem
  obtain ⟨b, hb, rfl⟩ := List.mem_map.1 hmem
  have hnot : b.1 ∉ f.vars.names := by simpa using (List.mem_filter.1 hb).2
  exact hnot h

end Bindings

-- The scopes after new values were given to variables, all at once and from the innermost scope
-- outward. A scope keeps its names and its constants.
inductive Reassigned {α : Type} : Bindings α → List (Frame α) → List (Frame α) → Prop where
  | nil (news : Bindings α) : Reassigned news [] []
  | cons {news : Bindings α} {f g : Frame α} {fs gs : List (Frame α)} (kept : f.Kept g)
    (values : ∀ name,
      g.vars.get? name = (f.vars.get? name).map fun old => (news.get? name).getD old)
    (outer : Reassigned (news.without f) fs gs) : Reassigned news (f :: fs) (g :: gs)

-- What the innermost scope with a variable of a name has for it.
def Chain.var? {α : Type} (c : Chain α) (name : String) : Option α :=
  c.frames.findSome? (·.vars.get? name)

namespace Reassigned

variable {α : Type} {news later : Bindings α} {fs gs hs : List (Frame α)}

theorem refl (fs : List (Frame α)) : Reassigned [] fs fs := by
  induction fs with
  | nil => exact .nil []
  | cons f fs ih => exact .cons (.refl f) (fun name => by simp) ih

-- Only the new values themselves count, not how they are listed.
theorem congr (h : Reassigned news fs gs) (hsame : ∀ name, news.get? name = later.get? name) :
    Reassigned later fs gs := by
  induction h generalizing later with
  | nil => exact .nil later
  | @cons news f g fs gs kept values _ ih =>
    refine .cons kept (fun name => by rw [values, hsame]) (ih fun name => ?_)
    by_cases hname : name ∈ f.vars.names
    · rw [Bindings.get?_without_of_mem _ hname, Bindings.get?_without_of_mem _ hname]
    · rw [Bindings.get?_without _ hname, Bindings.get?_without _ hname, hsame]

-- Of two values for one name the later one counts.
theorem trans (h : Reassigned news fs gs) (h' : Reassigned later gs hs) :
    Reassigned (later ++ news) fs hs := by
  induction h generalizing later hs with
  | nil news =>
    cases h' with
    | nil => exact .nil _
  | @cons news f g fs gs kept values _ ih =>
    cases h' with
    | @cons _ _ h _ hs kept' values' outer' =>
      have hnames : later.without g = later.without f := by
        rw [Bindings.without, Bindings.without, kept.vars]
      refine .cons (kept.trans kept') (fun name => ?_) ?_
      · rw [values', values, Bindings.get?_append, Option.map_map]
        cases later.get? name <;> rfl
      · rw [hnames] at outer'
        have hboth : (later ++ news).without f = later.without f ++ news.without f :=
          List.filter_append ..
        exact hboth ▸ ih outer'

theorem findSome?_vars (h : Reassigned news fs gs) (name : String) :
    gs.findSome? (·.vars.get? name) =
      (fs.findSome? (·.vars.get? name)).map fun old => (news.get? name).getD old := by
  induction h with
  | nil => rfl
  | @cons news f g fs gs _ values _ ih =>
    rw [List.findSome?_cons, List.findSome?_cons, values, ih]
    cases hget : f.vars.get? name with
    | some old => rfl
    | none => rw [Option.map_none, Bindings.get?_without _ (Bindings.get?_eq_none_iff.1 hget)]

-- A variable has its new value, if there is one, and else the one it had.
theorem var? {c d : Chain α} (h : Reassigned news c.frames d.frames) (name : String) :
    d.var? name = (c.var? name).map fun old => (news.get? name).getD old :=
  h.findSome?_vars name

theorem var?_of_mem {c d : Chain α} (h : Reassigned news c.frames d.frames)
    (hdistinct : news.names.Nodup) {b : String × α} (hb : b ∈ news)
    (hvar : ∃ f ∈ c.frames, b.1 ∈ f.vars.names) : d.var? b.1 = some b.2 := by
  obtain ⟨f, hf, hmem⟩ := hvar
  have hold : (c.var? b.1).isSome := by
    rw [Chain.var?, List.findSome?_isSome_iff]
    exact ⟨f, hf, Bindings.isSome_get?_iff.2 hmem⟩
  obtain ⟨old, hold⟩ := Option.isSome_iff_exists.1 hold
  rw [h.var?, hold, Bindings.get?_of_mem hdistinct hb]
  rfl

end Reassigned

namespace Chain

variable {α : Type} {c d : Chain α} {name : String} {value : α}

theorem reassigned_of_assignIn? {fs gs : List (Frame α)} (h : assignIn? name value fs = some gs) :
    Reassigned [(name, value)] fs gs := by
  induction fs generalizing gs with
  | nil => exact absurd h (by simp [assignIn?])
  | cons f fs ih =>
    rw [assignIn?] at h
    split at h
    · rename_i g hg
      obtain rfl := Option.some.inj h
      obtain ⟨hmem, hput⟩ := Frame.eq_of_assign? hg
      have hnone : Bindings.without [(name, value)] f = [] := by simp [Bindings.without, hmem]
      refine .cons (Frame.kept_of_assign? hg) (fun other => ?_) (hnone.symm ▸ .refl fs)
      rw [hput, Bindings.get?_cons, Bindings.get?_nil]
      by_cases hother : name = other
      · subst hother
        obtain ⟨old, hold⟩ := Option.isSome_iff_exists.1 (Bindings.isSome_get?_iff.2 hmem)
        simp [hold]
      · simp [Bindings.get?_put_of_ne _ value hother, hother]
    · rename_i hf
      have hmem : name ∉ f.vars.names := Frame.assign?_eq_none_iff.1 hf
      obtain ⟨rest, hrest, rfl⟩ := Option.map_eq_some_iff.1 h
      have hall : Bindings.without [(name, value)] f = [(name, value)] := by
        simp [Bindings.without, hmem]
      refine .cons (.refl f) (fun other => ?_) (hall.symm ▸ ih hrest)
      rw [Bindings.get?_cons, Bindings.get?_nil]
      by_cases hother : name = other
      · subst hother
        simp [Bindings.get?_eq_none_iff.2 hmem]
      · simp [hother]

theorem reassigned_of_assign? (h : c.assign? name value = some d) :
    Reassigned [(name, value)] c.frames d.frames :=
  reassigned_of_assignIn? (frames_of_assign? h)

-- A variable can be changed where some scope has it.
theorem isSome_assign?_iff :
    (c.assign? name value).isSome ↔ ∃ f ∈ c.frames, name ∈ f.vars.names := by
  rw [← Option.isSome_map (f := frames), map_frames_assign?]
  induction c.frames with
  | nil => simp [assignIn?]
  | cons f fs ih =>
    rw [assignIn?, List.exists_mem_cons_iff]
    cases hf : f.assign? name value with
    | some g => simp [(Frame.eq_of_assign? hf).1]
    | none => simp [Frame.assign?_eq_none_iff.1 hf, ih]

theorem exists_mem_vars_of_assign? (h : c.assign? name value = some d) {other : String} :
    (∃ g ∈ d.frames, other ∈ g.vars.names) ↔ ∃ f ∈ c.frames, other ∈ f.vars.names := by
  have hkept : List.Forall₂ Frame.Kept c.frames d.frames :=
    forall₂_of_assignIn? Frame.Kept.refl (fun _ _ hg => Frame.kept_of_assign? hg)
      (frames_of_assign? h)
  generalize c.frames = fs, d.frames = gs at hkept
  induction hkept with
  | nil => rfl
  | cons head _ ih =>
    rw [List.exists_mem_cons_iff, List.exists_mem_cons_iff, head.vars]
    exact or_congr_right ih

end Chain

end TernLang
