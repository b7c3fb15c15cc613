import Mathlib.Tactic.Common
import TernLang.Scope.Chain

-- What names are bound to. Whatever is done to scopes, what holds of everything that is bound in
-- them stays true, if it holds of what is bound anew.

namespace TernLang

variable {α : Type} {P Q : α → Prop} {name : String} {a : α}

namespace Bindings

variable {bs : Bindings α}

theorem forall_put (h : ∀ b ∈ bs, P b.2) (name : String) (ha : P a) :
    ∀ b ∈ bs.put name a, P b.2 := by
  induction bs with
  | nil => simpa [put] using ha
  | cons b bs ih =>
    rw [List.forall_mem_cons] at h
    rw [put]
    split
    · exact List.forall_mem_cons.2 ⟨ha, h.2⟩
    · exact List.forall_mem_cons.2 ⟨h.1, ih h.2⟩

theorem of_get? (h : ∀ b ∈ bs, P b.2) (ha : bs.get? name = some a) : P a := by
  unfold get? at ha
  obtain ⟨b, hb, rfl⟩ := Option.map_eq_some_iff.1 ha
  exact h b (List.mem_of_find?_eq_some hb)

end Bindings

-- `P` holds of everything that is bound in a scope.
structure Frame.Each (P : α → Prop) (f : Frame α) : Prop where
  vars : ∀ b ∈ f.vars, P b.2
  consts : ∀ b ∈ f.consts, P b.2

namespace Frame.Each

variable {f g : Frame α}

theorem empty : (Frame.empty : Frame α).Each P := ⟨by simp [Frame.empty], by simp [Frame.empty]⟩

theorem declare (h : f.Each P) (ha : P a) : (f.declare name a).Each P := by
  unfold Frame.declare
  split
  · exact ⟨h.vars, Bindings.forall_put h.consts name ha⟩
  · exact ⟨Bindings.forall_put h.vars name ha, h.consts⟩

theorem of_get? (h : f.Each P) (ha : f.get? name = some a) : P a := by
  unfold Frame.get? at ha
  split at ha
  · rename_i b hb
    obtain rfl := Option.some.inj ha
    exact Bindings.of_get? h.vars hb
  · exact Bindings.of_get? h.consts ha

theorem of_assign? (h : f.Each P) (ha : P a) (hg : f.assign? name a = some g) : g.Each P := by
  unfold Frame.assign? at hg
  split at hg
  · obtain rfl := Option.some.inj hg
    exact ⟨Bindings.forall_put h.vars name ha, h.consts⟩
  · exact absurd hg (by simp)

end Frame.Each

-- `P` holds of everything that is bound in a chain of scopes.
def Chain.Each (P : α → Prop) (c : Chain α) : Prop := ∀ f ∈ c.frames, f.Each P

namespace Chain.Each

variable {c d : Chain α} {f : Frame α}

theorem current (h : c.Each P) : c.current.Each P := h _ (by simp [Chain.frames])

theorem outer (h : c.Each P) : ∀ f ∈ c.outer, f.Each P :=
  fun f hf => h f (by simp [Chain.frames, hf])

theorem push (h : c.Each P) (hf : f.Each P) : (c.push f).Each P := List.forall_mem_cons.2 ⟨hf, h⟩

theorem pop (h : c.Each P) : c.pop.Each P := by
  unfold Chain.pop
  split
  · exact h
  · rename_i f fs hout
    intro g hg
    exact h.outer g (by rw [hout]; exact hg)

theorem declare (h : c.Each P) (ha : P a) : (c.declare name a).Each P :=
  List.forall_mem_cons.2 ⟨h.current.declare ha, h.outer⟩

theorem of_lookup? (h : c.Each P) (ha : c.lookup? name = some a) : P a := by
  obtain ⟨f, hf, hget⟩ := List.exists_of_findSome?_eq_some ha
  exact (h f hf).of_get? hget

theorem of_assignIn? (ha : P a) {fs gs : List (Frame α)} (h : ∀ f ∈ fs, f.Each P)
    (hgs : Chain.assignIn? name a fs = some gs) : ∀ g ∈ gs, g.Each P := by
  induction fs generalizing gs with
  | nil => exact absurd hgs (by simp [Chain.assignIn?])
  | cons f fs ih =>
    rw [List.forall_mem_cons] at h
    rw [Chain.assignIn?] at hgs
    split at hgs
    · rename_i g hg
      obtain rfl := Option.some.inj hgs
      exact List.forall_mem_cons.2 ⟨h.1.of_assign? ha hg, h.2⟩
    · obtain ⟨rest, hrest, rfl⟩ := Option.map_eq_some_iff.1 hgs
      exact List.forall_mem_cons.2 ⟨h.1, ih h.2 hrest⟩

theorem of_assign? (h : c.Each P) (ha : P a) (hd : c.assign? name a = some d) : d.Each P := by
  unfold Chain.assign? at hd
  split at hd
  · rename_i f hf
    obtain rfl := Option.some.inj hd
    exact List.forall_mem_cons.2 ⟨h.current.of_assign? ha hf, h.outer⟩
  · obtain ⟨outer, houter, rfl⟩ := Option.map_eq_some_iff.1 hd
    exact List.forall_mem_cons.2 ⟨h.current, of_assignIn? ha h.outer houter⟩

end Chain.Each

end TernLang
