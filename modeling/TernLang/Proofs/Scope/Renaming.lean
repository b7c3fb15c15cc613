import Mathlib.Logic.Function.Basic
import TernLang.Scope.Chain
import TernLang.Scope.Name

-- Scopes under other names. If different names stay different, and constants stay constants, then
-- whatever is done to scopes can be done under the other names just as well.

namespace TernLang

-- A change of names.
structure Renaming where
  map : String → String
  injective : Function.Injective map
  isConstantName_map : ∀ s, isConstantName (map s) = isConstantName s

instance : CoeFun Renaming fun _ => String → String := ⟨Renaming.map⟩

namespace Name

-- Only texts are names.
def rename (ρ : Renaming) : Tree → Tree
  | .str s => .str (ρ s)
  | t => t

variable (ρ : Renaming)

theorem bindable_rename (name : Tree) : bindable (rename ρ name) = (bindable name).map ρ := by
  cases name with
  | list items =>
    simp only [rename, bindable, isConstant]
    cases areCapitals items <;> rfl
  | _ => rfl

end Name

variable {α β : Type} (ρ : Renaming) (f : α → β)

namespace Bindings

def rename (bs : Bindings α) : Bindings β := bs.map fun b => (ρ b.1, f b.2)

variable (bs : Bindings α) (name : String) (a : α)

theorem rename_eq_self {f : α → α} {bs : Bindings α} (h : ∀ b ∈ bs, ρ b.1 = b.1 ∧ f b.2 = b.2) :
    bs.rename ρ f = bs := by
  induction bs with
  | nil => rfl
  | cons b bs ih =>
    rw [List.forall_mem_cons] at h
    rw [rename, List.map_cons, h.1.1, h.1.2]
    exact congrArg _ (ih h.2)

theorem get?_rename : (bs.rename ρ f).get? (ρ name) = (bs.get? name).map f := by
  induction bs with
  | nil => rfl
  | cons b bs ih =>
    rw [rename, List.map_cons, get?_cons, get?_cons]
    by_cases hname : b.1 = name
    · rw [if_pos (congrArg ρ hname), if_pos hname]
      rfl
    · rw [if_neg (ρ.injective.ne hname), if_neg hname]
      exact ih

theorem rename_put : (bs.put name a).rename ρ f = (bs.rename ρ f).put (ρ name) (f a) := by
  induction bs with
  | nil => rfl
  | cons b bs ih =>
    have hrename : rename ρ f (b :: bs) = (ρ b.1, f b.2) :: rename ρ f bs := rfl
    rw [hrename, put, put]
    by_cases hname : b.1 = name
    · rw [if_pos (congrArg ρ hname), if_pos hname]
      rfl
    · rw [if_neg (ρ.injective.ne hname), if_neg hname]
      exact congrArg _ ih

end Bindings

namespace Frame

def rename (g : Frame α) : Frame β where
  vars := g.vars.rename ρ f
  consts := g.consts.rename ρ f

variable (g : Frame α) (name : String) (a : α)

theorem rename_declare : (g.declare name a).rename ρ f = (g.rename ρ f).declare (ρ name) (f a) := by
  unfold declare
  rw [ρ.isConstantName_map]
  split
  · exact congrArg _ (Bindings.rename_put ..)
  · exact congrArg (Frame.mk · _) (Bindings.rename_put ..)

theorem get?_rename : (g.rename ρ f).get? (ρ name) = (g.get? name).map f := by
  unfold get? rename
  rw [Bindings.get?_rename, Bindings.get?_rename]
  cases g.vars.get? name <;> rfl

theorem assign?_rename :
    (g.rename ρ f).assign? (ρ name) (f a) = (g.assign? name a).map (rename ρ f) := by
  unfold assign?
  rw [show (g.rename ρ f).vars = g.vars.rename ρ f from rfl, Bindings.get?_rename,
    Option.isSome_map]
  split
  · exact congrArg (fun vars => some (Frame.mk vars _)) (Bindings.rename_put ..).symm
  · rfl

end Frame

namespace Chain

def rename (c : Chain α) : Chain β where
  current := c.current.rename ρ f
  outer := c.outer.map (Frame.rename ρ f)

variable (c : Chain α) (name : String) (a : α)

theorem frames_rename : (c.rename ρ f).frames = c.frames.map (Frame.rename ρ f) := rfl

theorem rename_push (g : Frame α) :
    (c.push g).rename ρ f = (c.rename ρ f).push (g.rename ρ f) := rfl

theorem rename_pop : c.pop.rename ρ f = (c.rename ρ f).pop := by
  obtain ⟨current, outer⟩ := c
  cases outer <;> rfl

theorem rename_declare : (c.declare name a).rename ρ f = (c.rename ρ f).declare (ρ name) (f a) :=
  congrArg (Chain.mk · _) (Frame.rename_declare ..)

theorem lookup?_rename : (c.rename ρ f).lookup? (ρ name) = (c.lookup? name).map f := by
  unfold lookup?
  rw [frames_rename, List.findSome?_map]
  induction c.frames with
  | nil => rfl
  | cons g gs ih =>
    rw [List.findSome?_cons, List.findSome?_cons, Function.comp_apply, Frame.get?_rename]
    cases g.get? name with
    | none => exact ih
    | some b => rfl

theorem assignIn?_rename (gs : List (Frame α)) :
    assignIn? (ρ name) (f a) (gs.map (Frame.rename ρ f)) =
      (assignIn? name a gs).map (List.map (Frame.rename ρ f)) := by
  induction gs with
  | nil => rfl
  | cons g gs ih =>
    rw [List.map_cons, assignIn?, assignIn?, Frame.assign?_rename, ih]
    cases g.assign? name a with
    | none => cases assignIn? name a gs <;> rfl
    | some h => rfl

theorem assign?_rename :
    (c.rename ρ f).assign? (ρ name) (f a) = (c.assign? name a).map (rename ρ f) := by
  unfold assign?
  rw [show (c.rename ρ f).current = c.current.rename ρ f from rfl, Frame.assign?_rename,
    show (c.rename ρ f).outer = c.outer.map (Frame.rename ρ f) from rfl, assignIn?_rename]
  cases c.current.assign? name a with
  | none => cases assignIn? name a c.outer <;> rfl
  | some g => rfl

end Chain

end TernLang
