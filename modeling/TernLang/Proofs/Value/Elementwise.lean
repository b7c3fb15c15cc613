import Mathlib.Data.List.Basic
import Mathlib.Data.List.Forall2
import TernLang.Proofs.Value.Proper

-- An operator between two tuples works its way down both of them, as far as each goes, and is
-- applied where they do not both go on. It fails only if it comes to a remainder by zero there.

namespace TernLang

-- The operation fails for a remainder by zero if `p` holds, and else gives what `P` holds of.
def FailsIf {α : Type} (p : Prop) (P : α → Prop) (x : Except Failure α) : Prop :=
  (p ∧ x = .error (.ofCause .remainderByZero)) ∨ (¬p ∧ ∃ a, x = .ok a ∧ P a)

namespace FailsIf

variable {α β : Type} {p q : Prop} {P : α → Prop} {Q : β → Prop} {x : Except Failure α}

theorem ok {a : α} (hp : ¬p) (ha : P a) : FailsIf p P (.ok a : Except Failure α) :=
  .inr ⟨hp, a, rfl, ha⟩

theorem error (hp : p) : FailsIf p P (.error (.ofCause .remainderByZero) : Except Failure α) :=
  .inl ⟨hp, rfl⟩

theorem congr (h : FailsIf p P x) (hpq : p ↔ q) : FailsIf q P x := by
  rwa [FailsIf, hpq] at h

theorem imp {P' : α → Prop} (h : FailsIf p P x) (hP : ∀ a, x = .ok a → P a → P' a) :
    FailsIf p P' x :=
  h.imp_right fun ⟨hp, a, hx, ha⟩ => ⟨hp, a, hx, hP a hx ha⟩

theorem bind {f : α → Except Failure β} (hx : FailsIf p P x)
    (hf : ∀ a, P a → FailsIf q Q (f a)) : FailsIf (p ∨ q) Q (x >>= f) := by
  rcases hx with ⟨hp, rfl⟩ | ⟨hp, a, rfl, ha⟩
  · exact .error (.inl hp)
  · exact (hf a ha).congr (or_iff_right hp).symm

theorem isError_iff (h : FailsIf p P x) : (∃ e, x = .error e) ↔ p := by
  rcases h with ⟨hp, rfl⟩ | ⟨hp, a, rfl, -⟩
  · exact iff_of_true ⟨_, rfl⟩ hp
  · exact iff_of_false (by simp) hp

end FailsIf

namespace Arithmetic

theorem eq_symbol_of_ofSymbol? {s : String} {op : Arithmetic} (h : ofSymbol? s = some op) :
    s = op.symbol := by
  unfold ofSymbol? at h
  split at h <;> cases h <;> rfl

end Arithmetic

namespace Value

def isTuple : Value → Bool
  | tuple _ => true
  | _ => false

-- The part of a value at the end of a path, which leads through tuples only.
def reached? : List Nat → Value → Option Value
  | [], v => some v
  | i :: path, tuple items => items[i]?.bind (reached? path)
  | _ :: _, _ => none

-- One path leads to an integer in the first value and to zero in the second.
def MeetsZero (a b : Value) : Prop :=
  ∃ path n, a.reached? path = some (int n) ∧ b.reached? path = some (int 0)

-- A value that has a tuple wherever both of two values have one, as long as the shorter of them,
-- and in all other places something that `R` holds of.
inductive Zipped (R : Value → Value → Value → Prop) : Value → Value → Value → Prop where
  | leaf {a b c : Value} (apart : (a.isTuple && b.isTuple) = false) (related : R a b c) :
    Zipped R a b c
  | tuple {xs ys zs : List Value}
    (each : List.Forall₂ (fun pair z => Zipped R pair.1 pair.2 z) (xs.zip ys) zs) :
    Zipped R (.tuple xs) (.tuple ys) (.tuple zs)

-- What an operator gives between two values that are not both tuples. It makes no tuple of them.
def Combines (op : String) (a b c : Value) : Prop :=
  a.binary (.str op) b = .ok c ∧ c.isTuple = false

section Paths

variable {a b : Value} {xs ys : List Value}

theorem reached?_cons_of_not_isTuple (h : a.isTuple = false) (i : Nat) (path : List Nat) :
    a.reached? (i :: path) = none := by
  cases a with
  | tuple => cases h
  | _ => rfl

-- A path that goes into both values goes on from the elements at one place.
theorem meetsZero_tuple :
    (tuple xs).MeetsZero (tuple ys) ↔ ∃ pair ∈ xs.zip ys, pair.1.MeetsZero pair.2 := by
  constructor
  · rintro ⟨path, n, hx, hy⟩
    cases path with
    | nil => cases hx
    | cons i path =>
      obtain ⟨x, hxi, hx⟩ := Option.bind_eq_some_iff.1 hx
      obtain ⟨y, hyi, hy⟩ := Option.bind_eq_some_iff.1 hy
      have hpair : (xs.zip ys)[i]? = some (x, y) := List.getElem?_zip_eq_some.2 ⟨hxi, hyi⟩
      exact ⟨_, List.mem_of_getElem? hpair, path, n, hx, hy⟩
  · rintro ⟨⟨x, y⟩, hmem, path, n, hx, hy⟩
    obtain ⟨i, hi⟩ := List.mem_iff_getElem?.1 hmem
    obtain ⟨hxi, hyi⟩ := List.getElem?_zip_eq_some.1 hi
    refine ⟨i :: path, n, ?_, ?_⟩
    · rw [reached?, hxi]
      exact hx
    · rw [reached?, hyi]
      exact hy

theorem meetsZero_of_apart (h : (a.isTuple && b.isTuple) = false) :
    a.MeetsZero b ↔ (∃ n, a = int n) ∧ b = int 0 := by
  constructor
  · rintro ⟨path, n, ha, hb⟩
    cases path with
    | nil => exact ⟨⟨n, Option.some.inj ha⟩, Option.some.inj hb⟩
    | cons i path =>
      rcases Bool.and_eq_false_iff.1 h with h | h
      · rw [reached?_cons_of_not_isTuple h] at ha
        cases ha
      · rw [reached?_cons_of_not_isTuple h] at hb
        cases hb
  · rintro ⟨⟨n, rfl⟩, rfl⟩
    exact ⟨[], n, rfl, rfl⟩

end Paths

theorem isTuple_quotient (x y : Float) : (Arithmetic.quotient x y).isTuple = false := by
  unfold Arithmetic.quotient
  split <;> rfl

theorem isTuple_reals (op : Arithmetic) (x y : Float) : (op.reals x y).isTuple = false := by
  cases op with
  | div => exact isTuple_quotient x y
  | _ => rfl

-- Between integers only the remainder can fail.
theorem failsIf_ints (op : Arithmetic) (m n : Int) :
    FailsIf (op = .rem ∧ n = 0) (fun c => c.isTuple = false) (op.ints m n) := by
  cases op with
  | div => exact .ok (by simp) (isTuple_quotient _ _)
  | rem =>
    by_cases hzero : n = 0
    · rw [Arithmetic.ints, if_pos hzero]
      exact .error ⟨rfl, hzero⟩
    · rw [Arithmetic.ints, if_neg hzero]
      exact .ok (fun h => hzero h.2) rfl
  | _ => exact .ok (by simp) rfl

theorem failsIf_simple (op : Arithmetic) (a b : Value) :
    FailsIf (op = .rem ∧ (∃ n, a = int n) ∧ b = int 0) (fun c => c.isTuple = false)
      (op.simple a b) := by
  unfold Arithmetic.simple
  split
  · exact (failsIf_ints op _ _).congr (by simp)
  · exact .ok (by simp) (isTuple_reals op _ _)
  · exact .ok (by simp) (isTuple_reals op _ _)
  · exact .ok (by simp) (isTuple_reals op _ _)
  · exact .ok (by simp) (by split <;> rfl)
  · exact .ok (by simp) (by split <;> rfl)
  · exact .ok (by simp) (by split <;> rfl)
  · rename_i _ hints _ _ _ _ _
    refine .ok ?_ rfl
    rintro ⟨-, ⟨n, rfl⟩, rfl⟩
    exact hints n 0 rfl rfl

theorem failsIf_binaryLeaf (op : String) {a b : Value} (ha : a.Proper) (hb : b.Proper) :
    FailsIf (op = "%" ∧ (∃ n, a = int n) ∧ b = int 0) (fun c => c.isTuple = false)
      (a.binaryLeaf (.str op) b) := by
  obtain ⟨k, hk⟩ := ha.exists_kind
  obtain ⟨k', hk'⟩ := hb.exists_kind
  cases hop : Arithmetic.ofSymbol? op with
  | some arithmetic =>
    have hleaf : a.binaryLeaf (.str op) b = arithmetic.simple a b := by
      simp only [binaryLeaf, hk, hk', Tree.text?, Option.bind_some, hop]
      rfl
    obtain rfl := Arithmetic.eq_symbol_of_ofSymbol? hop
    rw [hleaf]
    refine (failsIf_simple arithmetic a b).congr (and_congr_left fun _ => ?_)
    cases arithmetic <;> decide
  | none =>
    have hleaf : a.binaryLeaf (.str op) b = .ok null := by
      simp only [binaryLeaf, hk, hk', Tree.text?, Option.bind_some, hop]
      rfl
    rw [hleaf]
    refine .ok ?_ rfl
    rintro ⟨rfl, -⟩
    cases hop

theorem failsIf_binaryAll (op : String) {xs ys : List Value}
    (h : ∀ x ∈ xs, ∀ y, y.Proper →
      FailsIf (op = "%" ∧ x.MeetsZero y) (Zipped (Combines op) x y) (x.binary (.str op) y))
    (hys : ∀ y ∈ ys, y.Proper) :
    FailsIf (op = "%" ∧ ∃ pair ∈ xs.zip ys, pair.1.MeetsZero pair.2)
      (List.Forall₂ (fun pair z => Zipped (Combines op) pair.1 pair.2 z) (xs.zip ys))
      (binaryAll (.str op) xs ys) := by
  induction xs generalizing ys with
  | nil =>
    rw [binaryAll]
    · exact .ok (by simp) .nil
    · simp
  | cons x xs ih =>
    cases ys with
    | nil =>
      rw [binaryAll]
      · exact .ok (by simp) .nil
      · simp
    | cons y ys =>
      rw [List.forall_mem_cons] at h hys
      have hall : FailsIf ((op = "%" ∧ x.MeetsZero y) ∨
          (op = "%" ∧ ∃ pair ∈ xs.zip ys, pair.1.MeetsZero pair.2) ∨ False)
          (List.Forall₂ (fun pair z => Zipped (Combines op) pair.1 pair.2 z)
            ((x :: xs).zip (y :: ys)))
          (binaryAll (.str op) (x :: xs) (y :: ys)) := by
        rw [binaryAll]
        exact (h.1 y hys.1).bind fun first hfirst => (ih h.2 hys.2).bind fun rest hrest =>
          .ok not_false (.cons hfirst hrest)
      refine hall.congr ?_
      rw [or_false, ← and_or_left, List.zip_cons_cons, List.exists_mem_cons_iff]

theorem failsIf_binary (op : String) {a b : Value} (ha : a.Proper) (hb : b.Proper) :
    FailsIf (op = "%" ∧ a.MeetsZero b) (Zipped (Combines op) a b) (a.binary (.str op) b) := by
  have hleaf {a b : Value} (ha : a.Proper) (hb : b.Proper)
      (hapart : (a.isTuple && b.isTuple) = false)
      (hbinary : a.binary (.str op) b = a.binaryLeaf (.str op) b) :
      FailsIf (op = "%" ∧ a.MeetsZero b) (Zipped (Combines op) a b) (a.binary (.str op) b) := by
    rw [meetsZero_of_apart hapart, hbinary]
    exact (failsIf_binaryLeaf op ha hb).imp fun c hc htuple =>
      .leaf hapart ⟨hbinary.trans hc, htuple⟩
  -- The induction is on the first value. Only where it is a tuple does the second one matter.
  induction ha generalizing b with
  | tuple hxs ih =>
    cases hb with
    | @tuple ys hys =>
      rw [binary, meetsZero_tuple]
      have hall := (failsIf_binaryAll op (fun x hx y hy => ih x hx hy) hys).bind
        (q := False) (Q := Zipped (Combines op) _ _) fun zs hzs => .ok not_false (.tuple hzs)
      exact hall.congr (iff_of_eq (or_false _))
    | _ => exact hleaf (.tuple hxs) (by constructor <;> assumption) rfl (by simp only [binary])
  | _ => exact hleaf (by constructor <;> assumption) hb rfl (by simp only [binary])

-- An operator fails only for a remainder by zero that a path leads to through the tuples of both
-- values. If it does not, its value has a tuple where both values have one, as long as the shorter,
-- and has in the other places what the operator gives there.
theorem binary_elementwise (op : String) {a b : Value} (ha : a.Proper) (hb : b.Proper) :
    ((∃ e, a.binary (.str op) b = .error e) ↔ op = "%" ∧ a.MeetsZero b) ∧
    (∀ e, a.binary (.str op) b = .error e →
      ∃ error : Error, e = .error error ∧ error.cause.cls = .divisionByZero) ∧
    (¬(op = "%" ∧ a.MeetsZero b) →
      ∃ c, a.binary (.str op) b = .ok c ∧ Zipped (Combines op) a b c) := by
  have hends := failsIf_binary op ha hb
  refine ⟨hends.isError_iff, fun e he => ?_, fun hnot => ?_⟩
  · rcases hends with ⟨-, hzero⟩ | ⟨-, c, hc, -⟩
    · cases hzero.symm.trans he
      exact ⟨_, rfl, rfl⟩
    · cases hc.symm.trans he
  · rcases hends with ⟨hfails, -⟩ | ⟨-, hgives⟩
    · exact absurd hfails hnot
    · exact hgives

theorem binary_elementwise_nested :
    (∃ e, (tuple [tuple [int 7, int 2], str "a"]).binary (.str "%")
      (tuple [tuple [int 4, int 0, null], int 0, null]) = .error e) ∧
    ∃ c, (tuple [tuple [int 7, int 2], str "a"]).binary (.str "*")
      (tuple [tuple [int 4, int 0, null], int 0, null]) = .ok c := by
  have ha : (tuple [tuple [int 7, int 2], str "a"]).Proper :=
    .tuple (by simp [Proper.int, Proper.str, Proper.tuple])
  have hb : (tuple [tuple [int 4, int 0, null], int 0, null]).Proper :=
    .tuple (by simp [Proper.int, Proper.null, Proper.tuple])
  refine ⟨(binary_elementwise "%" ha hb).1.2 ⟨rfl, [0, 1], 2, rfl, rfl⟩, ?_⟩
  obtain ⟨c, hc, -⟩ := (binary_elementwise "*" ha hb).2.2 (by simp)
  exact ⟨c, hc⟩

end Value

end TernLang
