import Mathlib.Tactic.Common
import TernLang.Json.Writer
import TernLang.Proofs.Number.Reading
import TernLang.Text.Split

-- No text that is written has a carriage return in it, so its lines end as they are read.

namespace TernLang.Json

theorem not_mem_toDigits (n : Nat) : '\r' ∉ Nat.toDigits 10 n := by
  intro hmem
  have hdigit := List.all_eq_true.1 (Reading.isDigits_toDigits n).2 _ hmem
  exact absurd hdigit (by decide)

theorem not_mem_zeros (n : Nat) : '\r' ∉ Spelling.zeros n := by
  simp [Spelling.zeros]

theorem not_mem_power (e : Int) : '\r' ∉ Spelling.power e := by
  unfold Spelling.power
  split <;> simp [not_mem_toDigits, not_mem_zeros]

theorem not_mem_normalize (d : Decimal) : '\r' ∉ (Spelling.normalize d).1 := by
  have hdigits := not_mem_toDigits d.digits
  unfold Spelling.normalize
  simp only
  split
  · decide
  · intro hmem
    exact hdigits
      (List.mem_reverse.1 (List.dropWhile_sublist _ |>.subset (List.mem_reverse.1 hmem)))

theorem not_mem_decimal (d : Decimal) : '\r' ∉ Spelling.decimal d := by
  have hdigits := not_mem_normalize d
  have htake (n : Nat) : '\r' ∉ (Spelling.normalize d).1.take n :=
    fun hmem => hdigits (List.mem_of_mem_take hmem)
  have hdrop (n : Nat) : '\r' ∉ (Spelling.normalize d).1.drop n :=
    fun hmem => hdigits (List.mem_of_mem_drop hmem)
  simp only [Spelling.decimal]
  split
  · unfold Spelling.scientific
    have htail : '\r' ∉ (Spelling.normalize d).1.tail :=
      fun hmem => hdigits (List.mem_of_mem_tail hmem)
    split <;> simp [htake, htail, not_mem_power]
  · unfold Spelling.positional
    split
    · simp [hdigits, not_mem_zeros]
    · simp only
      split <;> simp [htake, hdrop, not_mem_zeros]

theorem not_mem_real (x : Float) : '\r' ∉ (Spelling.real words x).toList := by
  unfold Spelling.real
  split
  · decide
  · rename_i negative _
    cases negative <;> decide
  · rename_i f _
    have hsign : '\r' ∉ Spelling.sign f.negative := by cases f.negative <;> decide
    rw [String.toList_ofList, List.mem_append, not_or]
    refine ⟨hsign, ?_⟩
    split
    · decide
    · exact not_mem_decimal _

theorem not_mem_int (n : Int) : '\r' ∉ (toString n).toList := by
  rw [Int.toString_eq_repr, Int.repr_eq_if]
  split <;> simp [Nat.repr_eq_ofList_toDigits, not_mem_toDigits]

theorem not_mem_escape (c : Char) : '\r' ∉ escape c := by
  unfold escape
  split_ifs with _ _ _ hreturn _ _ _ hcontrol
  all_goals try decide
  · have hhex : ∀ n < 0x20, '\r' ∉ Text.hex 4 n := by decide
    simp [hhex _ hcontrol]
  · simpa using Ne.symm hreturn

theorem not_mem_quoted (s : String) : '\r' ∉ quoted s := by
  simp [quoted, not_mem_escape]

theorem not_mem_newline (depth : Nat) : '\r' ∉ newline depth := by
  simp [newline]

mutual

theorem not_mem_write (depth : Nat) : ∀ j : Json, '\r' ∉ j.write depth
  | null => by simp [write]
  | bool b => by cases b <;> simp [write]
  | int n => not_mem_int n
  | real x => not_mem_real x
  | str s => not_mem_quoted s
  | list [] => by simp [write]
  | list (j :: js) => by
    simp [write, not_mem_newline, not_mem_write (depth + 1) j, not_mem_writeItems (depth + 1) js]
  | object [] => by simp [write]
  | object ((name, j) :: ms) => by
    simp [write, not_mem_newline, not_mem_quoted, not_mem_write (depth + 1) j,
      not_mem_writeMembers (depth + 1) ms]

theorem not_mem_writeItems (depth : Nat) : ∀ js : List Json, '\r' ∉ writeItems depth js
  | [] => by simp [writeItems]
  | j :: js => by
    simp [writeItems, not_mem_newline, not_mem_write depth j, not_mem_writeItems depth js]

theorem not_mem_writeMembers (depth : Nat) :
    ∀ ms : List (String × Json), '\r' ∉ writeMembers depth ms
  | [] => by simp [writeMembers]
  | (name, j) :: ms => by
    simp [writeMembers, not_mem_newline, not_mem_quoted, not_mem_write depth j,
      not_mem_writeMembers depth ms]

end

theorem unifyLines_eq_self {cs : List Char} (h : '\r' ∉ cs) : Text.unifyLines cs = cs := by
  fun_induction Text.unifyLines cs with
  | case1 cs => simp at h
  | case2 cs => simp at h
  | case3 c cs _ _ ih => rw [ih (fun hmem => h (.tail _ hmem))]
  | case4 => rfl

theorem unifyLines_render (j : Json) : Text.unifyLines j.render.toList = j.render.toList := by
  rw [render, String.toList_ofList, unifyLines_eq_self (not_mem_write 0 j)]

end TernLang.Json
