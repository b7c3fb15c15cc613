import Mathlib.Data.List.Basic
import TernLang.Text.Split

-- Cutting a text loses nothing but what it is cut at: the pieces with the separator between them
-- are the text again, and the words of a text with the blanks around them are.

namespace TernLang.Text

-- The pieces of a text around a separator, whose occurrences are each taken leftmost in what is
-- left.
inductive CutAt (sep : List Char) : List Char → List (List Char) → Prop where
  | last {cs : List Char} (free : ¬sep <:+: cs) : CutAt sep cs [cs]
  | cut {piece rest : List Char} {pieces : List (List Char)}
    (leftmost : ∀ before after, piece ++ sep ++ rest = before ++ sep ++ after →
      piece.length ≤ before.length)
    (later : CutAt sep rest pieces) : CutAt sep (piece ++ sep ++ rest) (piece :: pieces)

-- The longest runs of characters that are not blank, from left to right.
inductive RunsOf (blank : Char → Bool) : List Char → List (List Char) → Prop where
  | none {gap : List Char} (blanks : ∀ c ∈ gap, blank c) : RunsOf blank gap []
  | run {gap run rest : List Char} {runs : List (List Char)} (blanks : ∀ c ∈ gap, blank c)
    (nonempty : run ≠ []) (solid : ∀ c ∈ run, ¬blank c) (stop : ∀ c ∈ rest.head?, blank c)
    (later : RunsOf blank rest runs) : RunsOf blank (gap ++ run ++ rest) (run :: runs)

namespace CutAt

variable {sep cs : List Char} {pieces : List (List Char)}

theorem ne_nil (h : CutAt sep cs pieces) : pieces ≠ [] := by
  cases h <;> simp

-- The pieces with the separator between them are the text.
theorem intercalate_eq (h : CutAt sep cs pieces) : sep.intercalate pieces = cs := by
  induction h with
  | last => simp
  | @cut piece rest pieces _ later ih =>
    obtain ⟨next, more, rfl⟩ := List.exists_cons_of_ne_nil later.ne_nil
    rw [List.intercalate_cons_cons, ih]

-- No piece has the separator in it.
theorem not_infix (hsep : sep ≠ []) (h : CutAt sep cs pieces) : ∀ p ∈ pieces, ¬sep <:+: p := by
  induction h with
  | last free => simpa using free
  | @cut piece rest pieces leftmost _ ih =>
    refine List.forall_mem_cons.2 ⟨?_, ih⟩
    rintro ⟨before, after, rfl⟩
    have hpos := List.length_pos_iff.2 hsep
    have hlength := leftmost before (after ++ sep ++ rest) (by simp)
    simp only [List.length_append] at hlength
    omega

-- A character in front of a text at which the separator does not begin belongs to the first piece.
theorem consFirst {c : Char} (hc : ¬sep <+: c :: cs) (h : CutAt sep cs pieces) :
    CutAt sep (c :: cs) (consFirst c pieces) := by
  cases h with
  | last free => exact .last fun hinfix => (List.infix_cons_iff.1 hinfix).elim hc free
  | @cut piece rest pieces leftmost later =>
    suffices hcut : CutAt sep (c :: piece ++ sep ++ rest) ((c :: piece) :: pieces) from hcut
    refine .cut (fun before after happend => ?_) later
    cases before with
    | nil => exact absurd ⟨after, happend.symm⟩ hc
    | cons d before =>
      have htail := leftmost before after (List.cons.inj happend).2
      exact Nat.succ_le_succ htail

end CutAt

-- What is cut off while a separator is passed over are the pieces of what comes after it.
theorem cutAt_pieces {sep : List Char} (hsep : sep ≠ []) (skip : Nat) (cs : List Char) :
    CutAt sep (cs.drop skip) (Split.pieces sep skip cs) := by
  fun_induction Split.pieces sep skip cs with
  | case1 skip =>
    rw [List.drop_nil]
    exact .last fun hinfix => hsep (List.infix_nil.1 hinfix)
  | case2 skip c cs ih => exact ih
  | case3 c cs hbegins ih =>
    obtain ⟨rest, hrest⟩ := List.isPrefixOf_iff_prefix.1 hbegins
    obtain ⟨d, more, rfl⟩ := List.exists_cons_of_ne_nil hsep
    have hdrop : cs.drop ((d :: more).length - 1) = rest := by
      simp [← (List.cons.inj hrest).2]
    rw [hdrop] at ih
    rw [List.drop_zero, ← hrest]
    have hleftmost : ∀ before after, [] ++ d :: more ++ rest = before ++ d :: more ++ after →
        ([] : List Char).length ≤ before.length := fun _ _ _ => Nat.zero_le _
    exact .cut hleftmost ih
  | case4 c cs hbegins ih =>
    exact ih.consFirst fun hprefix => hbegins (List.isPrefixOf_iff_prefix.2 hprefix)

theorem cutAt_splitAt {sep : List Char} (hsep : sep ≠ []) (cs : List Char) :
    CutAt sep cs (splitAt sep cs) :=
  cutAt_pieces hsep 0 cs

namespace RunsOf

variable {blank : Char → Bool} {cs : List Char} {runs : List (List Char)}

theorem cons {c : Char} (hc : blank c) (h : RunsOf blank cs runs) :
    RunsOf blank (c :: cs) runs := by
  cases h with
  | none blanks => exact .none (List.forall_mem_cons.2 ⟨hc, blanks⟩)
  | @run gap run rest runs blanks nonempty solid stop later =>
    have hgap : ∀ d ∈ c :: gap, blank d := List.forall_mem_cons.2 ⟨hc, blanks⟩
    exact .run hgap nonempty solid stop later

theorem ne_nil (h : RunsOf blank cs runs) : ∀ run ∈ runs, run ≠ [] := by
  induction h with
  | none => simp
  | run _ nonempty _ _ _ ih => exact List.forall_mem_cons.2 ⟨nonempty, ih⟩

-- A piece at the front of a text is a run, unless it is empty.
theorem front {run : List Char} {pieces : List (List Char)} (solid : ∀ c ∈ run, ¬blank c)
    (stop : ∀ c ∈ cs.head?, blank c) (h : RunsOf blank cs (pieces.filter (!·.isEmpty))) :
    RunsOf blank (run ++ cs) ((run :: pieces).filter (!·.isEmpty)) := by
  cases run with
  | nil => exact h
  | cons c run =>
    have hgap : ∀ d ∈ ([] : List Char), blank d := by simp
    exact .run hgap (by simp) solid stop h

end RunsOf

-- The first piece is the run at the front, and the others that are not empty are the later runs.
theorem exists_between (blank : Char → Bool) (cs : List Char) :
    ∃ run rest pieces, Split.between blank cs = run :: pieces ∧ cs = run ++ rest ∧
      (∀ c ∈ run, ¬blank c) ∧ (∀ c ∈ rest.head?, blank c) ∧
      RunsOf blank rest (pieces.filter (!·.isEmpty)) := by
  induction cs with
  | nil => exact ⟨[], [], [], rfl, rfl, by simp, by simp, .none (by simp)⟩
  | cons c cs ih =>
    obtain ⟨run, rest, pieces, hbetween, rfl, solid, stop, later⟩ := ih
    rw [Split.between, hbetween]
    by_cases hc : blank c
    · rw [if_pos hc]
      exact ⟨[], _, _, rfl, rfl, by simp, by simpa using hc, (later.front solid stop).cons hc⟩
    · rw [if_neg hc]
      exact ⟨c :: run, rest, pieces, rfl, rfl, List.forall_mem_cons.2 ⟨hc, solid⟩, stop, later⟩

theorem runsOf_words (cs : List Char) : RunsOf isBlank cs (words cs) := by
  obtain ⟨run, rest, pieces, hbetween, rfl, solid, stop, later⟩ := exists_between isBlank cs
  rw [words, hbetween]
  exact later.front solid stop

end TernLang.Text
