import Mathlib.Tactic.Common
import TernLang.Command.Path

-- Names of files that are written out and taken apart again.

namespace TernLang.Path

-- A step that leads somewhere.
structure IsStep (s : String) : Prop where
  nonempty : s ≠ ""
  moves : s ≠ "."
  single : '/' ∉ s.toList

theorem parts_eq_splitOn (cs : List Char) : parts cs = cs.splitOn '/' := by
  unfold List.splitOn
  induction cs with
  | nil => rfl
  | cons c cs ih =>
    rw [parts, ih, List.splitOnP_cons_eq_if_modifyHead]
    by_cases hc : c = '/'
    · simp [hc]
    · rw [if_neg hc, if_neg (by simpa using hc)]
      split
      · rename_i hnil
        exact absurd hnil (List.splitOnP_ne_nil _ _)
      · rename_i hparts
        rw [hparts, List.modifyHead_cons]

theorem not_mem_parts (cs : List Char) : ∀ p ∈ parts cs, '/' ∉ p := by
  induction cs with
  | nil => simp [parts]
  | cons c cs ih =>
    rw [parts]
    split
    · simpa using ih
    · rename_i hc
      split
      · simpa using Ne.symm hc
      · rename_i p ps hparts
        rw [hparts, List.forall_mem_cons] at ih
        refine List.forall_mem_cons.2 ⟨?_, ih.2⟩
        simp [Ne.symm hc, ih.1]

theorem single_of_mem_stepsOf {name s : String} (h : s ∈ stepsOf name) : '/' ∉ s.toList := by
  obtain ⟨p, hp, rfl⟩ := List.mem_map.1 h
  rw [String.toList_ofList]
  exact not_mem_parts _ p hp

-- Steps with slashes between them are the steps of the whole.
theorem stepsOf_intercalate {steps : List String} (hne : steps ≠ [])
    (hsteps : ∀ s ∈ steps, '/' ∉ s.toList) : stepsOf ("/".intercalate steps) = steps := by
  have hslash : "/".toList = ['/'] := rfl
  rw [stepsOf, parts_eq_splitOn, String.toList_intercalate, hslash,
    List.splitOn_intercalate '/' (by simpa using hsteps) (by simpa using hne), List.map_map]
  simp

-- The steps of a name that lead somewhere.
theorem isStep_of_mem_parse {name s : String} (h : s ∈ (parse name).steps) : IsStep s := by
  rw [parse, List.mem_filter] at h
  obtain ⟨hmem, hkept⟩ := h
  have hboth : s ≠ "" ∧ s ≠ "." := by simpa using hkept
  exact ⟨hboth.1, hboth.2, single_of_mem_stepsOf hmem⟩

-- What names start with.
def IsRoot (root : String) : Prop := root = "" ∨ root = "/" ∨ root = "//"

-- A path as it comes from a name, with a last step.
structure IsFile (p : Path) : Prop where
  root : IsRoot p.root
  nonempty : p.steps ≠ []
  steps : ∀ s ∈ p.steps, IsStep s

theorem filter_steps {steps : List String} (h : ∀ s ∈ steps, IsStep s) :
    steps.filter (fun s => s ≠ "" ∧ s ≠ ".") = steps := by
  refine List.filter_eq_self.2 fun s hs => ?_
  simpa using And.intro (h s hs).nonempty (h s hs).moves

theorem head_intercalate {steps : List String} (hne : steps ≠ []) (h : ∀ s ∈ steps, IsStep s) :
    ∃ c cs, ("/".intercalate steps).toList = c :: cs ∧ c ≠ '/' := by
  cases steps with
  | nil => exact absurd rfl hne
  | cons s steps =>
    obtain ⟨hnonempty, -, hsingle⟩ := h s (.head _)
    cases htext : s.toList with
    | nil => exact absurd (String.toList_eq_nil_iff.1 htext) hnonempty
    | cons c cs =>
      have hc : c ≠ '/' := by
        rintro rfl
        exact hsingle (htext ▸ .head _)
      cases steps with
      | nil => exact ⟨c, cs, by rw [String.intercalate_singleton, htext], hc⟩
      | cons t steps =>
        refine ⟨c, cs ++ ("/".toList ++ ("/".intercalate (t :: steps)).toList), ?_, hc⟩
        simp [String.intercalate_cons_cons, htext]

theorem text_of_isFile {p : Path} (h : p.IsFile) : p.text = p.root ++ "/".intercalate p.steps := by
  rw [text, if_neg (fun hboth => h.nonempty hboth.2)]

theorem rootOf_append {root : String} (hroot : IsRoot root) {c : Char} (hc : c ≠ '/')
    (cs : List Char) : rootOf (root.toList ++ c :: cs) = root := by
  rcases hroot with rfl | rfl | rfl
  all_goals simp [rootOf, hc]

-- The empty steps in front of an absolute name are left out.
theorem steps_append {root : String} (hroot : IsRoot root) (cs : List Char) :
    ((parts (root.toList ++ cs)).map String.ofList).filter (fun s => s ≠ "" ∧ s ≠ ".") =
      ((parts cs).map String.ofList).filter fun s => s ≠ "" ∧ s ≠ "." := by
  rcases hroot with rfl | rfl | rfl
  all_goals simp [parts]

-- A path that is written out is read as it was.
theorem parse_text {p : Path} (h : p.IsFile) : parse p.text = p := by
  obtain ⟨c, cs, hhead, hc⟩ := head_intercalate h.nonempty h.steps
  have hsteps := stepsOf_intercalate h.nonempty fun s hs => (h.steps s hs).single
  rw [stepsOf, hhead] at hsteps
  rw [text_of_isFile h, parse, stepsOf, String.toList_append, hhead, rootOf_append h.root hc,
    steps_append h.root, hsteps, filter_steps h.steps]

theorem isRoot_rootOf (cs : List Char) : IsRoot (rootOf cs) := by
  unfold rootOf
  split <;> simp [IsRoot]

-- A name with an ending that is more than dots is that of a file.
theorem isFile_extend (name : String) {ending : String} (hlong : 2 < ending.length)
    (hsingle : '/' ∉ ending.toList) : ((parse name).extend ending).IsFile := by
  refine ⟨isRoot_rootOf _, by simp [extend], fun s hs => ?_⟩
  rw [extend, List.mem_append, List.mem_singleton] at hs
  rcases hs with hs | rfl
  · exact isStep_of_mem_parse (List.dropLast_subset _ hs)
  · generalize hlast : (parse name).steps.getLast?.getD "" = last
    have hlong : 2 < (last ++ ending).length := by
      rw [String.length_append]
      omega
    have hne (s : String) (hs : s.length ≤ 2) : last ++ ending ≠ s := by
      rintro rfl
      omega
    refine ⟨hne "" (by decide), hne "." (by decide), ?_⟩
    have hlastSingle : '/' ∉ last.toList := by
      cases hgiven : (parse name).steps.getLast? with
      | none =>
        rw [hgiven] at hlast
        rw [← hlast]
        decide
      | some s =>
        rw [hgiven, Option.getD_some] at hlast
        rw [← hlast]
        exact (isStep_of_mem_parse (List.mem_of_getLast? hgiven)).single
    rw [String.toList_append, List.mem_append, not_or]
    exact ⟨hlastSingle, hsingle⟩

theorem getLast?_extend (p : Path) (ending : String) :
    (p.extend ending).steps.getLast? = some (p.steps.getLast?.getD "" ++ ending) := by
  simp [extend]

end TernLang.Path
