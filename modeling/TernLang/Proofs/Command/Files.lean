import Mathlib.Data.List.Infix
import TernLang.Command.Files
import TernLang.Proofs.Command.Path

-- A file that is written is the one that is read under its name afterwards, and all others are read
-- as before.

namespace TernLang

namespace Files

open TernLang.Path

variable {f : Files} {l m here there : Location} {name step : String} {steps : List String}

@[simp]
theorem textAt?_write_self (f : Files) (l : Location) (text : String) :
    (f.write l text).textAt? l = some text := by
  simp [textAt?, write]

theorem textAt?_write_of_ne (f : Files) (text : String) (h : m ≠ l) :
    (f.write l text).textAt? m = f.textAt? m := by
  simp [textAt?, write, List.lookup_cons, beq_false_of_ne h]

@[simp]
theorem trace_write (f : Files) (l : Location) (text : String) :
    (f.write l text).trace = f.trace := rfl

theorem isDirectory_iff : f.isDirectory l ↔ ∃ m ∈ f.innermost, l <+: m := by
  simp [isDirectory]

-- What is above a directory is one.
theorem isDirectory_of_above (h : f.isDirectory m) (hl : l <+: m) : f.isDirectory l := by
  obtain ⟨inside, hinside, hm⟩ := isDirectory_iff.1 h
  exact isDirectory_iff.2 ⟨inside, hinside, hl.trans hm⟩

theorem isDirectory_home (f : Files) : f.isDirectory f.home :=
  isDirectory_iff.2 ⟨f.home, .head _, List.prefix_rfl⟩

theorem isDirectory_origin (f : Files) (root : String) : f.isDirectory (f.origin root) := by
  unfold origin
  split
  · exact f.isDirectory_home
  · exact isDirectory_of_above f.isDirectory_home List.nil_prefix

-- A file in a directory makes no new one.
theorem isDirectory_write (h : f.isDirectory l.dropLast) (text : String) (m : Location) :
    (f.write l text).isDirectory m = f.isDirectory m := by
  have hmem (inside : Location) : inside ∈ (f.write l text).innermost ↔
      inside = l.dropLast ∨ inside ∈ f.innermost := by
    simp only [innermost, write, List.map_cons, List.mem_append, List.mem_cons]
    tauto
  rw [Bool.eq_iff_iff, isDirectory_iff, isDirectory_iff]
  constructor
  · rintro ⟨inside, hinside, hm⟩
    rcases (hmem inside).1 hinside with rfl | hinside
    · exact isDirectory_iff.1 (isDirectory_of_above h hm)
    · exact ⟨inside, hinside, hm⟩
  · rintro ⟨inside, hinside, hm⟩
    exact ⟨inside, (hmem inside).2 (.inr hinside), hm⟩

theorem follow_write (hl : f.isDirectory l.dropLast) (text : String)
    (h : f.follow here step = .ok there) : (f.write l text).follow here step = .ok there := by
  unfold follow at h ⊢
  simp only [isDirectory_write hl text]
  split_ifs at h ⊢
  · exact h
  · exact h
  · cases henter : enter here step with
    | error e => simp [henter, bind, Except.bind] at h
    | ok next =>
      simp only [henter, bind, Except.bind] at h ⊢
      by_cases hnext : next = l
      · subst hnext
        rw [textAt?_write_self]
        simp only [Option.isSome_some, Bool.or_true, if_true]
        split at h
        · exact h
        · cases h
      · rwa [textAt?_write_of_ne f text hnext]

theorem walk_cons_eq_ok : f.walk here (step :: steps) = .ok there ↔
    ∃ next, f.follow here step = .ok next ∧ f.walk next steps = .ok there := by
  rw [walk]
  cases f.follow here step with
  | error e => simp [bind, Except.bind]
  | ok next => simp [bind, Except.bind]

theorem walk_append_eq_ok {first later : List String} :
    f.walk here (first ++ later) = .ok there ↔
      ∃ next, f.walk here first = .ok next ∧ f.walk next later = .ok there := by
  induction first generalizing here with
  | nil => simp [walk]
  | cons step first ih =>
    rw [List.cons_append, walk_cons_eq_ok]
    constructor
    · rintro ⟨middle, hstep, hrest⟩
      obtain ⟨next, hfirst, hlater⟩ := ih.1 hrest
      exact ⟨next, walk_cons_eq_ok.2 ⟨middle, hstep, hfirst⟩, hlater⟩
    · rintro ⟨next, hfirst, hlater⟩
      obtain ⟨middle, hstep, hrest⟩ := walk_cons_eq_ok.1 hfirst
      exact ⟨middle, hstep, ih.2 ⟨next, hrest, hlater⟩⟩

theorem walk_write (hl : f.isDirectory l.dropLast) (text : String)
    (h : f.walk here steps = .ok there) : (f.write l text).walk here steps = .ok there := by
  induction steps generalizing here with
  | nil => exact h
  | cons step steps ih =>
    obtain ⟨next, hfirst, hlater⟩ := walk_cons_eq_ok.1 h
    exact walk_cons_eq_ok.2 ⟨next, follow_write hl text hfirst, ih hlater⟩

-- An empty step in a directory leads nowhere.
theorem walk_empty_cons (h : f.isDirectory here) :
    f.walk here ("" :: steps) = f.walk here steps := by
  simp [walk, follow, h, bind, Except.bind]

theorem locate_eq_ok : f.locate name = .ok l ↔ checkName name = .ok () ∧
    f.walk (f.origin (rootOf name.toList)) (stepsOf name) = .ok l := by
  unfold locate
  cases checkName name with
  | error e => simp [bind, Except.bind]
  | ok => simp [bind, Except.bind]

theorem locate_write (hl : f.isDirectory l.dropLast) (text : String) (h : f.locate name = .ok m) :
    (f.write l text).locate name = .ok m := by
  obtain ⟨hcheck, hwalk⟩ := locate_eq_ok.1 h
  exact locate_eq_ok.2 ⟨hcheck, walk_write hl text hwalk⟩

theorem read_eq_ok {text : String} : f.read name = .ok text ↔
    ∃ l, f.locate name = .ok l ∧ ¬f.isDirectory l ∧ f.textAt? l = some text := by
  unfold read
  cases f.locate name with
  | error e => simp [bind, Except.bind]
  | ok l =>
    simp only [bind, Except.bind]
    by_cases hdirectory : f.isDirectory l
    · simp [hdirectory]
    · cases htext : f.textAt? l <;> simp [hdirectory, htext]

-- Writing a file leaves what is read from all others.
theorem read_write_of_ne {text : String} (hread : f.read name = .ok text)
    (hl : f.isDirectory l.dropLast) (hne : f.locate name ≠ .ok l) (later : String) :
    (f.write l later).read name = .ok text := by
  obtain ⟨m, hlocate, hfile, htext⟩ := read_eq_ok.1 hread
  have hm : m ≠ l := by
    rintro rfl
    exact hne hlocate
  refine read_eq_ok.2 ⟨m, locate_write hl later hlocate, ?_, ?_⟩
  · rwa [isDirectory_write hl]
  · rwa [textAt?_write_of_ne f later hm]

section Paths

variable {p : Path}

-- A path that is written out leads where its steps do.
theorem locate_text_eq_ok (hp : p.IsFile) : f.locate p.text = .ok l ↔
    checkName p.text = .ok () ∧ f.walk (f.origin p.root) p.steps = .ok l := by
  have hroot : rootOf p.text.toList = p.root := congrArg Path.root (parse_text hp)
  have hsteps := stepsOf_intercalate hp.nonempty fun s hs => (hp.steps s hs).single
  have hwalk : f.walk (f.origin p.root) (stepsOf p.text) = f.walk (f.origin p.root) p.steps := by
    have hstart := f.isDirectory_origin p.root
    rw [stepsOf] at hsteps
    rw [text_of_isFile hp, stepsOf, String.toList_append]
    rcases hp.root with h | h | h <;> rw [h] at hstart ⊢
    · exact congrArg _ hsteps
    · exact (walk_empty_cons hstart).trans (congrArg _ hsteps)
    · exact (walk_empty_cons hstart).trans <| (walk_empty_cons hstart).trans (congrArg _ hsteps)
  rw [locate_eq_ok, hroot, hwalk]

-- Where a file is written there is none but in its directory, and no directory.
theorem target_eq_ok (h : f.target p = .ok l) : checkName p.text = .ok () ∧ ¬f.isDirectory l ∧
    ∃ directory last, f.walk (f.origin p.root) p.steps.dropLast = .ok directory ∧
      f.isDirectory directory ∧ p.steps.getLast? = some last ∧ last ≠ ".." ∧
      last.utf8ByteSize ≤ stepLimit ∧ l = directory ++ [last] := by
  unfold target enter at h
  cases hcheck : checkName p.text with
  | error e => simp [hcheck, bind, Except.bind] at h
  | ok =>
    cases hwalk : f.walk (f.origin p.root) p.steps.dropLast with
    | error e => simp [hcheck, hwalk, bind, Except.bind] at h
    | ok directory =>
      simp only [hcheck, hwalk, bind, Except.bind] at h
      split at h
      · cases h
      rename_i hdirectory
      split at h
      · cases h
      · cases h
      rename_i last hback hlast
      split at h
      · cases h
      rename_i henter
      split at henter
      · cases henter
      rename_i hshort
      cases henter
      split at h
      · cases h
      rename_i hfile
      cases h
      exact ⟨rfl, hfile, directory, last, rfl, by simpa using hdirectory, hlast,
        hback, Nat.not_lt.1 hshort, rfl⟩

theorem isDirectory_of_target (h : f.target p = .ok l) : f.isDirectory l.dropLast := by
  obtain ⟨-, -, directory, last, -, hdirectory, -, -, -, rfl⟩ := target_eq_ok h
  rwa [List.dropLast_concat]

theorem getLast?_of_target (h : f.target p = .ok l) : l.getLast? = p.steps.getLast? := by
  obtain ⟨-, -, directory, last, -, -, hlast, -, -, rfl⟩ := target_eq_ok h
  rw [List.getLast?_concat, hlast]

-- The name of a file that is written leads to it.
theorem locate_of_target (hp : p.IsFile) (htarget : f.target p = .ok l) (text : String) :
    (f.write l text).locate p.text = .ok l := by
  have hl := isDirectory_of_target htarget
  obtain ⟨hcheck, -, directory, last, hwalk, hdirectory, hlast, hback, hshort, rfl⟩ :=
    target_eq_ok htarget
  have hstep := hp.steps last (List.mem_of_getLast? hlast)
  have hfollow : (f.write (directory ++ [last]) text).follow directory last =
      .ok (directory ++ [last]) := by
    simp [follow, enter, isDirectory_write hl, hdirectory, hstep.nonempty, hstep.moves, hback,
      Nat.not_lt.2 hshort, bind, Except.bind]
  refine (locate_text_eq_ok hp).2 ⟨hcheck, ?_⟩
  rw [← List.dropLast_append_getLast? last hlast]
  exact walk_append_eq_ok.2 ⟨directory, walk_write hl text hwalk,
    walk_cons_eq_ok.2 ⟨_, hfollow, rfl⟩⟩

-- A file that is written is read under its name.
theorem read_write (hp : p.IsFile) (htarget : f.target p = .ok l) (text : String) :
    (f.write l text).read p.text = .ok text := by
  refine read_eq_ok.2 ⟨l, locate_of_target hp htarget text, ?_, textAt?_write_self _ _ _⟩
  rw [isDirectory_write (isDirectory_of_target htarget)]
  exact (target_eq_ok htarget).2.1

end Paths

end Files

end TernLang
