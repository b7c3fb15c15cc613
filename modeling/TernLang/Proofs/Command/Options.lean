import Mathlib.Tactic.Common
import TernLang.Command.Options
import TernLang.Proofs.Number.Reading

-- What the arguments of a run say.

namespace TernLang.Options

-- An argument that stands for itself, and is not taken for an option.
structure IsOperand (s : String) : Prop where
  form : classify s = some (.operand s)
  joins : s ≠ "--"

instance (s : String) : Decidable (IsOperand s) :=
  decidable_of_iff (classify s = some (.operand s) ∧ s ≠ "--")
    ⟨fun h => ⟨h.1, h.2⟩, fun h => ⟨h.form, h.joins⟩⟩

-- The options that go with a program: how much is traced, and how deep calls may go.
inductive Setting where
  | verbose
  | depth (value : String)
deriving DecidableEq

namespace Setting

def args : Setting → List String
  | verbose => ["-v"]
  | depth value => ["--max-depth", value]

def words : Setting → List Word
  | verbose => [.flag .verbose none]
  | depth value => [.flag .depth none, .operand value]

def IsGiven (setting : Setting) : Prop := ∀ value, setting = depth value → IsOperand value

def apply (p : Progress) : Setting → Except Stop Progress
  | verbose => p.take .verbose
  | depth value => p.takeValue .depth value

end Setting

open Setting

theorem classifyAll_cons {s : String} {rest : List String} {word : Word} (hs : s ≠ "--")
    (hword : classify s = some word) :
    classifyAll (s :: rest) = (classifyAll rest).map (word :: ·) := by
  rw [classifyAll, if_neg hs, hword]
  cases classifyAll rest <;> rfl

theorem IsOperand.classifyAll {s : String} (h : IsOperand s) (rest : List String) :
    classifyAll (s :: rest) = (Options.classifyAll rest).map (.operand s :: ·) :=
  classifyAll_cons h.joins h.form

variable {settings : List Setting}

theorem classifyAll_settings (h : ∀ s ∈ settings, s.IsGiven) (rest : List String) :
    classifyAll (settings.flatMap args ++ rest) =
      (classifyAll rest).map (settings.flatMap words ++ ·) := by
  induction settings with
  | nil => simp
  | cons setting settings ih =>
    obtain ⟨hfirst, hlater⟩ := List.forall_mem_cons.1 h
    rw [List.flatMap_cons, List.flatMap_cons, List.append_assoc]
    cases setting with
    | verbose =>
      rw [args, List.singleton_append, classifyAll_cons (by decide) rfl, ih hlater, Option.map_map]
      rfl
    | depth value =>
      have hvalue := hfirst value rfl
      rw [args, List.cons_append, List.cons_append, classifyAll_cons (by decide) rfl,
        hvalue.classifyAll, List.nil_append, ih hlater, Option.map_map, Option.map_map]
      rfl

-- The settings are taken one after another, before all that follows them.
theorem collect_settings (p : Progress) (rest : List Word) :
    collect p (settings.flatMap words ++ rest) =
      (settings.foldlM apply p).bind fun p => collect p rest := by
  induction settings generalizing p with
  | nil => rfl
  | cons setting settings ih =>
    rw [List.flatMap_cons, List.append_assoc, List.foldlM_cons]
    cases setting with
    | verbose =>
      rw [words, List.singleton_append, collect.eq_def]
      simp only [Flag.takesValue, apply]
      cases p.take .verbose with
      | error e => rfl
      | ok p => exact ih p
    | depth value =>
      rw [words, List.cons_append, List.cons_append, List.nil_append, collect]
      simp only [Flag.takesValue, apply]
      cases p.takeValue .depth value with
      | error e => rfl
      | ok p => exact ih p

-- The options that the settings alone give: each `-v` counts, and of several depths the last one
-- does. A depth that cannot be read ends it.
theorem foldlM_settings (settings : List Setting) (h : ∀ s ∈ settings, s.IsGiven) (k : Nat)
    (d : Option Int) :
    settings.foldlM apply { options := { verbosity := k, depth := d } } = .error .usage ∨
      ∃ d', settings.foldlM apply { options := { verbosity := k, depth := d } } =
        .ok { options := { verbosity := k + settings.count .verbose, depth := d' } } := by
  induction settings generalizing k d with
  | nil => exact .inr ⟨d, rfl⟩
  | cons setting settings ih =>
    obtain ⟨hfirst, hlater⟩ := List.forall_mem_cons.1 h
    rw [List.foldlM_cons]
    cases setting with
    | verbose =>
      have hcount : k + (Setting.verbose :: settings).count .verbose =
          k + 1 + settings.count .verbose := by
        rw [List.count_cons_self]
        omega
      rw [hcount]
      exact ih hlater (k + 1) d
    | depth value =>
      rw [List.count_cons_of_ne (by simp)]
      simp only [apply, Progress.takeValue, (hfirst value rfl).joins, if_false, Option.map_some]
      cases Reading.looseInteger value.toList with
      | number n => exact ih hlater k (some n)
      | tooLong => exact .inl rfl
      | malformed => exact .inl rfl

theorem parse_append (h : ∀ s ∈ settings, s.IsGiven) {rest : List String} {words : List Word}
    (hrest : classifyAll rest = some words) :
    parse (settings.flatMap args ++ rest) = (settings.foldlM apply {}).bind fun p =>
      (collect p words).bind fun p => if p.surplus then .error .usage else .ok p.options := by
  rw [parse, classifyAll_settings h, hrest]
  simp only [Option.map_some, collect_settings]
  cases settings.foldlM apply ({} : Progress) <;> rfl

-- The settings mean the same in front of a program as in front of the name of a document.
theorem parse_settings (h : ∀ s ∈ settings, s.IsGiven) :
    (∀ name, IsOperand name → parse (settings.flatMap args ++ [name]) = .error .usage ∧
        parse (settings.flatMap args ++ ["--ast", name]) = .error .usage) ∨
      ∃ d, ∀ name, IsOperand name →
        parse (settings.flatMap args ++ [name]) =
            .ok { verbosity := settings.count .verbose, depth := d, program := some name } ∧
          parse (settings.flatMap args ++ ["--ast", name]) =
            .ok { verbosity := settings.count .verbose, depth := d, ast := some name } := by
  have hprogram (name : String) (hname : IsOperand name) :
      classifyAll [name] = some [.operand name] := by
    rw [hname.classifyAll]
    rfl
  have hdocument (name : String) (hname : IsOperand name) :
      classifyAll ["--ast", name] = some [.flag .ast none, .operand name] := by
    rw [classifyAll_cons (by decide) rfl, hprogram name hname]
    rfl
  rcases foldlM_settings settings h 0 (some 1000) with hstop | ⟨d, hgiven⟩
  · refine .inl fun name hname => ⟨?_, ?_⟩
    · rw [parse_append h (hprogram name hname), hstop]
      rfl
    · rw [parse_append h (hdocument name hname), hstop]
      rfl
  · refine .inr ⟨d, fun name hname => ⟨?_, ?_⟩⟩
    · rw [parse_append h (hprogram name hname), hgiven, Nat.zero_add]
      rfl
    · rw [parse_append h (hdocument name hname), hgiven, Nat.zero_add]
      simp only [Except.bind, collect, Flag.takesValue, Progress.takeValue, hname.joins, if_false]
      rfl

theorem parse_emit {name : String} (h : IsOperand name) :
    parse ["--emit-ast", name] = .ok { emit := some name } := by
  rw [parse, classifyAll_cons (by decide) rfl, h.classifyAll]
  simp only [classifyAll, Option.map_some, collect, Flag.takesValue, Progress.takeValue, h.joins,
    if_false]
  rfl

theorem ofName?_eq_none {s : String} (h : ∀ entry ∈ Flag.names, entry.1 ≠ s) :
    Flag.ofName? s = none := by
  have hfind : Flag.names.find? (·.1 = s) = none := by
    rw [List.find?_eq_none]
    simpa using h
  rw [Flag.ofName?, hfind]
  rfl

-- What does not start with a dash is no option.
theorem isOperand_of_head? {s : String} (h : s.toList.head? ≠ some '-') : IsOperand s := by
  have hne (t : String) (ht : t.toList.head? = some '-') : t ≠ s := by
    rintro rfl
    exact h ht
  have hnone : Flag.ofName? s = none := by
    refine ofName?_eq_none fun entry hentry => hne entry.1 ?_
    revert entry
    decide
  refine ⟨?_, (hne "--" rfl).symm⟩
  unfold classify
  simp only [hnone]
  split
  · contradiction
  · rename_i heq
    rw [heq] at h
    exact absurd rfl h
  · rename_i heq
    rw [heq] at h
    exact absurd rfl h
  · rfl

-- Nor is a dash with a digit after it.
theorem ofName?_minus {c : Char} (hc : c.isDigit) (cs : List Char) :
    Flag.ofName? (String.ofList ('-' :: c :: cs)) = none := by
  have hletter : ∀ entry ∈ Flag.names, entry.1.toList.tail.head?.any Char.isDigit = false := by
    decide
  refine ofName?_eq_none fun entry hentry hname => ?_
  have hentry := hletter entry hentry
  rw [hname, String.toList_ofList, List.tail_cons, List.head?_cons, Option.any_some, hc] at hentry
  exact absurd hentry (by simp)

theorem isNegativeNumber_minus {ds : List Char} (hds : Reading.IsDigits ds) :
    isNegativeNumber ('-' :: ds) := by
  obtain ⟨hne, hall⟩ := hds
  have hdigits : ∀ c ∈ ds, c.isDigit := List.all_eq_true.1 hall
  have hlast : ('-' :: ds).getLast? ≠ some '\n' := by
    intro hlast
    rcases List.mem_cons.1 (List.mem_of_getLast? hlast) with heq | hmem
    · exact absurd heq (by decide)
    · exact absurd (hdigits _ hmem) (by decide)
  have hspan : ds.span (fun c => (Text.digitValue? c).isSome) = (ds, []) := by
    have hvalue : ∀ c ∈ ds, (Text.digitValue? c).isSome := by
      intro c hc
      rw [Reading.digitValue?_of_isDigit (hdigits c hc)]
      rfl
    have htaken : (ds ++ []).takeWhile (fun c => (Text.digitValue? c).isSome) = ds := by
      rw [List.takeWhile_append_of_pos hvalue, List.takeWhile_nil, List.append_nil]
    have hafter : (ds ++ []).dropWhile (fun c => (Text.digitValue? c).isSome) = [] := by
      rw [List.dropWhile_append_of_pos hvalue, List.dropWhile_nil]
    rw [List.append_nil] at htaken hafter
    rw [List.span_eq_takeWhile_dropWhile, htaken, hafter]
  simp only [isNegativeNumber, Text.dropNewline, hlast, if_false, hspan]
  simpa using hne

theorem isOperand_minus {ds : List Char} (hds : Reading.IsDigits ds) :
    IsOperand (String.ofList ('-' :: ds)) := by
  have hnumber := isNegativeNumber_minus hds
  obtain ⟨c, cs, rfl⟩ := List.exists_cons_of_ne_nil hds.1
  have hc : c.isDigit := List.all_eq_true.1 hds.2 c (.head _)
  have hdash : c ≠ '-' := by
    rintro rfl
    exact absurd hc (by decide)
  refine ⟨?_, ?_⟩
  · unfold classify
    simp only [ofName?_minus hc cs, String.toList_ofList]
    simp only [letterFlag?, ofName?_minus hc []]
    simp [other, hnumber]
  · intro hjoined
    have hchars := congrArg String.toList hjoined
    rw [String.toList_ofList] at hchars
    exact hdash (List.cons.inj (List.cons.inj hchars).2).1

-- Every integer can be given as a depth.
theorem isGiven_depth (n : Int) : (Setting.depth (toString n)).IsGiven := by
  rintro value ⟨⟩
  cases n with
  | ofNat n =>
    have htext : toString (Int.ofNat n) = String.ofList (Nat.toDigits 10 n) := by
      simp [Int.toString_eq_repr, Int.repr_eq_if, Nat.repr_eq_ofList_toDigits]
    rw [htext]
    refine isOperand_of_head? fun hhead => ?_
    rw [String.toList_ofList] at hhead
    have hdigit := List.all_eq_true.1 (Reading.isDigits_toDigits n).2 _ (List.mem_of_head? hhead)
    exact absurd hdigit (by decide)
  | negSucc n =>
    have htext : toString (Int.negSucc n) = String.ofList ('-' :: Nat.toDigits 10 (n + 1)) := by
      apply String.toList_inj.1
      simp [Int.toString_eq_repr, Int.repr_eq_if, Nat.repr_eq_ofList_toDigits]
    rw [htext]
    exact isOperand_minus (Reading.isDigits_toDigits _)

end TernLang.Options
