import TernLang.Proofs.Eval.Destructuring
import TernLang.Proofs.Text.Cutting

-- Calls of methods. A method is got at after a point or by its name as a key, and its call reports
-- itself and changes nothing else. What `split` gives is the text again when it is put together.

namespace TernLang

-- The two ways in which a program gets at a member of a value.
inductive Access where
  -- By a name after a point.
  | point
  -- By a string in brackets.
  | key

namespace Access

def member (way : Access) (v : Value) (name : String) : Except Failure Value :=
  match way with
  | point => v.property (.str name)
  | key => v.index (.str name)

theorem member_eq (way : Access) (v : Value) (name : String) :
    way.member v name = v.property (.str name) := by
  cases way with
  | point => rfl
  | key => cases v <;> rfl

end Access

namespace Method

-- The texts as the array that a method gives.
def ofTexts (texts : List String) : Value := .array (texts.map .str)

theorem texts_eq (pieces : List (List Char)) :
    split.texts pieces = ofTexts (pieces.map String.ofList) := by
  simp [split.texts, ofTexts]

theorem toList_pieces (pieces : List (List Char)) :
    (pieces.map String.ofList).map String.toList = pieces := by
  simp [Function.comp_def]

theorem split_str {sep : String} (hsep : sep ≠ "") (s : String) (more : List Value) :
    split s (.str sep :: more) =
      .ok (ofTexts ((Text.splitAt sep.toList s.toList).map String.ofList)) := by
  rw [split, if_neg (by simpa using hsep), texts_eq]

theorem split_empty (s : String) (more : List Value) :
    split s (.str "" :: more) = .ok (ofTexts ((s.toList.map ([·])).map String.ofList)) := by
  rw [split, if_pos (show "".isEmpty from rfl), texts_eq]

theorem split_words {args : List Value} (h : args = [] ∨ args.head? = some .null) (s : String) :
    split s args = .ok (ofTexts ((Text.words s.toList).map String.ofList)) := by
  rcases h with rfl | h
  · rw [split, texts_eq]
  · obtain ⟨more, rfl⟩ := List.head?_eq_some_iff.1 h
    rw [split, texts_eq]

-- Data that is no value is refused as well, for having no kind.
theorem split_refused {v : Value} (hnull : v ≠ .null) (hstr : ∀ sep, v ≠ .str sep) (s : String)
    (more : List Value) :
    ∃ e : Error, split s (v :: more) = .error (.error e) ∧ e.cause.cls = .typeMismatch := by
  cases v with
  | null => exact absurd rfl hnull
  | str sep => exact absurd rfl (hstr sep)
  | _ => exact ⟨_, rfl, rfl⟩

end Method

namespace Eval

-- Gets at a member of a value and calls it.
def callMember (way : Access) (level : Int) (call : Caller) (v : Value) (name : String)
    (args : List Value) : Eval Value := do
  let callee ← lift (way.member v name)
  apply level call callee args

-- The end of the call of a method, which reports itself and leaves all else as it is.
def called (level : Int) (m : Method) (outcome : Except Failure Value) (s : State) :
    EStateM.Result Failure State Value :=
  match outcome with
  | .ok v => .ok v (emitted level (.calledMethod m) s)
  | .error e => .error e (emitted level (.calledMethod m) s)

theorem callMember_eq {v : Value} {name : String} {m : Method}
    (h : v.property (.str name) = .ok (.method m v [])) (way : Access) (level : Int) (call : Caller)
    (args : List Value) (s : State) :
    callMember way level call v name args s = called level m (m.call v args) s := by
  have hreported : emit level (.calledMethod m) = modify (emitted level (.calledMethod m)) :=
    emit_eq_modify rfl
  have happly : callMember way level call v name args s =
      apply level call (.method m v []) args s := by
    rw [callMember, way.member_eq, h]
    rfl
  rw [happly, apply, hreported, List.nil_append]
  cases m.call v args <;> rfl

-- The end of a call of `split` on a text.
def splitOf (way : Access) (level : Int) (call : Caller) (s : String) (args : List Value)
    (t : State) : EStateM.Result Failure State Value :=
  callMember way level call (.str s) "split" args t

theorem splitOf_eq (way : Access) (level : Int) (call : Caller) (s : String) (args : List Value)
    (t : State) :
    splitOf way level call s args t = called level .stringSplit (Method.split s args) t :=
  callMember_eq rfl way level call args t

-- What `split` gives for a text. Around a separator that is not empty these are the pieces between
-- its occurrences, each taken leftmost in what is left: none of them has the separator in it, and
-- with the separator between them they are the text. Around the empty separator they are the
-- characters, and without a separator or with null for one the longest runs of characters that are
-- not blank. Every other value is refused in place of a separator, and what comes after the
-- separator does not matter.
theorem split_put_together (way : Access) (level : Int) (call : Caller) (s : String) (t : State) :
    (∀ sep more, sep ≠ "" → ∃ pieces,
      splitOf way level call s (.str sep :: more) t =
        .ok (Method.ofTexts pieces) (emitted level (.calledMethod .stringSplit) t) ∧
      sep.intercalate pieces = s ∧ (∀ p ∈ pieces, ¬sep.toList <:+: p.toList) ∧
      Text.CutAt sep.toList s.toList (pieces.map String.toList)) ∧
    (∀ more, ∃ pieces,
      splitOf way level call s (.str "" :: more) t =
        .ok (Method.ofTexts pieces) (emitted level (.calledMethod .stringSplit) t) ∧
      (∀ p ∈ pieces, p.length = 1) ∧ String.join pieces = s) ∧
    (∀ args, args = [] ∨ args.head? = some .null → ∃ words,
      splitOf way level call s args t =
        .ok (Method.ofTexts words) (emitted level (.calledMethod .stringSplit) t) ∧
      (∀ w ∈ words, w ≠ "") ∧ Text.RunsOf Text.isBlank s.toList (words.map String.toList)) ∧
    (∀ v more, v ≠ .null → (∀ sep, v ≠ .str sep) → ∃ e : Error,
      splitOf way level call s (v :: more) t =
        .error (.error e) (emitted level (.calledMethod .stringSplit) t) ∧
      e.cause.cls = .typeMismatch) ∧
    ∀ v more, splitOf way level call s (v :: more) t = splitOf way level call s [v] t := by
  simp only [splitOf_eq]
  refine ⟨fun sep more hsep => ?separator, fun more => ?empty, fun args hargs => ?words,
    fun v more hnull hstr => ?other, fun v more => ?more⟩
  case separator =>
    have hchars : sep.toList ≠ [] := by simpa using hsep
    have hcut := Text.cutAt_splitAt hchars s.toList
    refine ⟨_, congrArg (called level .stringSplit · t) (Method.split_str hsep s more), ?_, ?_, ?_⟩
    · rw [← String.toList_inj, String.toList_intercalate, Method.toList_pieces]
      exact hcut.intercalate_eq
    · rw [List.forall_mem_map]
      simpa using hcut.not_infix hchars
    · rwa [Method.toList_pieces]
  case empty =>
    refine ⟨_, congrArg (called level .stringSplit · t) (Method.split_empty s more), by simp, ?_⟩
    rw [← String.toList_inj, String.toList_join]
    simp [List.flatMap_map]
  case words =>
    have hruns := Text.runsOf_words s.toList
    refine ⟨_, congrArg (called level .stringSplit · t) (Method.split_words hargs s), ?_, ?_⟩
    · rw [List.forall_mem_map]
      simpa using hruns.ne_nil
    · rwa [Method.toList_pieces]
  case other =>
    obtain ⟨e, hsplit, hclass⟩ := Method.split_refused hnull hstr s more
    exact ⟨e, congrArg (called level .stringSplit · t) hsplit, hclass⟩
  case more => cases v <;> rfl

-- A separator that overlaps itself is taken at the front first.
theorem split_put_together_overlapping :
    let t := (Session.start {} "").state
    ("aa" ≠ "" ∧ ∃ pieces, splitOf .point 0 (invoke 0 1 1) "aaab" [.str "aa", .int 1] t =
      .ok (Method.ofTexts pieces) t ∧ "aa".intercalate pieces = "aaab") ∧
    splitOf .key 0 (invoke 0 1 1) "aaab" [.str "aa"] t = .ok (Method.ofTexts ["", "ab"]) t := by
  intro t
  obtain ⟨hseparator, -⟩ := split_put_together .point 0 (invoke 0 1 1) "aaab" t
  obtain ⟨pieces, hsplit, hjoin, -⟩ := hseparator "aa" [.int 1] (by decide)
  exact ⟨⟨by decide, pieces, hsplit, hjoin⟩, rfl⟩

end Eval

end TernLang
