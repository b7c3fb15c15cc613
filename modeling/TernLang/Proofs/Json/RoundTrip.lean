import TernLang.Proofs.Json.Scalars

-- JSON text: what is written is read back.

namespace TernLang

namespace Shortest

open Floating

-- The decimal that is written reads as the number.
theorem toFloat_decimal {x : Float} {f : Fraction} (hx : bits x < infiniteBits)
    (hf : shape x = .finite f) : (decimal f x).toFloat = x := by
  unfold decimal
  simp only
  generalize hfound : (List.range 17).findSome? _ = found
  cases found with
  | none => exact toFloat_full hx hf
  | some d =>
    obtain ⟨n, -, hn⟩ := List.exists_of_findSome?_eq_some hfound
    have hreads := List.find?_some hn
    exact of_decide_eq_true hreads

end Shortest

namespace Json

open Reader Floating

theorem value_null (n : Nat) (rest : List Char) :
    value (n + 1) ("null".toList ++ rest) = .ok (.null, rest) := rfl

theorem value_bool (n : Nat) (b : Bool) (rest : List Char) :
    value (n + 1) ((if b then "true" else "false").toList ++ rest) = .ok (.bool b, rest) := by
  cases b <;> rfl

theorem value_infinity (n : Nat) (rest : List Char) :
    value (n + 1) ("Infinity".toList ++ rest) = .ok (.real Reading.infinity, rest) := rfl

theorem infinity_eq : Reading.infinity = Float.ofBits (UInt64.ofNat infiniteBits) := by
  decide +kernel

-- What starts with a digit is a number, and none of the words.
theorem simple_digit {c : Char} (hc : c.isDigit) (cs : List Char) :
    simple (c :: cs) = number false (c :: cs) := by
  have hne (d : Char) (hd : d.isDigit = false) : d ≠ c := by
    rintro rfl
    rw [hc] at hd
    exact absurd hd (by simp)
  have hword (word : String) (d : Char) (ds : List Char) (hword : word.toList = d :: ds)
      (hd : d.isDigit = false) : after? word (c :: cs) = none := by
    rw [after?, hword, List.isPrefixOf, if_neg]
    simp [hne d hd]
  have hwords : ∀ p ∈ Reader.words, after? p.1 (c :: cs) = none := by
    simp [Reader.words, hword "null" 'n' _ rfl rfl, hword "true" 't' _ rfl rfl,
      hword "false" 'f' _ rfl rfl, hword "NaN" 'N' _ rfl rfl, hword "Infinity" 'I' _ rfl rfl,
      hword "-Infinity" '-' _ rfl rfl]
  unfold simple
  rw [List.findSome?_eq_none_iff.2 fun p hp => by simp only [hwords p hp, Option.map_none]]
  simp only
  split
  · rename_i heq
    exact absurd (List.cons.inj heq).1.symm (hne '-' rfl)
  · rfl

theorem simple_minus {c : Char} (hc : c.isDigit) (cs : List Char) :
    simple ('-' :: c :: cs) = number true (c :: cs) := by
  have hne : 'I' ≠ c := by
    rintro rfl
    exact absurd hc (by decide)
  have hwords : ∀ p ∈ Reader.words, after? p.1 ('-' :: c :: cs) = none := by
    simp [Reader.words, after?, hne]
  unfold simple
  rw [List.findSome?_eq_none_iff.2 fun p hp => by simp only [hwords p hp, Option.map_none]]
  rfl

theorem value_simple (n : Nat) {c : Char} {cs : List Char} (hstring : c ≠ '\x22')
    (hlist : c ≠ '[') (hobject : c ≠ '\x7b') : value (n + 1) (c :: cs) = simple (c :: cs) := by
  rw [value.eq_def]
  simp only
  split
  · rename_i heq
    exact absurd (List.cons.inj heq).1 hstring
  · rename_i heq
    exact absurd (List.cons.inj heq).1 hlist
  · rename_i heq
    exact absurd (List.cons.inj heq).1 hobject
  · rfl

theorem exists_digit_of_number {negative : Bool} {cs : List Char} {found : Json × List Char}
    (h : number negative cs = .ok found) : ∃ c ds, cs = c :: ds ∧ c.isDigit := by
  have hwhole : (leading cs).1 ≠ [] := by
    intro hnil
    simp [number, hnil] at h
  cases cs with
  | nil => exact absurd rfl hwhole
  | cons c ds =>
    refine ⟨c, ds, rfl, ?_⟩
    unfold leading at hwhole
    split at hwhole
    · rename_i heq
      rw [(List.cons.inj heq).1]
      rfl
    · by_contra hc
      simp [List.span_eq_takeWhile_dropWhile, hc] at hwhole

-- A number in front is the value there.
theorem value_of_number (n : Nat) {cs : List Char} {found : Json × List Char}
    (h : number false cs = .ok found) : value (n + 1) cs = .ok found := by
  obtain ⟨c, ds, rfl, hc⟩ := exists_digit_of_number h
  have hne (d : Char) (hd : d.isDigit = false) : c ≠ d := by
    rintro rfl
    rw [hc] at hd
    exact absurd hd (by simp)
  rw [value_simple n (hne _ rfl) (hne _ rfl) (hne _ rfl), simple_digit hc, h]

-- The same after a minus sign.
theorem value_of_number_minus (n : Nat) {cs : List Char} {found : Json × List Char}
    (h : number true cs = .ok found) : value (n + 1) ('-' :: cs) = .ok found := by
  obtain ⟨c, ds, rfl, hc⟩ := exists_digit_of_number h
  rw [value_simple n (by decide) (by decide) (by decide), simple_minus hc, h]

theorem number_zero {rest : List Char} (hends : Ends rest) :
    number false (['0', '.', '0'] ++ rest) = .ok (.real (Float.ofBits 0), rest) := by
  have htext : ['0', '.', '0'] ++ rest = ['0'] ++ ('.' :: ['0'] ++ rest) := rfl
  rw [htext, number_pointed isWhole_zero (by decide) hends]
  rfl

-- The text of a finite number.
theorem number_finite {x : Float} (hx : bits x < infiniteBits) {rest : List Char}
    (hends : Ends rest) :
    number false ((Spelling.real words x).toList ++ rest) = .ok (.real x, rest) := by
  obtain ⟨f, hf, hnegative, hzero⟩ : ∃ f, shape x = .finite f ∧ f.negative = false ∧
      (f.significand = 0 → bits x = 0) := by
    refine ⟨_, shape_of_lt hx, ?_, ?_⟩
    · split <;> rfl
    · split
      · exact id
      · unfold leadingBit
        intro h
        simp only at h
        omega
  have hread := Shortest.toFloat_decimal hx hf
  simp only [Spelling.real, hf, hnegative, Spelling.sign, if_false, Bool.false_eq_true,
    List.nil_append, String.toList_ofList]
  by_cases hsignificand : f.significand = 0
  · have hx : x = Float.ofBits 0 := by
      apply eq_of_bits
      rw [hzero hsignificand]
      exact (bits_ofBits_of_le (Nat.zero_le _)).symm
    rw [if_pos hsignificand, number_zero hends, hx]
  · have hdigits : 0 < (Shortest.decimal f x).digits := by
      by_contra hnone
      have hfloat : x = Float.ofBits 0 := by
        rw [← hread, Decimal.toFloat, if_pos (.inl (by omega))]
      have hbits : bits x = 0 := by
        rw [hfloat]
        exact bits_ofBits_of_le (Nat.zero_le _)
      have hlt : bits x < leadingBit := by
        rw [hbits]
        decide
      rw [shape_of_lt hx, if_pos hlt, hbits] at hf
      cases hf
      exact hsignificand rfl
    rw [if_neg hsignificand, abs_of_isNonnegative (Nat.le_of_lt hx), number_decimal hdigits hends,
      hread]

-- The values that have a text of their own: integers are not too long, and numbers with a point are
-- not negative.
inductive IsWritable : Json → Prop where
  | null : IsWritable .null
  | bool (b : Bool) : IsWritable (.bool b)
  | int {n : Int} (short : n.natAbs < 10 ^ Reading.digitLimit) : IsWritable (.int n)
  | real {x : Float} (nonnegative : IsNonnegative x) : IsWritable (.real x)
  | str (s : String) : IsWritable (.str s)
  | list {js : List Json} (items : ∀ j ∈ js, IsWritable j) : IsWritable (.list js)
  | object {ms : List (String × Json)} (members : ∀ m ∈ ms, IsWritable m.2) :
    IsWritable (.object ms)

-- The text of a value does not start with a blank or a closing bracket, and is read as the value.
-- Two steps a character are enough.
structure ReadsBack (j : Json) : Prop where
  head : ∀ depth, ∃ c cs, j.write depth = c :: cs ∧ isSpace c = false ∧ c ≠ ']'
  value : ∀ depth n rest, 2 * (j.write depth).length ≤ n → Ends rest →
    value n (j.write depth ++ rest) = .ok (j, rest)

-- What is written the same way at all depths, and takes one step.
theorem ReadsBack.ofText {j : Json} {text : List Char} (hwrite : ∀ depth, j.write depth = text)
    (hhead : ∃ c cs, text = c :: cs ∧ isSpace c = false ∧ c ≠ ']')
    (hvalue : ∀ n rest, Ends rest → Reader.value (n + 1) (text ++ rest) = .ok (j, rest)) :
    j.ReadsBack := by
  refine ⟨fun depth => hwrite depth ▸ hhead, fun depth n rest hn hends => ?_⟩
  obtain ⟨c, cs, htext, -⟩ := hhead
  rw [hwrite depth] at hn ⊢
  obtain ⟨k, rfl⟩ : ∃ k, n = k + 1 := by
    refine ⟨n - 1, ?_⟩
    rw [htext, List.length_cons] at hn
    omega
  exact hvalue k rest hends

theorem isSpace_of_isDigit {c : Char} (h : c.isDigit) : isSpace c = false ∧ c ≠ ']' := by
  have hne (d : Char) (hd : d.isDigit = false) : c ≠ d := by
    rintro rfl
    rw [h] at hd
    exact absurd hd (by simp)
  refine ⟨?_, hne _ rfl⟩
  simp [isSpace, hne ' ' rfl, hne '\t' rfl, hne '\n' rfl, hne '\r' rfl]

theorem ReadsBack.ofNumber {j : Json} {text : List Char} (hwrite : ∀ depth, j.write depth = text)
    (hnumber : ∀ rest, Ends rest → number false (text ++ rest) = .ok (j, rest)) : j.ReadsBack := by
  refine .ofText hwrite ?_ fun n rest hends => value_of_number n (hnumber rest hends)
  obtain ⟨c, ds, htext, hc⟩ := exists_digit_of_number (hnumber [] (by simp [Ends]))
  rw [List.append_nil] at htext
  exact ⟨c, ds, htext, isSpace_of_isDigit hc⟩

theorem number_toDigits (negative : Bool) {n : Nat} (h : n < 10 ^ Reading.digitLimit)
    {rest : List Char} (hends : Ends rest) :
    number negative (Nat.toDigits 10 n ++ rest) =
      .ok (.int (Reading.negateIf negative n), rest) := by
  have hlen : (Nat.toDigits 10 n).length ≤ Reading.digitLimit :=
    (Nat.length_toDigits_le_iff (by decide) (by decide)).2 h
  rw [number_integer (isWhole_toDigits n) hlen hends negative, Reading.natural_toDigits]

theorem readsBack_int {n : Int} (h : n.natAbs < 10 ^ Reading.digitLimit) : (int n).ReadsBack := by
  cases n with
  | ofNat n =>
    have hwrite (depth : Nat) : (int (Int.ofNat n)).write depth = Nat.toDigits 10 n := by
      simp [write, Int.toString_eq_repr, Int.repr_eq_if, Nat.repr_eq_ofList_toDigits]
    exact .ofNumber hwrite fun rest hends => number_toDigits false h hends
  | negSucc n =>
    have hwrite (depth : Nat) :
        (int (Int.negSucc n)).write depth = '-' :: Nat.toDigits 10 (n + 1) := by
      simp [write, Int.toString_eq_repr, Int.repr_eq_if, Nat.repr_eq_ofList_toDigits]
    refine .ofText hwrite ⟨'-', _, rfl, rfl, by decide⟩ fun k rest hends => ?_
    exact value_of_number_minus k (number_toDigits true h hends)

theorem readsBack_real {x : Float} (hx : IsNonnegative x) : (real x).ReadsBack := by
  rcases Nat.lt_or_eq_of_le hx with hlt | heq
  · exact .ofNumber (fun _ => rfl) fun rest hends => number_finite hlt hends
  · have hwrite (depth : Nat) : (real x).write depth = "Infinity".toList := by
      simp only [write, Spelling.real, shape_of_eq heq]
      rfl
    have hinfinite : x = Reading.infinity := by
      rw [infinity_eq]
      exact eq_of_bits (heq.trans (bits_ofBits_of_le (Nat.le_refl _)).symm)
    refine .ofText hwrite ⟨'I', _, rfl, rfl, by decide⟩ fun n rest _ => ?_
    rw [hinfinite]
    exact value_infinity n rest

theorem skipSpace_eq_self {c : Char} (h : isSpace c = false) (cs : List Char) :
    skipSpace (c :: cs) = c :: cs := by
  rw [skipSpace, List.dropWhile_cons, h]
  rfl

theorem skipSpace_newline (depth : Nat) (cs : List Char) :
    skipSpace (newline depth ++ cs) = skipSpace cs := by
  have hall : ∀ c ∈ newline depth, isSpace c := by
    intro c hc
    rcases List.mem_cons.1 hc with rfl | hc
    · rfl
    · rw [List.eq_of_mem_replicate hc]
      rfl
  exact List.dropWhile_append_of_pos hall

theorem ReadsBack.skipSpace {j : Json} (h : j.ReadsBack) (depth : Nat) (rest : List Char) :
    skipSpace (j.write depth ++ rest) = j.write depth ++ rest := by
  obtain ⟨c, cs, htext, hspace, -⟩ := h.head depth
  rw [htext]
  exact skipSpace_eq_self hspace _

theorem ends_comma (cs : List Char) : Ends (',' :: cs) := by simp [Ends]

theorem ends_newline (depth : Nat) (cs : List Char) : Ends (newline depth ++ cs) := by
  simp [Ends, newline]

-- The elements of a list with its closing bracket; the induction takes them one by one, as the
-- reader does.
theorem items_write {j : Json} {js : List Json} (hfirst : j.ReadsBack)
    (hlater : ∀ k ∈ js, ReadsBack k) (depth outer : Nat) (rest : List Char) :
    ∀ n, 2 * (j.write depth ++ writeItems depth js).length < n →
      items n (j.write depth ++ (writeItems depth js ++ (newline outer ++ ']' :: rest))) =
        .ok (j :: js, rest) := by
  induction js generalizing j with
  | nil =>
    intro n hn
    obtain ⟨n, rfl⟩ : ∃ k, n = k + 1 := ⟨n - 1, by omega⟩
    simp only [writeItems, List.append_nil, List.nil_append] at hn ⊢
    rw [items, hfirst.value depth n _ (by omega) (ends_newline _ _)]
    simp only [bind, Except.bind, skipSpace_newline, skipSpace_eq_self (c := ']') rfl]
    rfl
  | cons k js ih =>
    intro n hn
    obtain ⟨n, rfl⟩ : ∃ k, n = k + 1 := ⟨n - 1, by omega⟩
    obtain ⟨hsecond, hlater⟩ := List.forall_mem_cons.1 hlater
    simp only [writeItems, List.length_append, List.length_cons] at hn
    have hrest := ih hsecond hlater n (by rw [List.length_append]; omega)
    have htext : writeItems depth (k :: js) ++ (newline outer ++ ']' :: rest) =
        ',' :: (newline depth ++ (k.write depth ++ (writeItems depth js ++
          (newline outer ++ ']' :: rest)))) := by
      simp [writeItems]
    rw [items, htext, hfirst.value depth n _ (by omega) (ends_comma _)]
    simp only [bind, Except.bind, skipSpace_eq_self (c := ',') rfl, skipSpace_newline,
      hsecond.skipSpace, hrest]
    rfl

theorem readsBack_list {js : List Json} (h : ∀ j ∈ js, ReadsBack j) : (list js).ReadsBack := by
  cases js with
  | nil => exact .ofText (fun _ => rfl) ⟨'[', _, rfl, rfl, by decide⟩ fun _ _ _ => rfl
  | cons j js =>
    obtain ⟨hfirst, hlater⟩ := List.forall_mem_cons.1 h
    refine ⟨fun depth => ⟨'[', _, rfl, rfl, by decide⟩, fun depth n rest hn _ => ?_⟩
    have htext : (list (j :: js)).write depth ++ rest =
        '[' :: (newline (depth + 1) ++ (j.write (depth + 1) ++ (writeItems (depth + 1) js ++
          (newline depth ++ ']' :: rest)))) := by
      simp [write]
    simp only [write, List.length_append, List.length_cons] at hn
    obtain ⟨n, rfl⟩ : ∃ k, n = k + 1 := ⟨n - 1, by omega⟩
    have hitems := items_write hfirst hlater (depth + 1) depth rest n
      (by rw [List.length_append]; omega)
    obtain ⟨c, cs, hwritten, -, hclosing⟩ := hfirst.head (depth + 1)
    rw [htext, value]
    simp only [skipSpace_newline, hfirst.skipSpace]
    split
    · rename_i heq
      rw [hwritten] at heq
      exact absurd (List.cons.inj heq).1 hclosing
    · rw [hitems]
      rfl

theorem quoted_append (s : String) (rest : List Char) :
    quoted s ++ rest = '\x22' :: (s.toList.flatMap escape ++ '\x22' :: rest) := by
  simp [quoted]

theorem readsBack_str (s : String) : (str s).ReadsBack := by
  have hwrite (depth : Nat) : (str s).write depth = quoted s := rfl
  refine .ofText hwrite ⟨'\x22', _, rfl, rfl, by decide⟩ fun n rest _ => ?_
  rw [quoted_append, value, string_quoted]
  simp [bind, Except.bind, pure, Except.pure]

-- A name, a colon and a value, up to where the next member or the end of the object follows.
theorem members_first {j : Json} (h : j.ReadsBack) (name : String) (depth n : Nat)
    {rest : List Char} (hn : 2 * (j.write depth).length ≤ n) (hends : Ends rest) :
    members (n + 1) (quoted name ++ ':' :: ' ' :: (j.write depth ++ rest)) =
      match skipSpace rest with
      | '\x7d' :: cs => .ok ([(name, j)], cs)
      | ',' :: cs => do
        let (later, cs) ← members n (skipSpace cs)
        return ((name, j) :: later, cs)
      | _ => .error .malformed := by
  have hblank : skipSpace (' ' :: (j.write depth ++ rest)) = j.write depth ++ rest :=
    h.skipSpace depth rest
  rw [quoted_append, members, string_quoted]
  simp only [bind, Except.bind, skipSpace_eq_self (c := ':') rfl, hblank,
    h.value depth n rest hn hends, String.ofList_toList]
  rfl

theorem members_write (name : String) {j : Json} {ms : List (String × Json)} (hfirst : j.ReadsBack)
    (hlater : ∀ m ∈ ms, m.2.ReadsBack) (depth outer : Nat) (rest : List Char) :
    ∀ n, 2 * (j.write depth ++ writeMembers depth ms).length < n →
      members n (quoted name ++ ':' :: ' ' :: (j.write depth ++ (writeMembers depth ms ++
        (newline outer ++ '\x7d' :: rest)))) = .ok ((name, j) :: ms, rest) := by
  induction ms generalizing name j with
  | nil =>
    intro n hn
    obtain ⟨n, rfl⟩ : ∃ k, n = k + 1 := ⟨n - 1, by omega⟩
    simp only [writeMembers, List.append_nil, List.nil_append] at hn ⊢
    rw [members_first hfirst name depth n (by omega) (ends_newline _ _), skipSpace_newline,
      skipSpace_eq_self rfl]
    rfl
  | cons m ms ih =>
    intro n hn
    obtain ⟨n, rfl⟩ : ∃ k, n = k + 1 := ⟨n - 1, by omega⟩
    obtain ⟨next, k⟩ := m
    obtain ⟨hsecond, hlater⟩ : k.ReadsBack ∧ ∀ m ∈ ms, m.2.ReadsBack :=
      List.forall_mem_cons.1 hlater
    simp only [writeMembers, List.length_append, List.length_cons] at hn
    have hrest := ih next hsecond hlater n (by rw [List.length_append]; omega)
    have htext : writeMembers depth ((next, k) :: ms) ++ (newline outer ++ '\x7d' :: rest) =
        ',' :: (newline depth ++ (quoted next ++ ':' :: ' ' :: (k.write depth ++
          (writeMembers depth ms ++ (newline outer ++ '\x7d' :: rest))))) := by
      simp [writeMembers]
    have hquoted (cs : List Char) : skipSpace (quoted next ++ cs) = quoted next ++ cs := by
      rw [quoted_append]
      exact skipSpace_eq_self rfl _
    rw [htext, members_first hfirst name depth n (by omega) (ends_comma _), skipSpace_eq_self rfl]
    simp only [skipSpace_newline, hquoted, hrest]
    rfl

theorem readsBack_object {ms : List (String × Json)} (h : ∀ m ∈ ms, m.2.ReadsBack) :
    (object ms).ReadsBack := by
  cases ms with
  | nil => exact .ofText (fun _ => rfl) ⟨'\x7b', _, rfl, rfl, by decide⟩ fun _ _ _ => rfl
  | cons m ms =>
    obtain ⟨name, j⟩ := m
    obtain ⟨hfirst, hlater⟩ : j.ReadsBack ∧ ∀ m ∈ ms, m.2.ReadsBack := List.forall_mem_cons.1 h
    refine ⟨fun depth => ⟨'\x7b', _, rfl, rfl, by decide⟩, fun depth n rest hn _ => ?_⟩
    have htext : (object ((name, j) :: ms)).write depth ++ rest =
        '\x7b' :: (newline (depth + 1) ++ (quoted name ++ ':' :: ' ' :: (j.write (depth + 1) ++
          (writeMembers (depth + 1) ms ++ (newline depth ++ '\x7d' :: rest))))) := by
      simp [write]
    simp only [write, List.length_append, List.length_cons] at hn
    obtain ⟨n, rfl⟩ : ∃ k, n = k + 1 := ⟨n - 1, by omega⟩
    have hmembers := members_write name hfirst hlater (depth + 1) depth rest n
      (by rw [List.length_append]; omega)
    rw [htext, value]
    rw [quoted_append] at hmembers ⊢
    simp only [skipSpace_newline, skipSpace_eq_self (c := '\x22') rfl]
    split
    · rename_i heq
      exact absurd (List.cons.inj heq).1 (by decide)
    · rw [hmembers]
      rfl

theorem readsBack_of_isWritable {j : Json} (h : j.IsWritable) : j.ReadsBack := by
  induction h with
  | null =>
    exact .ofText (fun _ => rfl) ⟨'n', _, rfl, rfl, by decide⟩ fun n rest _ => value_null n rest
  | bool b =>
    refine .ofText (fun _ => rfl) ?_ fun n rest _ => value_bool n b rest
    cases b <;> exact ⟨_, _, rfl, rfl, by decide⟩
  | int short => exact readsBack_int short
  | real nonnegative => exact readsBack_real nonnegative
  | str s => exact readsBack_str s
  | list _ ih => exact readsBack_list ih
  | object _ ih => exact readsBack_object ih

-- A text that is written is read as the value it was written for.
theorem parse_render {j : Json} (h : j.IsWritable) : parse j.render = .ok j := by
  have hback := readsBack_of_isWritable h
  have hskip := hback.skipSpace 0 []
  have hvalue := hback.value 0 (2 * (j.write 0).length + 2) [] (by omega) (by simp [Ends])
  rw [List.append_nil] at hskip hvalue
  unfold parse render
  simp only [String.toList_ofList, hskip, hvalue]
  rfl

end Json

end TernLang
