import Mathlib.Data.List.TakeWhile
import Mathlib.Tactic.FinCases
import TernLang.Proofs.Syntax.Seam

-- The texts that have tokens are those that gaps and lexemes make up, and where a text is none of
-- these the scan stops at the first place where neither a gap nor a lexeme begins.

namespace TernLang.Token

-- How a kind and a text that goes with it are written in front of `rest`.
structure IsWritten (kind : Kind) (text lexeme rest : List Char) : Prop where
  valid : IsValid kind text
  lexeme : IsLexeme ⟨kind, .str (String.ofList text), .unknown⟩ lexeme rest

-- The text in front of `rest` is made up of gaps and the lexemes of these kinds and texts.
inductive Reads : List (Kind × List Char) → List Char → List Char → Prop where
  | nil (rest : List Char) : Reads [] [] rest
  | gap {pairs : List (Kind × List Char)} {gap text rest : List Char}
    (hgap : IsGap gap (text ++ rest)) (later : Reads pairs text rest) :
    Reads pairs (gap ++ text) rest
  | token {pairs : List (Kind × List Char)} {kind : Kind} {value lexeme text rest : List Char}
    (written : IsWritten kind value lexeme (text ++ rest)) (later : Reads pairs text rest) :
    Reads ((kind, value) :: pairs) (lexeme ++ text) rest

theorem Reads.append {front back : List (Kind × List Char)} {text more rest : List Char}
    (h : Reads front text (more ++ rest)) (hmore : Reads back more rest) :
    Reads (front ++ back) (text ++ more) rest := by
  generalize hall : more ++ rest = all at h
  induction h with
  | nil => exact hmore
  | gap hgap _ ih =>
    subst hall
    rw [List.append_assoc]
    exact .gap (by rwa [List.append_assoc]) (ih rfl)
  | token written _ ih =>
    subst hall
    rw [List.append_assoc]
    exact .token (by rwa [List.append_assoc]) (ih rfl)

-- Why no piece of a text begins with a character: there is no gap and no lexeme that does, or it
-- begins a number with two points or more.
inductive IsOffence (c : Char) (rest : List Char) : Error.Cause → Prop where
  | character (blank : ¬Scan.isGap c)
    (start : ∀ kind value lexeme after, ¬IsWritten kind value (c :: lexeme) after) :
    IsOffence c rest (.unexpectedCharacter c)
  | number {digits after : List Char} (split : c :: rest = digits ++ after) (digit : c.isDigit)
    (inside : ∀ d ∈ digits, d.isDigit ∨ d = '.') (points : 2 ≤ digits.count '.')
    (stop : ∀ d ∈ after.head?, ¬d.isDigit ∧ d ≠ '.') :
    IsOffence c rest (.malformedNumber (String.ofList digits))

theorem IsOffence.cls {c : Char} {rest : List Char} {cause : Error.Cause}
    (h : IsOffence c rest cause) : cause.cls = .lexical := by
  cases h with
  | character => rfl
  | number => rfl

namespace Scan

-- A letter or a digit begins neither a gap nor a sign.
theorem front_of_isAlphanum {c : Char} (h : c.isAlphanum) (cs : List Char) :
    front c cs = if c.isAlpha then .ok (word (c :: cs)) else number (c :: cs) := by
  have hne (d : Char) (hd : ¬d.isAlphanum) : c ≠ d := fun heq => hd (heq ▸ h)
  have hpunctuation : punctuation? c = none := by
    unfold punctuation?
    split <;> simp_all
  have hcomparison : comparison? c = none := by
    unfold comparison?
    split <;> simp_all
  have hdigit (halpha : ¬c.isAlpha) : c.isDigit := by
    simpa [Char.isAlphanum, halpha] using h
  by_cases halpha : c.isAlpha
  · simp [front, isGap, isOperator, hpunctuation, hcomparison, hne, halpha]
  · simp [front, isGap, isOperator, hpunctuation, hcomparison, hne, halpha, hdigit halpha]

theorem le_toNat_of_isAlpha {c : Char} (h : c.isAlpha) : 65 ≤ c.toNat := by
  have hcase : c.isUpper ∨ c.isLower := Bool.or_eq_true_iff.1 h
  rcases hcase with hupper | hlower
  · exact UInt32.le_iff_toNat_le.1 (of_decide_eq_true hupper).1
  · have hle : 97 ≤ c.toNat :=
      UInt32.le_iff_toNat_le.1 (of_decide_eq_true (Bool.and_eq_true_iff.1 hlower).1)
    omega

theorem isDigit_isNumberChar {cs : List Char} (h : cs.all Char.isDigit) :
    ∀ d ∈ cs, isNumberChar d := by
  intro d hd
  simp [isNumberChar, List.all_eq_true.1 h d hd]

-- A span that stands in front of something else.
theorem span_front {p : Char → Bool} {cs rest : List Char} (hcs : ∀ d ∈ cs, p d)
    (hrest : ∀ d ∈ rest.head?, p d = false) :
    (cs ++ rest).takeWhile p = cs ∧ (cs ++ rest).dropWhile p = rest := by
  obtain ⟨htake, hdrop⟩ := @span_append p cs rest (.inr hrest)
  rw [htake, hdrop, List.takeWhile_eq_self_iff.2 hcs, List.dropWhile_eq_nil_iff.2 hcs]
  exact ⟨rfl, rfl⟩

-- The piece at the front of a text is this lexeme, if it begins with one.
def Fronts (kind : Kind) (value lexeme rest : List Char) : Prop :=
  ∃ c more, lexeme = c :: more ∧ front c (more ++ rest) = .ok ⟨lexeme, some (kind, value), rest⟩

section Fronts

variable {kind : Kind} {cs rest : List Char}

theorem fronts_word (hword : IsWord cs) (hstop : ∀ d ∈ rest.head?, ¬isWordChar d)
    (hkind : kind = if keywords.contains (String.ofList cs) then .keyword else .ident) :
    Fronts kind cs cs rest := by
  obtain ⟨hfirst, hall⟩ := hword
  cases cs with
  | nil => simp at hfirst
  | cons c more =>
    have hc : c.isAlpha := by simpa using hfirst
    obtain ⟨htake, hdrop⟩ := span_front (List.all_eq_true.1 hall)
      (fun d hd => Bool.eq_false_iff.2 (hstop d hd))
    refine ⟨c, more, rfl, ?_⟩
    rw [front_of_isAlphanum (by simp [Char.isAlphanum, hc]), if_pos hc, ← List.cons_append, word,
      htake, hdrop, hkind]
    rfl

theorem fronts_number (hfirst : cs.head?.any Char.isDigit) (hall : ∀ d ∈ cs, isNumberChar d)
    (hstop : ∀ d ∈ rest.head?, ¬d.isDigit ∧ d ≠ '.')
    (hkind : cs.count '.' = 0 ∧ kind = .integer ∨ cs.count '.' = 1 ∧ kind = .real) :
    Fronts kind cs cs rest := by
  cases cs with
  | nil => simp at hfirst
  | cons c more =>
    have hc : c.isDigit := by simpa using hfirst
    have halpha : ¬c.isAlpha := by
      intro halpha
      have hletter := le_toNat_of_isAlpha halpha
      have hdigit := Reading.toNat_isDigit hc
      omega
    obtain ⟨htake, hdrop⟩ := span_front hall (fun d hd => by simpa [isNumberChar] using hstop d hd)
    refine ⟨c, more, rfl, ?_⟩
    rw [front_of_isAlphanum (by simp [Char.isAlphanum, hc]), if_neg halpha, ← List.cons_append,
      number]
    simp only [htake, hdrop]
    rcases hkind with ⟨hcount, rfl⟩ | ⟨hcount, rfl⟩
    · rw [hcount]
      rfl
    · rw [hcount]
      rfl

theorem head?_of_isDigits {digits : List Char} (h : Reading.IsDigits digits) (more : List Char) :
    (digits ++ more).head?.any Char.isDigit := by
  obtain ⟨hne, hall⟩ := h
  cases digits with
  | nil => exact absurd rfl hne
  | cons c digits => simpa using List.all_eq_true.1 hall c List.mem_cons_self

theorem count_of_isDigit {digits : List Char} (h : digits.all Char.isDigit) :
    digits.count '.' = 0 :=
  List.count_eq_zero.2 fun hmem => absurd (List.all_eq_true.1 h _ hmem) (by decide)

theorem fronts_integer (hdigits : Reading.IsDigits cs)
    (hstop : ∀ d ∈ rest.head?, ¬d.isDigit ∧ d ≠ '.') : Fronts .integer cs cs rest := by
  have hfirst := head?_of_isDigits hdigits []
  rw [List.append_nil] at hfirst
  exact fronts_number hfirst (isDigit_isNumberChar hdigits.2) hstop
    (.inl ⟨count_of_isDigit hdigits.2, rfl⟩)

theorem fronts_real (htext : Reading.IsRealText cs)
    (hstop : ∀ d ∈ rest.head?, ¬d.isDigit ∧ d ≠ '.') : Fronts .real cs cs rest := by
  obtain ⟨whole, places, hwhole, hplaces, rfl⟩ := htext
  refine fronts_number (head?_of_isDigits hwhole _) ?_ hstop (.inr ⟨?_, rfl⟩)
  · intro d hd
    rcases List.mem_append.1 hd with hd | hd
    · exact isDigit_isNumberChar hwhole.2 d hd
    rcases List.mem_cons.1 hd with rfl | hd
    · rfl
    · exact isDigit_isNumberChar hplaces d hd
  · simp [count_of_isDigit hwhole.2, count_of_isDigit hplaces]

-- A slash is no operator if another one follows.
theorem fronts_arithmetic {p : Kind × String} (hp : p ∈ arithmeticTexts)
    (hmaximal : IsMaximal p.1 p.2.toList rest) : Fronts p.1 p.2.toList p.2.toList rest := by
  have hslash (h : rest.head? ≠ some '/') :
      front '/' rest = .ok ⟨['/'], some (.operator, ['/']), rest⟩ := by
    simp [front, isGap, isOperator, plain, h]
  fin_cases hp
  · exact ⟨_, _, rfl, rfl⟩
  · exact ⟨_, _, rfl, rfl⟩
  · exact ⟨_, _, rfl, rfl⟩
  · exact ⟨_, _, rfl, hslash (hmaximal.slash rfl)⟩
  · exact ⟨_, _, rfl, rfl⟩

theorem fronts_punctuation {p : Kind × String} (hp : p ∈ punctuationTexts) (rest : List Char) :
    Fronts p.1 p.2.toList p.2.toList rest := by
  fin_cases hp <;> exact ⟨_, _, rfl, rfl⟩

-- Without an equals sign if none follows.
theorem fronts_comparison {p : Kind × String} (hp : p ∈ comparisonTexts)
    (hmaximal : IsMaximal p.1 p.2.toList rest) : Fronts p.1 p.2.toList p.2.toList rest := by
  have hsingle {c : Char} {single double : Kind} (hc : comparison? c = some (single, double))
      (h : rest.head? ≠ some '=') : front c rest = .ok ⟨[c], some (single, [c]), rest⟩ := by
    rw [front_of_comparison? hc]
    unfold comparison
    split
    · simp at h
    · rfl
  have hnext := hmaximal.comparison
  fin_cases hp
  · exact ⟨_, _, rfl, hsingle rfl (hnext (by decide))⟩
  · exact ⟨_, _, rfl, rfl⟩
  · exact ⟨_, _, rfl, hsingle rfl (hnext (by decide))⟩
  · exact ⟨_, _, rfl, rfl⟩
  · exact ⟨_, _, rfl, hsingle rfl (hnext (by decide))⟩
  · exact ⟨_, _, rfl, rfl⟩
  · exact ⟨_, _, rfl, hsingle rfl (hnext (by decide))⟩
  · exact ⟨_, _, rfl, rfl⟩

theorem fronts_sign (hlisted : (kind, String.ofList cs) ∈ signTexts)
    (hmaximal : IsMaximal kind cs rest) : Fronts kind cs cs rest := by
  have htext : cs = ((kind, String.ofList cs) : Kind × String).2.toList :=
    String.toList_ofList.symm
  rw [htext] at hmaximal ⊢
  simp only [signTexts, List.mem_append] at hlisted
  rcases hlisted with (hp | hp) | hp
  · exact fronts_arithmetic hp hmaximal
  · exact fronts_punctuation hp rest
  · exact fronts_comparison hp hmaximal

theorem front_of_mark {mark : Char} (hmark : mark = '\x27' ∨ mark = '\x22') (cs : List Char) :
    front mark cs = .ok (quoted mark cs) := by
  rcases hmark with rfl | rfl
  · rfl
  · rfl

theorem fronts_closed {mark : Char} (hmark : mark = '\x27' ∨ mark = '\x22') (inside : mark ∉ cs)
    (rest : List Char) : Fronts .string cs (mark :: cs ++ [mark]) rest := by
  have hinside : ∀ d ∈ cs, decide (d ≠ mark) := fun d hd => by
    simpa using fun heq : d = mark => inside (heq ▸ hd)
  obtain ⟨htake, hdrop⟩ := @span_front (· ≠ mark) cs (mark :: rest) hinside (by simp)
  refine ⟨mark, cs ++ [mark], rfl, ?_⟩
  rw [front_of_mark hmark, List.append_assoc, List.singleton_append, quoted, htake, hdrop]
  rfl

-- A string that is not closed takes all that is left.
theorem fronts_unclosed {mark : Char} (hmark : mark = '\x27' ∨ mark = '\x22')
    (inside : mark ∉ cs) : Fronts .string cs (mark :: cs) [] := by
  have hinside : ∀ d ∈ cs, decide (d ≠ mark) := fun d hd => by
    simpa using fun heq : d = mark => inside (heq ▸ hd)
  obtain ⟨htake, hdrop⟩ := @span_front (· ≠ mark) cs [] hinside (by simp)
  refine ⟨mark, cs, rfl, ?_⟩
  rw [front_of_mark hmark, quoted, htake, hdrop, List.take_nil, List.drop_nil, List.append_nil]

-- Whatever is written in front of a text is taken from it as it is written.
theorem fronts_of_isWritten {lexeme : List Char} (h : IsWritten kind cs lexeme rest) :
    Fronts kind cs lexeme rest := by
  obtain ⟨hvalid, hlexeme⟩ := h
  cases hlexeme with
  | closed hmark inside hkind htext =>
    obtain rfl : kind = .string := hkind
    obtain rfl := String.ofList_injective (Tree.str.inj htext)
    exact fronts_closed hmark inside rest
  | unclosed hmark inside hkind htext =>
    obtain rfl : kind = .string := hkind
    obtain rfl := String.ofList_injective (Tree.str.inj htext)
    exact fronts_unclosed hmark inside
  | plain hkind htext hmaximal =>
    obtain rfl := String.ofList_injective (Tree.str.inj htext)
    cases hvalid with
    | ident word free =>
      exact fronts_word word (hmaximal.word (.inl rfl)) (if_neg (by simpa using free)).symm
    | keyword listed =>
      have hword : ∀ s ∈ keywords, IsWord s.toList := by decide
      have hcs := hword _ listed
      rw [String.toList_ofList] at hcs
      exact fronts_word hcs (hmaximal.word (.inr rfl)) (if_pos (by simpa using listed)).symm
    | integer digits => exact fronts_integer digits (hmaximal.number (.inl rfl))
    | real text => exact fronts_real text (hmaximal.number (.inr rfl))
    | string hmark inside => exact absurd rfl hkind.1
    | sign listed => exact fronts_sign listed hmaximal

end Fronts

section Gaps

variable {gap rest : List Char}

theorem front_of_blank {c : Char} (hc : c = ' ' ∨ c = '\t' ∨ c = '\n' ∨ c = '\r') (cs : List Char) :
    front c cs = .ok (Scan.gap [c] cs) := by
  rcases hc with rfl | rfl | rfl | rfl <;> rfl

-- A comment ends at the newline, or with the text.
theorem front_of_comment {text : List Char} (inside : '\n' ∉ text)
    (hstop : ∀ c ∈ rest.head?, c = '\n') :
    front '/' ('/' :: text ++ rest) = .ok (Scan.gap ('/' :: '/' :: text) rest) := by
  have hinside : ∀ d ∈ '/' :: '/' :: text, decide (d ≠ '\n') := by
    intro d hd
    simp only [List.mem_cons] at hd
    rcases hd with rfl | rfl | hd
    · rfl
    · rfl
    · simpa using fun heq : d = '\n' => inside (heq ▸ hd)
  obtain ⟨htake, hdrop⟩ := @span_front (· ≠ '\n') ('/' :: '/' :: text) rest hinside
    (fun d hd => by simp [hstop d hd])
  have hcomment : front '/' ('/' :: text ++ rest) =
      .ok (comment ('/' :: '/' :: text ++ rest)) := rfl
  rw [hcomment, comment, htake, hdrop]

-- A gap is passed over.
theorem tokensFrom_gap (h : IsGap gap rest) (pos : Position) :
    tokensFrom pos (gap ++ rest) = tokensFrom (pos.after gap) rest := by
  induction h generalizing pos with
  | nil => rfl
  | @blank c gap rest hc _ ih =>
    rw [List.cons_append, tokensFrom_cons (front_of_blank hc _), Position.after_cons, ← ih]
    exact id_map _
  | @comment text gap rest inside hstop _ ih =>
    rw [List.append_assoc, List.cons_append, tokensFrom_cons (front_of_comment inside hstop),
      Position.after_append, ← ih]
    exact id_map _

end Gaps

-- The kinds and texts of tokens.
def pairsOf (tokens : List Token) : List (Kind × Tree) := tokens.map fun t => (t.kind, t.text)

def written (pairs : List (Kind × List Char)) : List (Kind × Tree) :=
  pairs.map fun p => (p.1, .str (String.ofList p.2))

-- The tokens of a text that is made up of gaps and lexemes, in front of any other.
theorem tokensFrom_of_reads {pairs : List (Kind × List Char)} {text rest : List Char}
    (h : Reads pairs text rest) (pos : Position) :
    ∃ ts, pairsOf ts = written pairs ∧
      tokensFrom pos (text ++ rest) = (ts ++ ·) <$> tokensFrom (pos.after text) rest := by
  induction h generalizing pos with
  | nil rest => exact ⟨[], rfl, (id_map _).symm⟩
  | @gap pairs gap text rest hgap _ ih =>
    obtain ⟨ts, hpairs, hlater⟩ := ih (pos.after gap)
    refine ⟨ts, hpairs, ?_⟩
    rw [List.append_assoc, tokensFrom_gap hgap, hlater, Position.after_append]
  | @token pairs kind value lexeme text rest hwritten _ ih =>
    obtain ⟨ts, hpairs, hlater⟩ := ih (pos.after lexeme)
    obtain ⟨c, more, rfl, hfront⟩ := fronts_of_isWritten hwritten
    refine ⟨⟨kind, .str (String.ofList value), .ofPosition pos⟩ :: ts, ?_, ?_⟩
    · simp only [pairsOf, written, List.map_cons] at hpairs ⊢
      rw [hpairs]
    · rw [List.append_assoc, List.cons_append, tokensFrom_cons hfront, hlater, Functor.map_map,
        Position.after_append]
      rfl

-- A text is made up of gaps and lexemes, or this comes to an end somewhere in it.
theorem reads_or_stuck (text : List Char) :
    (∃ pairs, Reads pairs text []) ∨ ∃ pairs before c rest cause, text = before ++ c :: rest ∧
      Reads pairs before (c :: rest) ∧ front c rest = .error cause := by
  induction hlength : text.length using Nat.strong_induction_on generalizing text with
  | _ n ih =>
    cases text with
    | nil => exact .inl ⟨[], .nil []⟩
    | cons c cs =>
      cases hpiece : front c cs with
      | error cause => exact .inr ⟨[], [], c, cs, cause, rfl, .nil _, hpiece⟩
      | ok piece =>
        have hrest := length_rest_of_front hpiece
        have hsplit := append_of_front hpiece
        -- What the first piece adds to a text that is read behind it.
        have hfirst : ∃ own, ∀ pairs text rest, piece.rest = text ++ rest → Reads pairs text rest →
            Reads (own ++ pairs) (piece.lexeme ++ text) rest := by
          cases htoken : piece.token with
          | none =>
            have hgap := isGap_of_isFront (isFront_of_front hpiece) htoken
            exact ⟨[], fun pairs text rest heq hlater => .gap (heq ▸ hgap) hlater⟩
          | some token =>
            obtain ⟨kind, value⟩ := token
            have hvalid := isValid_of_front hpiece (kind, value) htoken
            have hlexeme := isLexeme_of_front hpiece htoken .unknown
            exact ⟨[(kind, value)], fun pairs text rest heq hlater =>
              .token ⟨hvalid, heq ▸ hlexeme⟩ hlater⟩
        obtain ⟨own, hown⟩ := hfirst
        rw [List.length_cons] at hlength
        rcases ih piece.rest.length (by omega) piece.rest rfl with ⟨pairs, hreads⟩ |
          ⟨pairs, before, d, rest, cause, heq, hreads, hstuck⟩
        · have hall := hown pairs piece.rest [] (List.append_nil _).symm hreads
          exact .inl ⟨own ++ pairs, hsplit ▸ hall⟩
        · refine .inr ⟨own ++ pairs, piece.lexeme ++ before, d, rest, cause, ?_,
            hown pairs before (d :: rest) heq hreads, hstuck⟩
          rw [← hsplit, heq, List.append_assoc]

-- A character that begins nothing does so whatever follows it.
theorem front_error {c : Char} {cs : List Char} {cause : Error.Cause}
    (h : front c cs = .error cause) :
    (cause = .unexpectedCharacter c ∧ ¬isGap c ∧
        ∀ more, front c more = .error (.unexpectedCharacter c)) ∨
      c.isDigit ∧ number (c :: cs) = .error cause := by
  unfold front at h
  split at h
  · cases h
  rename_i hgap
  split at h
  · cases h
  split at h
  · cases h
  rename_i hoperator
  have hslash : c ≠ '/' := by
    rintro rfl
    exact hoperator rfl
  split at h
  · cases h
  · cases h
  rename_i hpunctuation hcomparison
  split at h
  · cases h
  rename_i hmark
  split at h
  · cases h
  rename_i halpha
  split at h
  · rename_i hdigit
    exact .inr ⟨hdigit, h⟩
  · rename_i hdigit
    refine .inl ⟨(Except.error.inj h).symm, hgap, fun more => ?_⟩
    simp [front, hgap, hslash, hoperator, hpunctuation, hcomparison, hmark, halpha, hdigit]

theorem isOffence_of_front {c : Char} {rest : List Char} {cause : Error.Cause}
    (h : front c rest = .error cause) : IsOffence c rest cause := by
  rcases front_error h with ⟨rfl, hgap, hall⟩ | ⟨hdigit, hnumber⟩
  · refine .character hgap fun kind value lexeme after hwritten => ?_
    obtain ⟨d, more, heq, hfront⟩ := fronts_of_isWritten hwritten
    obtain ⟨rfl, rfl⟩ := List.cons.inj heq
    rw [hall] at hfront
    exact absurd hfront (by simp)
  · unfold number at hnumber
    simp only at hnumber
    split at hnumber
    · cases hnumber
    · cases hnumber
    rename_i hzero hone
    cases hnumber
    refine .number List.takeWhile_append_dropWhile.symm hdigit (fun d hd => ?_)
      ((Nat.two_le_iff _).2 ⟨hzero, hone⟩) (fun d hd => ?_)
    · simpa [isNumberChar] using List.mem_takeWhile_imp hd
    · simpa [isNumberChar] using not_of_mem_head?_dropWhile hd

end Scan

-- A blank may stand behind any lexeme.
theorem exists_isWritten {kind : Kind} {value : List Char} (h : IsValid kind value) :
    ∃ lexeme, ∀ rest, IsWritten kind value lexeme (' ' :: rest) := by
  have hplain (hkind : kind ≠ .string ∧ kind ≠ .endOfInput) (rest : List Char) :
      IsLexeme ⟨kind, .str (String.ofList value), .unknown⟩ value (' ' :: rest) :=
    .plain hkind rfl ⟨by simp [Scan.isWordChar], by simp, by simp, by simp⟩
  cases h with
  | @string mark _ hmark inside =>
    exact ⟨mark :: value ++ [mark], fun rest =>
      ⟨.string hmark inside, .closed hmark inside rfl rfl⟩⟩
  | sign listed =>
    have hkinds : ∀ p ∈ signTexts, p.1 ≠ .string ∧ p.1 ≠ .endOfInput := by decide
    exact ⟨value, fun rest => ⟨.sign listed, hplain (hkinds _ listed) rest⟩⟩
  | ident word free => exact ⟨value, fun rest => ⟨.ident word free, hplain (by simp) rest⟩⟩
  | keyword listed => exact ⟨value, fun rest => ⟨.keyword listed, hplain (by simp) rest⟩⟩
  | integer digits => exact ⟨value, fun rest => ⟨.integer digits, hplain (by simp) rest⟩⟩
  | real text => exact ⟨value, fun rest => ⟨.real text, hplain (by simp) rest⟩⟩

-- All kinds with texts that go with them can be written one after another.
theorem exists_reads {pairs : List (Kind × List Char)} (h : ∀ p ∈ pairs, IsValid p.1 p.2) :
    ∃ text, Reads pairs text [] := by
  induction pairs with
  | nil => exact ⟨[], .nil []⟩
  | cons p pairs ih =>
    obtain ⟨hp, hpairs⟩ := List.forall_mem_cons.1 h
    obtain ⟨text, hreads⟩ := ih hpairs
    obtain ⟨lexeme, hwritten⟩ := exists_isWritten hp
    have hblank : IsGap [' '] (text ++ []) := .blank (.inl rfl) (.nil _)
    exact ⟨lexeme ++ ([' '] ++ text), .token (hwritten _) (.gap hblank hreads)⟩

theorem scan_of_reads {source : String} {pairs : List (Kind × List Char)}
    (h : Reads pairs source.toList []) :
    ∃ tokens, scan source = .ok tokens ∧
      Scan.pairsOf tokens = Scan.written pairs ++ [(.endOfInput, .str "")] := by
  obtain ⟨ts, hpairs, hscan⟩ := Scan.tokensFrom_of_reads h .start
  rw [List.append_nil] at hscan
  exact ⟨_, hscan, by rw [Scan.pairsOf, List.map_append, ← hpairs]; rfl⟩

-- A text that gaps and lexemes do not make up is refused where they come to an end.
theorem reads_or_refused (source : String) :
    (∃ pairs, Reads pairs source.toList []) ∨
      ∃ pairs before c rest cause, source.toList = before ++ c :: rest ∧
        Reads pairs before (c :: rest) ∧ IsOffence c rest cause ∧ cause.cls = .lexical ∧
        scan source = .error ⟨cause, .ofPosition (.behind before)⟩ := by
  rcases Scan.reads_or_stuck source.toList with hreads |
    ⟨pairs, before, c, rest, cause, hsource, hreads, hstuck⟩
  · exact .inl hreads
  · have hoffence := Scan.isOffence_of_front hstuck
    obtain ⟨ts, -, hscan⟩ := Scan.tokensFrom_of_reads hreads .start
    rw [Scan.tokensFrom_error hstuck, ← hsource, Position.after_start] at hscan
    exact .inr ⟨pairs, before, c, rest, cause, hsource, hreads, hoffence, hoffence.cls, hscan⟩

theorem Reads.isValid {pairs : List (Kind × List Char)} {text rest : List Char}
    (h : Reads pairs text rest) : ∀ p ∈ pairs, IsValid p.1 p.2 := by
  induction h with
  | nil => simp
  | gap _ _ ih => exact ih
  | token written _ ih => exact List.forall_mem_cons.2 ⟨written.valid, ih⟩

-- The scan takes every text that gaps and lexemes make up, however they are chosen, for the tokens
-- that were written. Any other text it refuses where the first piece of it is neither of these.
theorem scan_exact :
    (∀ pairs, (∃ text, Reads pairs text []) ↔ ∀ p ∈ pairs, IsValid p.1 p.2) ∧
      (∀ source pairs, Reads pairs (String.toList source) [] →
        ∃ tokens, scan source = .ok tokens ∧
          Scan.pairsOf tokens = Scan.written pairs ++ [(.endOfInput, .str "")]) ∧
      ∀ source, (¬∃ pairs, Reads pairs (String.toList source) []) →
        ∃ pairs before c rest cause, source.toList = before ++ c :: rest ∧
          Reads pairs before (c :: rest) ∧ IsOffence c rest cause ∧ cause.cls = .lexical ∧
          scan source = .error ⟨cause, .ofPosition (.behind before)⟩ := by
  refine ⟨fun pairs => ⟨fun ⟨_, hreads⟩ => hreads.isValid, exists_reads⟩,
    fun source pairs => scan_of_reads, fun source hnone => ?_⟩
  exact (reads_or_refused source).resolve_left hnone

-- A comment and a string without an end on the one hand, a number with two points on the other.
theorem scan_exact_points :
    (∃ tokens, scan "a//\n>='b" = .ok tokens ∧
      Scan.pairsOf tokens = Scan.written [(.ident, ['a']), (.greaterEqual, ['>', '=']),
        (.string, ['b'])] ++ [(.endOfInput, .str "")]) ∧
      ∃ pairs before c rest cause, "a 1.2.3".toList = before ++ c :: rest ∧
        Reads pairs before (c :: rest) ∧ IsOffence c rest cause ∧ cause.cls = .lexical ∧
        scan "a 1.2.3" = .error ⟨cause, .ofPosition (.behind before)⟩ := by
  refine ⟨scan_exact.2.1 _ _ ?_, scan_exact.2.2 _ ?_⟩
  · have hname : IsWritten .ident ['a'] ['a'] "//\n>='b".toList :=
      ⟨.ident (by decide) (by decide),
        .plain (by simp) rfl ⟨by simp [Scan.isWordChar], by simp, by simp, by simp⟩⟩
    have hcomment : IsGap ['/', '/', '\n'] ">='b".toList :=
      @IsGap.comment [] ['\n'] _ (by simp) (by simp) (.blank (by simp) (.nil _))
    have hsign : IsWritten .greaterEqual ['>', '='] ['>', '='] "'b".toList :=
      ⟨.sign (by decide), .plain (by simp) rfl ⟨by simp, by simp, by simp, by simp⟩⟩
    have hstring : IsWritten .string ['b'] "'b".toList [] :=
      ⟨.string (.inl rfl) (by decide), .unclosed (.inl rfl) (by decide) rfl rfl⟩
    exact .token hname (.gap hcomment (.token hsign (.token hstring (.nil []))))
  · rintro ⟨pairs, hreads⟩
    obtain ⟨tokens, hscan, -⟩ := scan_of_reads hreads
    have hrefused : (scan "a 1.2.3").isOk = false := by decide
    rw [hscan] at hrefused
    exact absurd hrefused (by simp [Except.isOk, Except.toBool])

end TernLang.Token
