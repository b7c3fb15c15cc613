import TernLang.Proofs.Syntax.Places

-- The tokens of a source text cut it into lexemes and the gaps between them, and nothing of it is
-- lost. Every token stands where its lexeme begins.

namespace TernLang

namespace Position

-- The place behind a text: one line more than it has newlines, and one column more than there are
-- characters since the last of them.
def behind (cs : List Char) : Position :=
  ⟨1 + cs.count '\n', 1 + (cs.reverse.takeWhile (· ≠ '\n')).length⟩

theorem after_start (cs : List Char) : start.after cs = behind cs := by
  induction cs using List.reverseRecOn with
  | nil => rfl
  | append_singleton cs c ih =>
    rw [after_append, ih, after_cons, after_nil, next]
    by_cases hc : c = '\n'
    · subst hc
      simp [behind, Int.add_assoc]
    · simp [behind, hc, Int.add_assoc]

end Position

namespace Token

-- A gap in front of `rest`: white space, and comments that run up to a newline or to the end.
inductive IsGap : List Char → List Char → Prop where
  | nil (rest : List Char) : IsGap [] rest
  | blank {c : Char} {gap rest : List Char} (hc : c = ' ' ∨ c = '\t' ∨ c = '\n' ∨ c = '\r')
    (tail : IsGap gap rest) : IsGap (c :: gap) rest
  | comment {text gap rest : List Char} (inside : '\n' ∉ text)
    (stop : ∀ c ∈ (gap ++ rest).head?, c = '\n') (tail : IsGap gap rest) :
    IsGap ('/' :: '/' :: text ++ gap) rest

theorem IsGap.append {gap more rest : List Char} (h : IsGap gap (more ++ rest))
    (hmore : IsGap more rest) : IsGap (gap ++ more) rest := by
  generalize hall : more ++ rest = all at h
  induction h with
  | nil => exact hmore
  | blank hc _ ih => exact .blank hc (ih hall)
  | comment inside stop _ ih =>
    subst hall
    rw [List.append_assoc]
    exact .comment inside (by rwa [List.append_assoc]) (ih rfl)

-- A lexeme in front of `rest` is as long as it can be.
structure IsMaximal (kind : Kind) (lexeme rest : List Char) : Prop where
  word : kind = .ident ∨ kind = .keyword → ∀ c ∈ rest.head?, ¬Scan.isWordChar c
  number : kind = .integer ∨ kind = .real → ∀ c ∈ rest.head?, ¬c.isDigit ∧ c ≠ '.'
  comparison : lexeme = ['>'] ∨ lexeme = ['<'] ∨ lexeme = ['='] ∨ lexeme = ['!'] →
    rest.head? ≠ some '='
  slash : lexeme = ['/'] → rest.head? ≠ some '/'

-- The lexeme of a token in front of `rest`: its text, which for a string stands in quotes. The
-- second quote may only be missing at the end.
inductive IsLexeme (t : Token) : List Char → List Char → Prop where
  | plain {lexeme rest : List Char} (kind : t.kind ≠ .string ∧ t.kind ≠ .endOfInput)
    (text : t.text = .str (String.ofList lexeme)) (maximal : IsMaximal t.kind lexeme rest) :
    IsLexeme t lexeme rest
  | closed {mark : Char} {body rest : List Char} (hmark : mark = '\x27' ∨ mark = '\x22')
    (inside : mark ∉ body) (kind : t.kind = .string) (text : t.text = .str (String.ofList body)) :
    IsLexeme t (mark :: body ++ [mark]) rest
  | unclosed {mark : Char} {body : List Char} (hmark : mark = '\x27' ∨ mark = '\x22')
    (inside : mark ∉ body) (kind : t.kind = .string) (text : t.text = .str (String.ofList body)) :
    IsLexeme t (mark :: body) []

-- The text after `front` is cut into gaps and the lexemes of tokens, up to the token for its end.
inductive Covers : List Char → List Char → List Token → Prop where
  | done {front gap : List Char} (hgap : IsGap gap []) :
    Covers front gap [⟨.endOfInput, .str "", .ofPosition (.behind (front ++ gap))⟩]
  | token {front gap lexeme rest : List Char} {t : Token} {ts : List Token}
    (hgap : IsGap gap (lexeme ++ rest)) (hlexeme : IsLexeme t lexeme rest)
    (hplace : t.place = .ofPosition (.behind (front ++ gap)))
    (later : Covers (front ++ gap ++ lexeme) rest ts) :
    Covers front (gap ++ (lexeme ++ rest)) (t :: ts)

-- A gap in front of a text makes the first gap of it longer.
theorem Covers.gap {front gap rest : List Char} {ts : List Token} (hgap : IsGap gap rest)
    (h : Covers (front ++ gap) rest ts) : Covers front (gap ++ rest) ts := by
  cases h with
  | @done _ more hmore =>
    rw [List.append_assoc]
    exact .done (.append (by rwa [List.append_nil]) hmore)
  | @token _ more lexeme rest t ts hmore hlexeme hplace later =>
    rw [← List.append_assoc]
    refine .token (hgap.append hmore) hlexeme ?_ ?_
    · rwa [← List.append_assoc]
    · rwa [← List.append_assoc]

namespace Scan

-- The pieces that can stand at the front of `c :: cs`.
inductive IsFront (c : Char) (cs : List Char) : Piece → Prop where
  | blank (hc : isGap c) : IsFront c cs (gap [c] cs)
  | comment (hc : c = '/') (hcs : cs.head? = some '/') : IsFront c cs (comment (c :: cs))
  | operator (hc : isOperator c) (hcs : ¬(c = '/' ∧ cs.head? = some '/')) :
    IsFront c cs (plain .operator [c] cs)
  | punctuation {kind : Kind} (hc : punctuation? c = some kind) : IsFront c cs (plain kind [c] cs)
  | comparison {single double : Kind} (hc : comparison? c = some (single, double)) :
    IsFront c cs (comparison single double c cs)
  | quoted (hc : c = '\x27' ∨ c = '\x22') : IsFront c cs (quoted c cs)
  | word (hc : c.isAlpha) : IsFront c cs (word (c :: cs))
  | number {kind : Kind} (hc : c.isDigit) (hkind : kind = .integer ∨ kind = .real) :
    IsFront c cs (plain kind ((c :: cs).takeWhile isNumberChar) ((c :: cs).dropWhile isNumberChar))

theorem isFront_of_front {c : Char} {cs : List Char} {piece : Piece} (h : front c cs = .ok piece) :
    IsFront c cs piece := by
  unfold front at h
  split at h
  · rename_i hc
    cases h
    exact .blank hc
  split at h
  · rename_i hc
    cases h
    exact .comment hc.1 hc.2
  split at h
  · rename_i hcs hc
    cases h
    exact .operator hc hcs
  split at h
  · rename_i hc
    cases h
    exact .punctuation hc
  · rename_i hc
    cases h
    exact .comparison hc
  split at h
  · rename_i hc
    cases h
    exact .quoted hc
  split at h
  · rename_i hc
    cases h
    exact .word hc
  split at h
  · rename_i hc
    unfold number at h
    simp only at h
    split at h
    · cases h
      exact .number hc (.inl rfl)
    · cases h
      exact .number hc (.inr rfl)
    · cases h
  · cases h

variable {c : Char} {cs : List Char} {piece : Piece}

theorem not_of_mem_head?_dropWhile {p : Char → Bool} {d : Char}
    (h : d ∈ (cs.dropWhile p).head?) : ¬p d := by
  have hstop := List.head?_dropWhile_not p cs
  rw [Option.mem_def.1 h] at hstop
  simpa using hstop

theorem isGap_of_isFront (h : IsFront c cs piece) (htoken : piece.token = none) :
    IsGap piece.lexeme piece.rest := by
  cases h with
  | blank hc =>
    refine .blank ?_ (.nil _)
    simpa [isGap, or_assoc] using hc
  | comment hc hcs =>
    obtain ⟨rest, rfl⟩ := List.head?_eq_some_iff.1 hcs
    subst hc
    have htext : '\n' ∉ rest.takeWhile (· ≠ '\n') := fun hmem => by
      simpa using List.all_eq_true.1 List.all_takeWhile _ hmem
    have hgap : IsGap ('/' :: '/' :: rest.takeWhile (· ≠ '\n') ++ [])
        (rest.dropWhile (· ≠ '\n')) :=
      .comment htext (fun c hc => by simpa using not_of_mem_head?_dropWhile hc) (.nil _)
    simpa [Scan.comment, gap] using hgap
  | comparison hc =>
    unfold comparison at htoken
    split at htoken <;> simp [plain] at htoken
  | _ => simp [plain, quoted, word] at htoken

theorem length_rest_of_front (h : front c cs = .ok piece) : piece.rest.length ≤ cs.length := by
  have happend := congrArg List.length (append_of_front h)
  have hlexeme : piece.lexeme ≠ [] := by
    cases isFront_of_front h with
    | comment hc hcs => simp [comment, gap, hc]
    | comparison hc =>
      unfold comparison
      split <;> simp [plain]
    | word hc => simp [word, plain, isWordChar, Char.isAlphanum, hc]
    | number hc hkind => simp [plain, isNumberChar, hc]
    | _ => simp [gap, plain, quoted]
  have hpos := List.length_pos_iff.2 hlexeme
  rw [List.length_append, List.length_cons] at happend
  omega

-- The signs with which a longer piece may begin.
theorem front_of_comparison? {single double : Kind} (h : comparison? c = some (single, double)) :
    front c cs = .ok (comparison single double c cs) := by
  unfold comparison? at h
  split at h <;> cases h <;> rfl

-- No sign is taken apart: neither a comparison from its equals sign nor a comment.
theorem isMaximal_of_front (h : front c cs = .ok piece) {kind : Kind} {text : List Char}
    (htoken : piece.token = some (kind, text))
    (hword : kind = .ident ∨ kind = .keyword → ∀ d ∈ piece.rest.head?, ¬isWordChar d)
    (hnumber : kind = .integer ∨ kind = .real → ∀ d ∈ piece.rest.head?, ¬isNumberChar d) :
    IsMaximal kind piece.lexeme piece.rest := by
  have happend := append_of_front h
  have hsingle {x : Char} (hx : piece.lexeme = [x]) : c = x ∧ piece.rest = cs := by
    rw [hx] at happend
    exact ⟨(List.cons.inj happend).1.symm, (List.cons.inj happend).2⟩
  have hsign {x : Char} {single double : Kind} (hx : piece.lexeme = [x])
      (hcomparison : comparison? x = some (single, double)) : piece.rest.head? ≠ some '=' := by
    obtain ⟨rfl, hrest⟩ := hsingle hx
    rw [front_of_comparison? hcomparison] at h
    obtain rfl := Except.ok.inj h
    intro hhead
    obtain ⟨tail, htail⟩ := List.head?_eq_some_iff.1 hhead
    rw [← hrest, htail] at hx
    simp [comparison, plain] at hx
  refine ⟨hword, fun hkind d hd => ?_, ?_, fun hx => ?_⟩
  · simpa [isNumberChar] using hnumber hkind d hd
  · rintro (hx | hx | hx | hx)
    · exact hsign hx rfl
    · exact hsign hx rfl
    · exact hsign hx rfl
    · exact hsign hx rfl
  · obtain ⟨rfl, hrest⟩ := hsingle hx
    rw [hrest]
    intro hhead
    have hcomment : front '/' cs = .ok (comment ('/' :: cs)) := by simp [front, hhead, isGap]
    rw [hcomment] at h
    obtain rfl := Except.ok.inj h
    simp [comment, gap] at htoken

-- The kinds that have one lexeme or a few.
def IsSign (kind : Kind) : Prop :=
  kind ∉ [.ident, .keyword, .integer, .real, .string, .endOfInput]

theorem isSign_of_punctuation? {kind : Kind} (h : punctuation? c = some kind) : IsSign kind := by
  unfold punctuation? at h
  split at h <;> cases h <;> simp [IsSign]

theorem isSign_of_comparison? {single double : Kind} (h : comparison? c = some (single, double)) :
    IsSign single ∧ IsSign double := by
  unfold comparison? at h
  split at h <;> cases h <;> simp [IsSign]

theorem isLexeme_of_isSign (h : front c cs = .ok piece) {kind : Kind} (hkind : IsSign kind)
    (htoken : piece.token = some (kind, piece.lexeme)) (place : Place) :
    IsLexeme ⟨kind, .str (String.ofList piece.lexeme), place⟩ piece.lexeme piece.rest := by
  simp only [IsSign, List.mem_cons, List.not_mem_nil, or_false, not_or] at hkind
  obtain ⟨hident, hkeyword, hinteger, hreal, hstring, hend⟩ := hkind
  refine .plain ⟨hstring, hend⟩ rfl (isMaximal_of_front h htoken ?_ ?_)
  · exact fun hword => absurd hword (not_or.2 ⟨hident, hkeyword⟩)
  · exact fun hnumber => absurd hnumber (not_or.2 ⟨hinteger, hreal⟩)

theorem token_comparison (single double : Kind) (c : Char) (cs : List Char) :
    ∃ kind, (kind = single ∨ kind = double) ∧ (comparison single double c cs).token =
      some (kind, (comparison single double c cs).lexeme) := by
  unfold comparison
  split
  · exact ⟨double, .inr rfl, rfl⟩
  · exact ⟨single, .inl rfl, rfl⟩

theorem isLexeme_quoted (hmark : c = '\x27' ∨ c = '\x22') (cs : List Char) (place : Place) :
    IsLexeme ⟨.string, .str (String.ofList (cs.takeWhile (· ≠ c))), place⟩ (quoted c cs).lexeme
      (quoted c cs).rest := by
  have hinside : c ∉ cs.takeWhile (· ≠ c) := fun hmem => by
    simpa using List.all_eq_true.1 List.all_takeWhile _ hmem
  simp only [quoted]
  cases hafter : cs.dropWhile (· ≠ c) with
  | nil =>
    rw [List.take_nil, List.drop_nil, List.append_nil]
    exact .unclosed hmark hinside rfl rfl
  | cons d rest =>
    have hd : d ∈ (cs.dropWhile (· ≠ c)).head? := by rw [hafter]; rfl
    have hstop : d = c := by simpa using not_of_mem_head?_dropWhile hd
    subst hstop
    exact .closed hmark hinside rfl rfl

theorem isLexeme_of_front (h : front c cs = .ok piece) {kind : Kind} {text : List Char}
    (htoken : piece.token = some (kind, text)) (place : Place) :
    IsLexeme ⟨kind, .str (String.ofList text), place⟩ piece.lexeme piece.rest := by
  have hmaximal := isMaximal_of_front h htoken
  cases isFront_of_front h with
  | blank hc => simp [gap] at htoken
  | comment hc hcs => simp [comment, gap] at htoken
  | operator hc hcs =>
    obtain ⟨rfl, rfl⟩ := Prod.mk.inj (Option.some.inj htoken)
    exact isLexeme_of_isSign h (by simp [IsSign]) rfl place
  | punctuation hc =>
    obtain ⟨rfl, rfl⟩ := Prod.mk.inj (Option.some.inj htoken)
    exact isLexeme_of_isSign h (isSign_of_punctuation? hc) rfl place
  | comparison hc =>
    obtain ⟨hsingle, hdouble⟩ := isSign_of_comparison? hc
    obtain ⟨sign, hsign, hlexeme⟩ := token_comparison _ _ c cs
    obtain ⟨rfl, rfl⟩ := Prod.mk.inj (Option.some.inj (hlexeme.symm.trans htoken))
    refine isLexeme_of_isSign h ?_ hlexeme place
    rcases hsign with rfl | rfl
    · exact hsingle
    · exact hdouble
  | quoted hc =>
    obtain ⟨rfl, rfl⟩ := Prod.mk.inj (Option.some.inj htoken)
    exact isLexeme_quoted hc cs place
  | word hc =>
    obtain ⟨hkind, rfl⟩ := Prod.mk.inj (Option.some.inj htoken)
    have hword : kind = .keyword ∨ kind = .ident := by
      rw [← hkind]
      split
      · exact .inl rfl
      · exact .inr rfl
    refine .plain ?_ rfl (hmaximal ?_ ?_)
    · rcases hword with rfl | rfl <;> simp
    · exact fun _ d hd => not_of_mem_head?_dropWhile hd
    · rintro (rfl | rfl) <;> simp at hword
  | number hc hkind =>
    obtain ⟨rfl, rfl⟩ := Prod.mk.inj (Option.some.inj htoken)
    refine .plain ?_ rfl (hmaximal ?_ ?_)
    · rcases hkind with rfl | rfl <;> simp
    · rintro (rfl | rfl) <;> simp at hkind
    · exact fun _ d hd => not_of_mem_head?_dropWhile hd

-- Every step of the scan takes a gap or a lexeme, and knows how far the text in front of it goes.
theorem covers_of_tokens {n : Nat} {text before : List Char} (hn : text.length ≤ n)
    {ts : List Token} (h : tokens n (Position.start.after before) text = .ok ts) :
    Covers before text ts := by
  have hdone {before : List Char} {ts : List Token}
      (h : (.ok [⟨.endOfInput, .str "", .ofPosition (Position.start.after before)⟩] :
        Except Error (List Token)) = .ok ts) : Covers before [] ts := by
    obtain rfl := Except.ok.inj h
    have hend := @Covers.done before [] (.nil [])
    rwa [List.append_nil, ← Position.after_start] at hend
  induction n generalizing text before ts with
  | zero =>
    obtain rfl := List.length_eq_zero_iff.1 (Nat.le_zero.1 hn)
    rw [tokens.eq_def] at h
    exact hdone h
  | succ n ih =>
    cases text with
    | nil =>
      rw [tokens.eq_def] at h
      exact hdone h
    | cons c cs =>
      rw [tokens] at h
      split at h
      · exact absurd h (by simp)
      rename_i piece hpiece
      rw [← Position.after_append] at h
      split at h
      · exact absurd h (by simp)
      rename_i later hlater
      obtain rfl := Except.ok.inj h
      have hlength := length_rest_of_front hpiece
      have hrest := ih (by simp only [List.length_cons] at hn; omega) hlater
      rw [← append_of_front hpiece]
      unfold Piece.consTo
      split
      · rename_i kind text htoken
        have hlexeme := isLexeme_of_front hpiece htoken
          (.ofPosition (Position.start.after before))
        refine @Covers.token before [] _ _ _ _ (.nil _) hlexeme ?_ ?_
        · rw [List.append_nil, Position.after_start]
        · rwa [List.append_nil]
      · rename_i htoken
        exact .gap (isGap_of_isFront (isFront_of_front hpiece) htoken) hrest

end Scan

-- The tokens of a source text cut it into gaps and lexemes, each of which is where its token says.
theorem covers_of_scan {source : String} {tokens : List Token} (h : scan source = .ok tokens) :
    Covers [] source.toList tokens :=
  Scan.covers_of_tokens (Nat.le_refl _) h

theorem covers_of_scan_comparison :
    Covers [] "a //\n >= 'b".toList
      [⟨.ident, .str "a", .ofPosition ⟨1, 1⟩⟩, ⟨.greaterEqual, .str ">=", .ofPosition ⟨2, 2⟩⟩,
        ⟨.string, .str "b", .ofPosition ⟨2, 5⟩⟩, ⟨.endOfInput, .str "", .ofPosition ⟨2, 7⟩⟩] :=
  covers_of_scan rfl

end Token

end TernLang
