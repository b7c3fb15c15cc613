import TernLang.Proofs.Syntax.ParserOutput

-- What the tokens of a source text are made of.

namespace TernLang.Token

open Node

-- A letter, and letters, digits and underscores after it.
def IsWord (cs : List Char) : Prop := cs.head?.any Char.isAlpha ∧ cs.all Scan.isWordChar

instance (cs : List Char) : Decidable (IsWord cs) := inferInstanceAs (Decidable (_ ∧ _))

-- The signs with their texts: those of arithmetic, those that stand for themselves, and those that
-- differ by an equals sign.
def arithmeticTexts : List (Kind × String) :=
  [(.operator, "+"), (.operator, "-"), (.operator, "*"), (.operator, "/"), (.operator, "%")]

def punctuationTexts : List (Kind × String) :=
  [(.comma, ","), (.dot, "."), (.colon, ":"), (.semicolon, ";"), (.leftParen, "("),
   (.rightParen, ")"), (.leftBrace, "\x7b"), (.rightBrace, "\x7d"), (.leftBracket, "["),
   (.rightBracket, "]"), (.and, "&"), (.or, "|"), (.xor, "^")]

def comparisonTexts : List (Kind × String) :=
  [(.greater, ">"), (.greaterEqual, ">="), (.less, "<"), (.lessEqual, "<="), (.assign, "="),
   (.equal, "=="), (.not, "!"), (.notEqual, "!=")]

def signTexts : List (Kind × String) := arithmeticTexts ++ punctuationTexts ++ comparisonTexts

-- The texts that go with a kind. A string lacks one of the two quotes, so that it can stand between
-- two of these.
inductive IsValid : Kind → List Char → Prop where
  | ident {cs : List Char} (word : IsWord cs) (free : String.ofList cs ∉ keywords) :
    IsValid .ident cs
  | keyword {cs : List Char} (listed : String.ofList cs ∈ keywords) : IsValid .keyword cs
  | integer {cs : List Char} (digits : Reading.IsDigits cs) : IsValid .integer cs
  | real {cs : List Char} (text : Reading.IsRealText cs) : IsValid .real cs
  | string {mark : Char} {cs : List Char} (hmark : mark = '\x27' ∨ mark = '\x22')
    (inside : mark ∉ cs) : IsValid .string cs
  | sign {kind : Kind} {cs : List Char} (listed : (kind, String.ofList cs) ∈ signTexts) :
    IsValid kind cs

namespace Scan

-- The token of a piece, if it has one, has a text that goes with its kind.
def Piece.IsValid (piece : Piece) : Prop :=
  ∀ token ∈ piece.token, Token.IsValid token.1 token.2

theorem isValid_gap (lexeme rest : List Char) : (gap lexeme rest).IsValid := by
  simp [Piece.IsValid, gap]

theorem isValid_plain {kind : Kind} {lexeme : List Char} (rest : List Char)
    (h : Token.IsValid kind lexeme) : (plain kind lexeme rest).IsValid := by
  simpa [Piece.IsValid, plain] using h

theorem isValid_of_isOperator {c : Char} (h : isOperator c) : Token.IsValid .operator [c] := by
  simp only [isOperator, Bool.or_eq_true, decide_eq_true_eq, or_assoc] at h
  rcases h with rfl | rfl | rfl | rfl | rfl <;> exact .sign (by decide)

theorem isValid_of_punctuation? {c : Char} {kind : Kind} (h : punctuation? c = some kind) :
    Token.IsValid kind [c] := by
  unfold punctuation? at h
  split at h <;> cases h <;> exact .sign (by decide)

theorem isValid_comparison {c : Char} {single double : Kind}
    (h : comparison? c = some (single, double)) (cs : List Char) :
    (comparison single double c cs).IsValid := by
  have hboth : Token.IsValid single [c] ∧ Token.IsValid double [c, '='] := by
    unfold comparison? at h
    split at h <;> cases h <;> exact ⟨.sign (by decide), .sign (by decide)⟩
  unfold comparison
  split
  · exact isValid_plain _ hboth.2
  · exact isValid_plain _ hboth.1

theorem isValid_quoted {mark : Char} (hmark : mark = '\x27' ∨ mark = '\x22') (cs : List Char) :
    (quoted mark cs).IsValid := by
  have hinside : mark ∉ cs.takeWhile (· ≠ mark) := fun hmem => by
    simpa using List.all_eq_true.1 List.all_takeWhile _ hmem
  simpa [Piece.IsValid, quoted] using Token.IsValid.string hmark hinside

section Numbers

variable {cs : List Char}

theorem all_isDigit_of_count (h : cs.all isNumberChar) (hcount : cs.count '.' = 0) :
    cs.all Char.isDigit := by
  refine List.all_eq_true.2 fun d hd => ?_
  have hnumber : isNumberChar d := List.all_eq_true.1 h d hd
  have hpoint : d ≠ '.' := fun heq => List.count_eq_zero.1 hcount (heq ▸ hd)
  simpa [isNumberChar, hpoint] using hnumber

-- With one point, neither what stands before it nor what stands after it has one.
theorem isRealText_of_count (hfirst : cs.head?.any Char.isDigit) (h : cs.all isNumberChar)
    (hcount : cs.count '.' = 1) : Reading.IsRealText cs := by
  have hpoint : '.' ∈ cs := List.count_pos_iff.1 (by omega)
  obtain ⟨whole, places, rfl⟩ := List.append_of_mem hpoint
  simp only [List.count_append, List.count_cons_self] at hcount
  simp only [List.all_append, List.all_cons, Bool.and_eq_true] at h
  have hwhole : whole ≠ [] := by
    rintro rfl
    simp at hfirst
  exact ⟨whole, places, ⟨hwhole, all_isDigit_of_count h.1 (by omega)⟩,
    all_isDigit_of_count h.2.2 (by omega), rfl⟩

theorem isValid_number {c : Char} (hc : c.isDigit) {piece : Piece}
    (h : number (c :: cs) = .ok piece) : piece.IsValid := by
  have hfirst : isNumberChar c := by simp [isNumberChar, hc]
  have hhead : ((c :: cs).takeWhile isNumberChar).head?.any Char.isDigit := by simp [hfirst, hc]
  have hall : ((c :: cs).takeWhile isNumberChar).all isNumberChar := List.all_takeWhile
  unfold number at h
  simp only at h
  split at h
  · rename_i hcount
    cases h
    exact isValid_plain _ (.integer ⟨by simp [hfirst], all_isDigit_of_count hall hcount⟩)
  · rename_i hcount
    cases h
    exact isValid_plain _ (.real (isRealText_of_count hhead hall hcount))
  · cases h

end Numbers

theorem isValid_word {c : Char} (hc : c.isAlpha) (cs : List Char) :
    (word (c :: cs)).IsValid := by
  have hfirst : isWordChar c := by simp [isWordChar, Char.isAlphanum, hc]
  have hword : IsWord ((c :: cs).takeWhile isWordChar) :=
    ⟨by simp [hfirst, hc], List.all_takeWhile⟩
  refine isValid_plain _ ?_
  split
  · rename_i hlisted
    exact .keyword (List.contains_iff_mem.1 hlisted)
  · rename_i hfree
    exact .ident hword (mt List.contains_iff_mem.2 hfree)

theorem isValid_of_front {c : Char} {cs : List Char} {piece : Piece} (h : front c cs = .ok piece) :
    piece.IsValid := by
  unfold front at h
  split at h
  · cases h
    exact isValid_gap _ _
  split at h
  · cases h
    exact isValid_gap _ _
  split at h
  · rename_i hoperator
    cases h
    exact isValid_plain _ (isValid_of_isOperator hoperator)
  split at h
  · rename_i kind hkind
    cases h
    exact isValid_plain _ (isValid_of_punctuation? hkind)
  · rename_i single double _ hcomparison
    cases h
    exact isValid_comparison hcomparison _
  · split at h
    · rename_i hmark
      cases h
      exact isValid_quoted hmark _
    split at h
    · rename_i halpha
      cases h
      exact isValid_word halpha _
    split at h
    · rename_i hdigit
      exact isValid_number hdigit h
    · cases h

-- What holds of the tokens of a text: `I` is what one step of the scan preserves.
theorem forall_mem_tokens {I : Position → List Char → Prop} {P : Token → Prop}
    (hend : ∀ pos cs, I pos cs → P ⟨.endOfInput, .str "", .ofPosition pos⟩)
    (hstep : ∀ pos c cs piece, I pos (c :: cs) → front c cs = .ok piece →
      I (pos.after piece.lexeme) piece.rest ∧
        ∀ token ∈ piece.token, P ⟨token.1, .str (String.ofList token.2), .ofPosition pos⟩)
    (n : Nat) : ∀ (pos : Position) (cs : List Char) (ts : List Token), I pos cs →
      tokens n pos cs = .ok ts → ∀ t ∈ ts, P t := by
  have hlast (pos : Position) (cs : List Char) (hI : I pos cs) (ts : List Token)
      (h : (.ok [⟨.endOfInput, .str "", .ofPosition pos⟩] : Except Error (List Token)) = .ok ts) :
      ∀ t ∈ ts, P t := by
    obtain rfl := Except.ok.inj h
    simpa using hend pos cs hI
  induction n with
  | zero =>
    intro pos cs ts hI h
    rw [tokens.eq_def] at h
    exact hlast pos cs hI ts h
  | succ n ih =>
    intro pos cs ts hI h
    cases cs with
    | nil =>
      rw [tokens.eq_def] at h
      exact hlast pos [] hI ts h
    | cons c cs =>
      rw [tokens] at h
      split at h
      · exact absurd h (by simp)
      rename_i piece hpiece
      obtain ⟨hrest, hfirst⟩ := hstep pos c cs piece hI hpiece
      split at h
      · exact absurd h (by simp)
      rename_i later hlater
      obtain rfl := Except.ok.inj h
      have hall := ih _ _ later hrest hlater
      unfold Piece.consTo
      split
      · rename_i kind text htoken
        exact List.forall_mem_cons.2 ⟨hfirst (kind, text) htoken, hall⟩
      · exact hall

end Scan

-- A text that goes with its kind is one that the grammar can do with.
theorem allows_of_isValid {l : Leaves}
    (hname : ∀ cs, IsWord cs → String.ofList cs ∉ keywords → l.name (String.ofList cs))
    {kind : Kind} {cs : List Char} (h : IsValid kind cs) : kind.Allows l (String.ofList cs) := by
  cases h with
  | ident word free => exact hname cs word free
  | integer digits => simpa [Kind.Allows] using digits
  | real text => simpa [Kind.Allows] using text
  | keyword | string => trivial
  | sign listed =>
    generalize String.ofList cs = s at listed
    have hall : ∀ p ∈ signTexts, p.1.Allows l p.2 := by
      simp [signTexts, arithmeticTexts, punctuationTexts, comparisonTexts, Kind.Allows]
    exact hall _ listed

-- Every token of a source text has a text that goes with its kind.
theorem text_of_scan {l : Leaves}
    (hname : ∀ cs, IsWord cs → String.ofList cs ∉ keywords → l.name (String.ofList cs))
    {source : String} {tokens : List Token} (h : scan source = .ok tokens) :
    ∀ t ∈ tokens, ∃ s, t.text = .str s ∧ t.kind.Allows l s := by
  refine Scan.forall_mem_tokens (I := fun _ _ => True) (fun _ _ _ => ⟨"", rfl, trivial⟩)
    (fun pos c cs piece _ hpiece => ⟨trivial, fun token htoken => ?_⟩) _ _ _ _ trivial h
  exact ⟨_, rfl, allows_of_isValid hname (Scan.isValid_of_front hpiece token htoken)⟩

end TernLang.Token

namespace TernLang.Node

-- Whatever a source text denotes is well-formed.
theorem isProgram_of_parse [Machine] {source : String} {program : Node}
    (h : Node.parse source = .ok program) : program.IsProgram .any := by
  unfold Node.parse at h
  split at h
  · rename_i tokens hscan
    refine isProgram_of_ofTokens trivial (fun t ht => ⟨trivial, ?_⟩) h
    exact Token.text_of_scan (fun _ _ _ => trivial) hscan t ht
  · exact absurd h (by simp)

end TernLang.Node
