import TernLang.Proofs.Syntax.Cuts

-- Where one source text ends and another begins. A text that does not end inside a string has the
-- same tokens when a new line follows it, and a text further down has its tokens further down.

namespace TernLang

namespace Position

-- The same column so many lines further down.
def down (k : Nat) (p : Position) : Position := ⟨p.line + k, p.column⟩

end Position

-- The second place is so many lines below the first, in the same column.
def Place.Below (k : Nat) (p q : Place) : Prop :=
  ∃ pos : Position, 1 ≤ pos.line ∧ p = .ofPosition pos ∧ q = .ofPosition (pos.down k)

-- The same token but for its place.
structure Token.Twin (R : Place → Place → Prop) (t u : Token) : Prop where
  kind : u.kind = t.kind
  text : u.text = t.text
  place : R t.place u.place

namespace Token

namespace Scan

-- The tokens of a text that starts at `pos`.
def tokensFrom (pos : Position) (cs : List Char) : Except Error (List Token) :=
  tokens cs.length pos cs

-- The token for the end of a text.
def final (pos : Position) : Token := ⟨.endOfInput, .str "", .ofPosition pos⟩

theorem tokens_eq {n m : Nat} {cs : List Char} (hn : cs.length ≤ n) (hm : cs.length ≤ m)
    (pos : Position) : tokens n pos cs = tokens m pos cs := by
  induction n generalizing m cs pos with
  | zero =>
    obtain rfl := List.length_eq_zero_iff.1 (Nat.le_zero.1 hn)
    cases m <;> rfl
  | succ n ih =>
    cases cs with
    | nil => cases m <;> rfl
    | cons c cs =>
      obtain ⟨m, rfl⟩ : ∃ k, m = k + 1 := ⟨m - 1, by simp only [List.length_cons] at hm; omega⟩
      simp only [List.length_cons] at hn hm
      rw [tokens, tokens]
      cases hpiece : front c cs with
      | error cause => rfl
      | ok piece =>
        have hlength := length_rest_of_front hpiece
        simp only
        rw [ih (m := m) (by omega) (by omega)]

theorem tokensFrom_error {c : Char} {cs : List Char} {cause : Error.Cause}
    (h : front c cs = .error cause) (pos : Position) :
    tokensFrom pos (c :: cs) = .error ⟨cause, .ofPosition pos⟩ := by
  simp only [tokensFrom, List.length_cons, tokens, h]

theorem tokensFrom_cons {c : Char} {cs : List Char} {piece : Piece} (h : front c cs = .ok piece)
    (pos : Position) :
    tokensFrom pos (c :: cs) =
      piece.consTo pos <$> tokensFrom (pos.after piece.lexeme) piece.rest := by
  have hlength := length_rest_of_front h
  simp only [tokensFrom, List.length_cons, tokens, h]
  rw [tokens_eq hlength (Nat.le_refl _)]
  cases tokens piece.rest.length (pos.after piece.lexeme) piece.rest <;> rfl

-- A span that ends within a text, or at once behind it, does not depend on what follows.
theorem span_append {p : Char → Bool} {cs more : List Char}
    (h : (∃ d ∈ cs, p d = false) ∨ ∀ d ∈ more.head?, p d = false) :
    (cs ++ more).takeWhile p = cs.takeWhile p ∧
      (cs ++ more).dropWhile p = cs.dropWhile p ++ more := by
  induction cs with
  | nil =>
    have hstop : ∀ d ∈ more.head?, p d = false := by simpa using h
    cases more with
    | nil => exact ⟨rfl, rfl⟩
    | cons d more => simp [hstop d rfl]
  | cons c cs ih =>
    by_cases hc : p c
    · simpa [hc] using ih (by simpa [hc] using h)
    · simp [hc]

section Front

variable {c : Char} {cs : List Char} {piece : Piece}

-- The same piece, with more text behind it.
def Piece.before (piece : Piece) (more : List Char) : Piece :=
  { piece with rest := piece.rest ++ more }

end Front

-- What becomes of the tokens of a text, or of the error in it, when the text is moved down.
inductive Moved (k : Nat) : Except Error (List Token) → Except Error (List Token) → Prop where
  | ok {before moved : List Token} {pos : Position} (kinds : ∀ t ∈ before, t.kind ≠ .endOfInput)
    (each : List.Forall₂ (Twin (Place.Below k)) before moved) (hline : 1 ≤ pos.line) :
    Moved k (.ok (before ++ [final pos])) (.ok (moved ++ [final (pos.down k)]))
  | error (cause : Error.Cause) {pos : Position} (hline : 1 ≤ pos.line) :
    Moved k (.error ⟨cause, .ofPosition pos⟩) (.error ⟨cause, .ofPosition (pos.down k)⟩)

end Scan

-- Two texts with a line between them that has nothing but a semicolon.
def joined (first second : String) : String := first ++ "\n;\n" ++ second

end Token

end TernLang
