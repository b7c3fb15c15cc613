import TernLang.Proofs.Number.Reading
import TernLang.Proofs.Syntax.LevelRun

-- What the parser for the tightest expressions does on written literals, names, brackets and signs.

namespace TernLang

-- A token that is written at the front of an operand.
def Token.StartsOperand (t : Token) : Prop :=
  t.place = .unknown ∧
    t.kind ∈ [.ident, .integer, .real, .string, .not, .leftBracket, .leftParen, .operator]

namespace Grammar

open Parse Render

@[simp]
theorem kind_word (kind : Token.Kind) (text : String) : (word kind text).kind = kind := by
  simp [word]

@[simp]
theorem text_word (kind : Token.Kind) (text : String) : (word kind text).text = .str text := rfl

@[simp]
theorem place_word (kind : Token.Kind) (text : String) : (word kind text).place = .unknown := rfl

@[simp]
theorem kind_named (kind : Token.Kind) (text : Tree) : (named kind text).kind = kind := by
  simp [named]

@[simp]
theorem text_named (kind : Token.Kind) (text : Tree) : (named kind text).text = text := rfl

@[simp]
theorem place_named (kind : Token.Kind) (text : Tree) : (named kind text).place = .unknown := rfl

@[simp]
theorem kind_openParen : openParen.kind = .leftParen := by decide

@[simp]
theorem kind_closeParen : closeParen.kind = .rightParen := by decide

@[simp]
theorem kind_openBracket : openBracket.kind = .leftBracket := by decide

@[simp]
theorem kind_closeBracket : closeBracket.kind = .rightBracket := by decide

@[simp]
theorem place_openParen : openParen.place = .unknown := rfl

@[simp]
theorem place_openBracket : openBracket.place = .unknown := rfl

variable {sub : Parsers} {left : Nat}

theorem readsPrimary_ident (name : Tree) :
    ReadsPrimary (primary sub left) [named .ident name] (.ident .unknown name) := by
  intro rest
  simp [primary]

theorem readsPrimary_string (s : String) :
    ReadsPrimary (primary sub left) [word .string s]
      (.literal .unknown (.str s) (.str "String")) := by
  intro rest
  simp [primary]

theorem integerLiteral_toDigits {n : Int} (hlow : 0 ≤ n) (hhigh : n ≤ Word.greatest) :
    integerLiteral (word .integer (String.ofList (Nat.toDigits 10 n.toNat))) =
      .ok (.literal .unknown (.int n) (.str "Integer")) := by
  have hfits : n.toNat < 10 ^ Reading.digitLimit := by
    have hword : n.toNat < 10 ^ 20 := by
      unfold Word.greatest at hhigh
      omega
    exact Nat.lt_of_lt_of_le hword (Nat.pow_le_pow_right (by decide) (by decide))
  have hsame : (n.toNat : Int) = n := Int.toNat_of_nonneg hlow
  simp [integerLiteral, integerOf, Reading.looseInteger_toDigits hfits, hsame, hhigh]

theorem readsPrimary_integer {n : Int} (hlow : 0 ≤ n) (hhigh : n ≤ Word.greatest) :
    ReadsPrimary (primary sub left) [word .integer (String.ofList (Nat.toDigits 10 n.toNat))]
      (.literal .unknown (.int n) (.str "Integer")) := by
  intro rest
  have hvalue := integerLiteral_toDigits hlow hhigh
  simp [primary, hvalue]

theorem readsPrimary_real {x : Float} (hx : Floating.IsNonnegative x) :
    ReadsPrimary (primary sub left) [word .real (String.ofList (realText x))]
      (.literal .unknown (.real x) (.str "Real")) := by
  intro rest
  have hvalue : realLiteral (word .real (String.ofList (realText x))) =
      .ok (.literal .unknown (.real x) (.str "Real")) := by
    simp [realLiteral, realOf, Reading.looseReal?_realText hx]
  simp [primary, hvalue]

theorem readsPrimary_null :
    ReadsPrimary (primary sub (left + 1)) [openParen, closeParen]
      (.literal .unknown .null (.str "Null")) := by
  intro rest
  simp [primary, nested, parenthesized]

-- Parentheses around an expression.
theorem readsPrimary_parens {ts : List Token} {e : Node}
    (hstart : ∃ t tail, ts = t :: tail ∧ t.StartsOperand)
    (h : ReadsUpTo (sub.expression left) 1 ts e) :
    ReadsPrimary (primary sub (left + 1)) (parens ts) e := by
  intro rest
  obtain ⟨t, tail, rfl, -, hkind⟩ := hstart
  have hne : t.kind ≠ .rightParen := by
    rintro hcontra
    simp [hcontra] at hkind
  have hread := h (closeParen :: rest) (stopsAt_cons (by decide))
  simp only [List.cons_append] at hread
  simp [primary, parens, nested, parenthesized, hne, hread]

theorem readsPrimary_array {items : List (List Token)} {results : List Node}
    (h : List.Forall₂ (ReadsItem .rightBracket (sub.expression left)) items results) :
    ReadsPrimary (primary sub (left + 1)) (openBracket :: commas items ++ [closeBracket])
      (.array .unknown (.list results)) := by
  intro rest
  have hread := loop_elements (t := closeBracket) rfl h rest
  simp [primary, nested, hread]

theorem readsPrimary_tuple {items : List (List Token)} {results : List Node}
    (h : List.Forall₂ (ReadsItem .rightParen (sub.expression left)) items results)
    (hne : results ≠ []) :
    ReadsPrimary (primary sub (left + 1)) (openParen :: tupleItems items ++ [closeParen])
      (.tuple .unknown (.list results)) := by
  intro rest
  cases h with
  | nil => exact absurd rfl hne
  | @cons ts e items results hfirst hitems =>
    obtain ⟨tail, htext, hrest⟩ := loop_moreElements (t := closeParen) rfl ts hitems rest
    have hread := hfirst.2 comma tail (.inl rfl)
    have hnext := hfirst.nextIs (comma :: tail)
    have hlist : openParen :: tupleItems (ts :: items) ++ [closeParen] ++ rest =
        openParen :: (ts ++ comma :: tail) := by
      simp only [List.cons_append, List.append_assoc, List.nil_append] at htext ⊢
      rw [htext]
    rw [hlist]
    have hinner : (parenthesized (sub.expression left) .unknown).run (ts ++ comma :: tail) =
        .ok (.tuple .unknown (.list (e :: results)), rest) := by
      rw [parenthesized, run_bind hnext]
      simp [hread, hrest]
    simp [primary, nested, hinner]

-- A sign in front of an operand.
theorem readsPrimary_unary {s : String} (hs : s ∈ Node.signs) {ts : List Token} {e : Node}
    (h : ReadsPrimary (sub.primary left) ts e) :
    ReadsPrimary (primary sub (left + 1)) (named (signKind (.str s)) (.str s) :: ts)
      (.unary .unknown (.str s) e) := by
  intro rest
  have hread := h rest
  simp only [Node.signs, List.mem_cons, List.not_mem_nil, or_false] at hs
  rcases hs with rfl | rfl | rfl <;>
    simp [primary, signKind, nested, hread, isSum, Token.isOneOf, Tree.text?]

end Grammar

end TernLang
