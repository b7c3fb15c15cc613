import TernLang.Proofs.Syntax.ParseRun
import TernLang.Proofs.Syntax.Render

-- What the loops of the grammar do on written lists of items.

namespace TernLang.Grammar

open Parse

variable {α : Type}

-- The tokens are read as `a` where a comma or the end of a list stands after them. They do not
-- begin with the token that would end it.
def ReadsItem (close : Token.Kind) (item : Parse α) (ts : List Token) (a : α) : Prop :=
  (∃ t rest, ts = t :: rest ∧ t.kind ≠ close) ∧
    ∀ t rest, t.kind = .comma ∨ t.kind = close → item.run (ts ++ t :: rest) = .ok (a, t :: rest)

theorem ReadsItem.nextIs {close : Token.Kind} {item : Parse α} {ts : List Token} {a : α}
    (h : ReadsItem close item ts a) (rest : List Token) :
    (nextIs close).run (ts ++ rest) = .ok (false, ts ++ rest) := by
  obtain ⟨⟨t, tail, rfl, hne⟩, -⟩ := h
  simp [hne]

theorem grip_eq_zero {t : Token}
    (h : t.kind = .comma ∨ t.kind = .rightParen ∨ t.kind = .rightBracket ∨ t.kind = .rightBrace ∨
      t.kind = .leftBrace ∨ t.kind = .colon ∨ t.kind = .semicolon ∨ t.kind = .endOfInput) :
    t.grip = 0 := by
  rcases h with h | h | h | h | h | h | h | h <;> simp [Token.grip, h, Token.Kind.isRelational]

open Render in
@[simp]
theorem kind_comma : comma.kind = .comma := rfl

-- Items after the first, each with a comma before it.
def preceded (items : List (List Token)) : List Token := items.flatMap (Render.comma :: ·)

theorem commas_cons (ts : List Token) (items : List (List Token)) :
    Render.commas (ts :: items) = ts ++ preceded items := by
  induction items generalizing ts with
  | nil => simp [Render.commas, preceded]
  | cons us items ih =>
    rw [Render.commas, ih us]
    · simp [preceded]
    · simp

theorem length_le_preceded (items : List (List Token)) :
    items.length ≤ (preceded items).length := by
  induction items with
  | nil => simp
  | cons ts items ih =>
    simp only [preceded, List.flatMap_cons, List.length_append, List.length_cons] at ih ⊢
    omega

section

variable {close : Token.Kind} {item : Parse α} {items : List (List Token)} {results : List α}

theorem separated_nil {t : Token} (ht : t.kind = close) (n : Nat) (rest : List Token) :
    (separated close item (n + 1)).run (t :: rest) = .ok ([], t :: rest) := by
  simp [separated, ht]

-- The items after the first are read with the commas before them.
theorem separated_preceded (hclose : close ≠ .comma) {t : Token} (ht : t.kind = close)
    (h : List.Forall₂ (ReadsItem close item) items results)
    {ts : List Token} {a : α} (hfirst : ReadsItem close item ts a) {n : Nat}
    (hn : items.length + 1 < n) (rest : List Token) :
    (separated close item n).run (ts ++ (preceded items ++ t :: rest)) =
      .ok (a :: results, t :: rest) := by
  induction h generalizing ts a n with
  | nil =>
    obtain ⟨n, rfl⟩ : ∃ m, n = m + 2 := ⟨n - 2, by simp at hn; omega⟩
    have hitem := hfirst.2 t rest (.inr ht)
    have hnext := hfirst.nextIs (t :: rest)
    simp only [preceded, List.flatMap_nil, List.nil_append]
    rw [separated, run_bind hnext]
    simp [hitem, hclose, ht, separated_nil ht]
  | @cons us b items results hnextItem _ ih =>
    obtain ⟨n, rfl⟩ : ∃ m, n = m + 1 := ⟨n - 1, by omega⟩
    have hlist : preceded (us :: items) ++ t :: rest =
        Render.comma :: (us ++ (preceded items ++ t :: rest)) := by
      simp [preceded]
    have hitem := hfirst.2 Render.comma (us ++ (preceded items ++ t :: rest)) (.inl rfl)
    have hnext := hfirst.nextIs (Render.comma :: (us ++ (preceded items ++ t :: rest)))
    have hrest := ih hnextItem (n := n) (by simp at hn; omega)
    rw [hlist, separated, run_bind hnext]
    simp [hitem, hrest]

theorem loop_separated (hclose : close ≠ .comma) {t : Token} (ht : t.kind = close)
    (h : List.Forall₂ (ReadsItem close item) items results)
    (rest : List Token) :
    (loop (separated close item)).run (Render.commas items ++ t :: rest) =
      .ok (results, t :: rest) := by
  rw [run_loop]
  cases h with
  | nil => exact separated_nil ht _ rest
  | @cons ts a items results hfirst hitems =>
    rw [commas_cons, List.append_assoc]
    apply separated_preceded hclose ht hitems hfirst
    have hlen := length_le_preceded items
    simp only [List.length_append, List.length_cons]
    obtain ⟨⟨u, us, rfl, -⟩, -⟩ := hfirst
    simp only [List.length_cons]
    omega

end

section Brackets

variable {expression : Parse Node} {items : List (List Token)} {results : List Node}

theorem elements_preceded {t : Token} (ht : t.kind = .rightBracket)
    (h : List.Forall₂ (ReadsItem .rightBracket expression) items results)
    {ts : List Token} {a : Node} (hfirst : ReadsItem .rightBracket expression ts a) {n : Nat}
    (hn : items.length < n) (rest : List Token) :
    (elements expression n).run (ts ++ (preceded items ++ t :: rest)) =
      .ok (a :: results, t :: rest) := by
  induction h generalizing ts a n with
  | nil =>
    obtain ⟨n, rfl⟩ : ∃ m, n = m + 1 := ⟨n - 1, by omega⟩
    have hitem := hfirst.2 t rest (.inr ht)
    have hnext := hfirst.nextIs (t :: rest)
    simp only [preceded, List.flatMap_nil, List.nil_append]
    rw [elements, run_bind hnext]
    simp [hitem, ht]
  | @cons us b items results hnextItem _ ih =>
    obtain ⟨n, rfl⟩ : ∃ m, n = m + 1 := ⟨n - 1, by omega⟩
    have hlist : preceded (us :: items) ++ t :: rest =
        Render.comma :: (us ++ (preceded items ++ t :: rest)) := by
      simp [preceded]
    have hitem := hfirst.2 Render.comma (us ++ (preceded items ++ t :: rest)) (.inl rfl)
    have hnext := hfirst.nextIs (Render.comma :: (us ++ (preceded items ++ t :: rest)))
    have hrest := ih hnextItem (n := n) (by simp at hn; omega)
    rw [hlist, elements, run_bind hnext]
    simp [hitem, hrest]

theorem loop_elements {t : Token} (ht : t.kind = .rightBracket)
    (h : List.Forall₂ (ReadsItem .rightBracket expression) items results) (rest : List Token) :
    (loop (elements expression)).run (Render.commas items ++ t :: rest) =
      .ok (results, t :: rest) := by
  rw [run_loop]
  cases h with
  | nil => simp [Render.commas, elements, ht]
  | @cons ts a items results hfirst hitems =>
    rw [commas_cons, List.append_assoc]
    apply elements_preceded ht hitems hfirst
    have hlen := length_le_preceded items
    simp only [List.length_append]
    omega

theorem moreElements_preceded {t : Token} (ht : t.kind = .rightParen)
    (h : List.Forall₂ (ReadsItem .rightParen expression) items results) {n : Nat}
    (hn : items.length < n) (rest : List Token) :
    (moreElements expression n).run (preceded items ++ t :: rest) = .ok (results, t :: rest) := by
  induction h generalizing n with
  | nil =>
    obtain ⟨n, rfl⟩ : ∃ m, n = m + 1 := ⟨n - 1, by omega⟩
    simp [preceded, moreElements, ht]
  | @cons us b items results hitem hitems ih =>
    obtain ⟨n, rfl⟩ : ∃ m, n = m + 1 := ⟨n - 1, by omega⟩
    have hrest := ih (n := n) (by simp at hn; omega)
    have hread : expression.run (us ++ (preceded items ++ t :: rest)) =
        .ok (b, preceded items ++ t :: rest) := by
      cases items with
      | nil => exact hitem.2 t rest (.inr ht)
      | cons vs items => exact hitem.2 Render.comma _ (.inl rfl)
    have hlist : preceded (us :: items) ++ t :: rest =
        Render.comma :: (us ++ (preceded items ++ t :: rest)) := by
      simp [preceded]
    obtain ⟨⟨u, tail, rfl, hu⟩, -⟩ := hitem
    rw [hlist]
    simp only [List.cons_append] at hread ⊢
    simp [moreElements, hu, hread, hrest]

-- What stands between the parentheses of a tuple, after the first element.
theorem loop_moreElements {t : Token} (ht : t.kind = .rightParen) (ts : List Token)
    (h : List.Forall₂ (ReadsItem .rightParen expression) items results) (rest : List Token) :
    ∃ tail, Render.tupleItems (ts :: items) ++ t :: rest = ts ++ Render.comma :: tail ∧
      (loop (moreElements expression)).run (Render.comma :: tail) = .ok (results, t :: rest) := by
  cases h with
  | nil => exact ⟨t :: rest, by simp [Render.tupleItems], by simp [run_loop, moreElements, ht]⟩
  | @cons us b items results hitem hitems =>
    refine ⟨us ++ (preceded items ++ t :: rest), ?_, ?_⟩
    · rw [Render.tupleItems, commas_cons]
      · simp [preceded]
      · simp
    · have hlist : Render.comma :: (us ++ (preceded items ++ t :: rest)) =
          preceded (us :: items) ++ t :: rest := by
        simp [preceded]
      rw [run_loop, hlist]
      apply moreElements_preceded ht (.cons hitem hitems)
      have hlen := length_le_preceded (us :: items)
      simp only [List.length_append] at hlen ⊢
      omega

end Brackets

-- Nothing here belongs to a conditional that stands before it.
def NoElse (ts : List Token) : Prop :=
  ∀ t ∈ ts.head?, (t.kind = .keyword && t.isOneOf ["else"]) = false

-- The tokens are read as `a` whatever stands after them that is no second half of a conditional.
-- The first of them shows that they begin an item.
def ReadsWhole (begins : Token → Prop) (item : Parse α) (ts : List Token) (a : α) : Prop :=
  (∃ t rest, ts = t :: rest ∧ begins t) ∧
    ∀ rest, NoElse rest → item.run (ts ++ rest) = .ok (a, rest)

theorem length_le_flatten {begins : Token → Prop} {item : Parse α} {items : List (List Token)}
    {results : List α} (h : List.Forall₂ (ReadsWhole begins item) items results) :
    items.length ≤ items.flatten.length := by
  induction h with
  | nil => simp
  | cons hitem _ ih =>
    obtain ⟨⟨t, rest, rfl, -⟩, -⟩ := hitem
    simp only [List.length_cons, List.flatten_cons, List.length_append]
    omega

-- What follows an item is no second half of a conditional.
theorem noElse_flatten {begins : Token → Prop} {item : Parse α} {items : List (List Token)}
    {results : List α}
    (hbegins : ∀ t, begins t → (t.kind = .keyword && t.isOneOf ["else"]) = false)
    (h : List.Forall₂ (ReadsWhole begins item) items results) {rest : List Token}
    (hrest : NoElse rest) : NoElse (items.flatten ++ rest) := by
  cases h with
  | nil => exact hrest
  | cons hitem _ =>
    obtain ⟨⟨t, tail, rfl, ht⟩, -⟩ := hitem
    intro u hu
    simp only [List.flatten_cons, List.cons_append, List.head?_cons, Option.mem_some_iff] at hu
    exact hu ▸ hbegins t ht

-- A token that begins an item of a list up to a token of the given kind.
def Begins (close : Token.Kind) (t : Token) : Prop :=
  t.kind ≠ close ∧ t.kind ≠ .semicolon ∧ (t.kind = .keyword && t.isOneOf ["else"]) = false

theorem loop_upTo {close : Token.Kind} {item : Parse α} {items : List (List Token)}
    {results : List α} (h : List.Forall₂ (ReadsWhole (Begins close) item) items results)
    {t : Token} (ht : t.kind = close) (hkeyword : t.kind ≠ .keyword) (rest : List Token) :
    (loop (upTo close item)).run (items.flatten ++ t :: rest) = .ok (results, t :: rest) := by
  have hrun : ∀ n, items.length < n →
      (upTo close item n).run (items.flatten ++ t :: rest) = .ok (results, t :: rest) := by
    intro n hn
    induction h generalizing n with
    | nil =>
      obtain ⟨n, rfl⟩ : ∃ m, n = m + 1 := ⟨n - 1, by omega⟩
      simp [upTo, ht]
    | @cons us b items results hitem hitems ih =>
      obtain ⟨n, rfl⟩ : ∃ m, n = m + 1 := ⟨n - 1, by omega⟩
      have hnone : NoElse (t :: rest) := by
        intro u hu
        simp only [List.head?_cons, Option.mem_some_iff] at hu
        simp [← hu, hkeyword]
      have hafter := noElse_flatten (fun t h => h.2.2) hitems hnone
      have hread := hitem.2 _ hafter
      have hmore := ih n (by simp at hn; omega)
      obtain ⟨⟨u, us, rfl, hu, -⟩, -⟩ := hitem
      simp only [List.flatten_cons, List.append_assoc, List.cons_append] at hread ⊢
      simp [upTo, hu, hread, hmore]
  rw [run_loop]
  apply hrun
  have hlen := length_le_flatten h
  simp only [List.length_append]
  omega

theorem loop_sequence {done : Option Token → Bool} {close : Token.Kind} {statement : Parse Node}
    {items : List (List Token)} {results : List Node}
    (h : List.Forall₂ (ReadsWhole (Begins close) statement) items results)
    (hgo : ∀ t : Token, t.kind ≠ close → done (some t) = false) {rest : List Token}
    (hdone : done rest.head? = true) (hrest : NoElse rest) :
    (loop (sequence done statement)).run (items.flatten ++ rest) = .ok (results, rest) := by
  have hrun : ∀ n, items.length < n →
      (sequence done statement n).run (items.flatten ++ rest) = .ok (results, rest) := by
    intro n hn
    induction h generalizing n with
    | nil =>
      obtain ⟨n, rfl⟩ : ∃ m, n = m + 1 := ⟨n - 1, by omega⟩
      simp [sequence, hdone]
    | @cons us b items results hitem hitems ih =>
      obtain ⟨n, rfl⟩ : ∃ m, n = m + 1 := ⟨n - 1, by omega⟩
      have hread := hitem.2 _ (noElse_flatten (fun t h => h.2.2) hitems hrest)
      have hmore := ih n (by simp at hn; omega)
      obtain ⟨⟨u, us, rfl, hu, hsemi, -⟩, -⟩ := hitem
      simp only [List.flatten_cons, List.append_assoc, List.cons_append] at hread ⊢
      simp [sequence, hgo u hu, hsemi, hread, hmore]
  rw [run_loop]
  apply hrun
  have hlen := length_le_flatten h
  simp only [List.length_append]
  omega

end TernLang.Grammar
