import Mathlib.Tactic.Common
import TernLang.Grammar.Statement

-- What the parsers of the grammar do on lists of tokens whose front is known. Each lemma runs one
-- step of a parser; the parsers inside it are given by what they do.

namespace TernLang

namespace Token

-- How tightly a token holds on to the expression before it, as a number from 5 for what follows an
-- operand down to 1 for an assignment; 0 if it does not go on with an expression.
def grip (t : Token) : Nat :=
  match t.kind with
  | .dot | .leftBracket | .leftParen => 5
  | .keyword => if t.isOneOf ["as", "to"] then 5 else 0
  | .operator => if Grammar.isProduct t then 4 else if Grammar.isSum t then 3 else 0
  | .assign => 1
  | kind => if kind.isRelational then 2 else 0

end Token

namespace Grammar

-- The tokens do not go on with an expression of this tightness.
def StopsAt (tightness : Nat) (ts : List Token) : Prop := ∀ t ∈ ts.head?, t.grip < tightness

theorem StopsAt.mono {m n : Nat} {ts : List Token} (h : StopsAt m ts) (hmn : m ≤ n) :
    StopsAt n ts := by
  intro t ht
  exact Nat.lt_of_lt_of_le (h t ht) hmn

theorem stopsAt_cons {n : Nat} {t : Token} {ts : List Token} (h : t.grip < n) :
    StopsAt n (t :: ts) := by
  intro u hu
  simp only [List.head?_cons, Option.mem_some_iff] at hu
  exact hu ▸ h

-- A conversion would not go on here.
def NoConversion (ts : List Token) : Prop :=
  ∀ t ∈ ts.head?, (t.kind = .keyword && t.isOneOf ["as", "to"]) = false

theorem noConversion_cons {t : Token} (ts : List Token) (h : t.kind ≠ .keyword) :
    NoConversion (t :: ts) := by
  intro u hu
  simp only [List.head?_cons, Option.mem_some_iff] at hu
  simp [← hu, h]

theorem StopsAt.noConversion {n : Nat} {ts : List Token} (h : StopsAt n ts) (hn : n ≤ 5) :
    NoConversion ts := by
  intro t ht
  have hlt := h t ht
  unfold Token.grip at hlt
  by_contra hcontra
  simp only [Bool.not_eq_false, Bool.and_eq_true, decide_eq_true_eq] at hcontra
  rw [hcontra.1] at hlt
  simp only [hcontra.2, ite_true] at hlt
  omega

namespace Parse

variable {α β : Type}

@[simp]
theorem pure_ok (a : α) : (pure a : Except Refusal α) = .ok a := rfl

@[simp]
theorem map_ok (f : α → β) (a : α) : f <$> (.ok a : Except Refusal α) = .ok (f a) := rfl

@[simp]
theorem bind_ok (a : α) (f : α → Except Refusal β) : (.ok a : Except Refusal α) >>= f = f a := rfl

theorem run_bind {p : Parse α} {f : α → Parse β} {ts rest : List Token} {a : α}
    (h : p.run ts = .ok (a, rest)) : (p >>= f).run ts = (f a).run rest := by
  rw [StateT.run_bind, h]
  rfl

@[simp]
theorem run_peek (ts : List Token) : peek.run ts = .ok (ts.head?, ts) := rfl

@[simp]
theorem run_advance (ts : List Token) : advance.run ts = .ok ((), ts.tail) := rfl

@[simp]
theorem run_nextIs (kind : Token.Kind) (ts : List Token) :
    (nextIs kind).run ts = .ok (ts.head?.any (·.kind = kind), ts) := rfl

@[simp]
theorem run_nextIsWord (words : List String) (ts : List Token) :
    (nextIsWord words).run ts =
      .ok (ts.head?.any (fun t => t.kind = .keyword && t.isOneOf words), ts) := rfl

theorem run_loop (body : Nat → Parse α) (ts : List Token) :
    (loop body).run ts = (body (ts.length + 1)).run ts := rfl

@[simp]
theorem run_expect {kind : Token.Kind} {t : Token} (h : t.kind = kind) (ts : List Token) :
    (expect kind).run (t :: ts) = .ok (t, ts) := by
  subst h
  simp [expect]

@[simp]
theorem run_expectWord {word : String} {t : Token} (hk : t.kind = .keyword)
    (ht : t.text = .str word) (ts : List Token) :
    (expectWord word).run (t :: ts) = .ok (t, ts) := by
  simp [expectWord, hk, ht]

theorem run_discard {p : Parse α} {ts rest : List Token} {a : α} (h : p.run ts = .ok (a, rest)) :
    (discard p).run ts = .ok ((), rest) := by
  have hmap : (discard p).run ts = (p >>= fun _ => pure ()).run ts := rfl
  rw [hmap, run_bind h]
  rfl

@[simp]
theorem run_discard_expect {kind : Token.Kind} {t : Token} (h : t.kind = kind)
    (ts : List Token) : (discard (expect kind)).run (t :: ts) = .ok ((), ts) :=
  run_discard (run_expect h ts)

@[simp]
theorem run_discard_expectWord {word : String} {t : Token} (hk : t.kind = .keyword)
    (ht : t.text = .str word) (ts : List Token) :
    (discard (expectWord word)).run (t :: ts) = .ok ((), ts) :=
  run_discard (run_expectWord hk ht ts)

theorem run_skip {kind : Token.Kind} {t : Token} (h : t.kind = kind) (ts : List Token) :
    (skip kind).run (t :: ts) = .ok ((), ts) := by
  simp [skip, h]

end Parse

open Parse

section Chains

variable {isOp : Token → Bool} {make : Token → Node → Node → Node} {operand : Parse Node}

-- An operator and its right operand become part of the left operand.
theorem chain_operator {t : Token} {ts rest : List Token} {right : Node} (hop : isOp t)
    (h : operand.run ts = .ok (right, rest)) (n : Nat) (left : Node) :
    (chain isOp make operand (n + 1) left).run (t :: ts) =
      (chain isOp make operand n (make t left right)).run rest := by
  simp [chain, hop, h]

theorem chain_stop {ts : List Token} (hstop : ∀ t ∈ ts.head?, isOp t = false) (n : Nat)
    (node : Node) : (chain isOp make operand n node).run ts = .ok (node, ts) := by
  cases n with
  | zero => rfl
  | succ n =>
    cases ts with
    | nil => simp [chain]
    | cons t ts =>
      have hop : isOp t = false := hstop t rfl
      simp [chain, hop]

end Chains

section Postfixes

variable {expression primary : Parse Node}

theorem conversion_none {ts rest : List Token} {n : Node}
    (h : primary.run ts = .ok (n, rest)) (hrest : NoConversion rest) :
    (conversion primary).run ts = .ok (n, rest) := by
  cases rest with
  | nil => simp [conversion, h]
  | cons t rest =>
    have ht := hrest t rfl
    simp [conversion, h, ht]

theorem conversion_some {ts rest : List Token} {t : Token} {value type : Node}
    (hvalue : primary.run ts = .ok (value, t :: rest)) (hkind : t.kind = .keyword)
    (hword : t.isOneOf ["as", "to"]) {after : List Token}
    (htype : primary.run rest = .ok (type, after)) :
    (conversion primary).run ts = .ok (.convert t.place value type, after) := by
  simp [conversion, hvalue, hkind, hword, htype]

theorem postfixes_stop {ts : List Token} (hstop : StopsAt 5 ts) (n : Nat) (node : Node) :
    (postfixes expression primary n node).run ts = .ok (node, ts) := by
  cases n with
  | zero => rfl
  | succ n =>
    cases ts with
    | nil => simp [postfixes]
    | cons t ts =>
      have hgrip := hstop t rfl
      have hword := hstop.noConversion (Nat.le_refl 5) t rfl
      unfold Token.grip at hgrip
      simp only [postfixes, StateT.run_bind, run_peek, bind_ok, List.head?_cons]
      split <;> simp_all

theorem postfixes_member {t : Token} (hkind : t.kind = .dot) {ts rest : List Token}
    {property : Node} (h : (conversion primary).run ts = .ok (property, rest)) (n : Nat)
    (node : Node) :
    (postfixes expression primary (n + 1) node).run (t :: ts) =
      (postfixes expression primary n (.member t.place node property)).run rest := by
  simp [postfixes, hkind, h]

theorem postfixes_index {t close : Token} (hkind : t.kind = .leftBracket)
    (hclose : close.kind = .rightBracket) {ts rest : List Token} {index : Node}
    (h : expression.run ts = .ok (index, close :: rest)) (n : Nat) (node : Node) :
    (postfixes expression primary (n + 1) node).run (t :: ts) =
      (postfixes expression primary n (.index t.place node index)).run rest := by
  simp [postfixes, hkind, h, hclose]

theorem postfixes_call {t close : Token} (hkind : t.kind = .leftParen)
    (hclose : close.kind = .rightParen) {ts rest : List Token} {args : List Node}
    (h : (loop (separated .rightParen expression)).run ts = .ok (args, close :: rest)) (n : Nat)
    (node : Node) :
    (postfixes expression primary (n + 1) node).run (t :: ts) =
      (postfixes expression primary n (.call t.place node (.list args))).run rest := by
  simp [postfixes, hkind, h, hclose]

theorem postfixes_convert {t : Token} (hkind : t.kind = .keyword)
    (hword : t.isOneOf ["as", "to"]) {ts rest : List Token} {type : Node}
    (h : primary.run ts = .ok (type, rest)) (n : Nat) (node : Node) :
    (postfixes expression primary (n + 1) node).run (t :: ts) =
      (postfixes expression primary n (.convert t.place node type)).run rest := by
  simp [postfixes, hkind, hword, h]

end Postfixes

end Grammar

end TernLang
