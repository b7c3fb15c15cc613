import TernLang.Proofs.Syntax.ListRun

-- What the levels of the grammar of expressions do on written expressions. An expression that is
-- read at one level is read at every looser level too.

namespace TernLang.Grammar

open Parse

-- The tokens are read as `e` if nothing that holds on so tightly stands after them.
def ReadsUpTo (parser : Parse Node) (tightness : Nat) (ts : List Token) (e : Node) : Prop :=
  ∀ rest, StopsAt tightness rest → parser.run (ts ++ rest) = .ok (e, rest)

-- The tokens are read whatever stands after them.
def ReadsPrimary (primary : Parse Node) (ts : List Token) (e : Node) : Prop :=
  ∀ rest, primary.run (ts ++ rest) = .ok (e, rest)

-- The first tokens are read as the first operand, and the loop over the others comes to `e` in so
-- many rounds. It may go on from there.
def ReadsRounds (first : Parse Node) (round : Nat → Node → Parse Node) (ts rest : List Token)
    (e : Node) : Prop :=
  ∃ node tail rounds, first.run (ts ++ rest) = .ok (node, tail) ∧
    rounds + rest.length ≤ tail.length ∧
      ∀ n, (round (n + rounds) node).run tail = (round n e).run rest

variable {first : Parse Node} {round : Nat → Node → Parse Node} {ts rest : List Token} {e : Node}

-- A loop that needs no round.
theorem ReadsRounds.none (h : first.run (ts ++ rest) = .ok (e, rest)) :
    ReadsRounds first round ts rest e :=
  ⟨e, rest, 0, h, by omega, fun _ => rfl⟩

-- One more round over `more`, which makes `e'` of `e`.
theorem ReadsRounds.step {more : List Token} {e' : Node}
    (h : ReadsRounds first round ts (more ++ rest) e) (hmore : more ≠ [])
    (hround : ∀ n, (round (n + 1) e).run (more ++ rest) = (round n e').run rest) :
    ReadsRounds first round (ts ++ more) rest e' := by
  obtain ⟨node, tail, rounds, hfirst, hlen, hrounds⟩ := h
  have hpos := List.length_pos_iff.2 hmore
  refine ⟨node, tail, rounds + 1, ?_, ?_, ?_⟩
  · rw [List.append_assoc]
    exact hfirst
  · rw [List.length_append] at hlen
    omega
  · intro n
    rw [Nat.add_comm rounds 1, ← Nat.add_assoc, hrounds (n + 1), hround n]

-- The whole loop, where it does not go on.
theorem ReadsRounds.run (h : ReadsRounds first round ts rest e)
    (hstop : ∀ n, (round n e).run rest = .ok (e, rest)) :
    (first >>= fun node => loop fun n => round n node).run (ts ++ rest) = .ok (e, rest) := by
  obtain ⟨node, tail, rounds, hfirst, hlen, hrounds⟩ := h
  obtain ⟨n, hn⟩ : ∃ n, tail.length + 1 = n + rounds := ⟨tail.length + 1 - rounds, by omega⟩
  rw [run_bind hfirst, run_loop, hn, hrounds, hstop]

-- A chain of operators of the given tightness over the operands above it.
def ReadsChain (isOp : Token → Bool) (make : Token → Node → Node → Node) (operand : Parse Node)
    (tightness : Nat) (ts : List Token) (e : Node) : Prop :=
  ∀ rest, StopsAt (tightness + 1) rest → ReadsRounds operand (chain isOp make operand) ts rest e

section Chain

variable {isOp : Token → Bool} {make : Token → Node → Node → Node} {operand : Parse Node}
  {tightness : Nat} {e' : Node}

theorem ReadsUpTo.chain (h : ReadsUpTo operand (tightness + 1) ts e) :
    ReadsChain isOp make operand tightness ts e :=
  fun rest hrest => .none (h rest hrest)

-- An operator with the operand after it.
theorem ReadsChain.operator (h : ReadsChain isOp make operand tightness ts e) {t : Token}
    (hop : isOp t) (hgrip : t.grip = tightness) {us : List Token}
    (hright : ReadsUpTo operand (tightness + 1) us e') :
    ReadsChain isOp make operand tightness (ts ++ t :: us) (make t e e') := by
  intro rest hrest
  apply ReadsRounds.step (h _ (stopsAt_cons (by omega))) (by simp)
  intro n
  exact chain_operator hop (hright rest hrest) n e

theorem ReadsChain.run (h : ReadsChain isOp make operand tightness ts e)
    (hop : ∀ t : Token, isOp t → tightness ≤ t.grip) :
    ReadsUpTo (leftAssociative isOp make operand) tightness ts e := by
  intro rest hrest
  apply ReadsRounds.run (h rest (hrest.mono (Nat.le_succ _)))
  intro n
  apply chain_stop
  intro t ht
  have hlt := hrest t ht
  by_contra hcontra
  have hle := hop t (by simpa using hcontra)
  omega

end Chain

variable {expression primary : Parse Node}

-- Members, indices, calls and conversions after an operand, where `ok` holds of what stands after
-- them.
def ReadsPostfix (expression primary : Parse Node) (ok : List Token → Prop) (ts : List Token)
    (e : Node) : Prop :=
  ∀ rest, ok rest → ReadsRounds (conversion primary) (postfixes expression primary) ts rest e

theorem ReadsPostfix.operand (h : ReadsPostfix expression primary NoConversion ts e) :
    ReadsUpTo (operand expression primary) 5 ts e := by
  intro rest hrest
  apply ReadsRounds.run (h rest (hrest.noConversion (Nat.le_refl 5)))
  intro n
  exact postfixes_stop hrest n e

theorem grip_of_isProduct {t : Token} (h : isProduct t) : t.grip = 4 := by
  have hkind : t.kind = .operator := by
    simp only [isProduct, Bool.and_eq_true, decide_eq_true_eq] at h
    exact h.1
  simp [Token.grip, hkind, h]

theorem grip_of_isSum {t : Token} (h : isSum t) : 3 ≤ t.grip := by
  have hkind : t.kind = .operator := by
    simp only [isSum, Bool.and_eq_true, decide_eq_true_eq] at h
    exact h.1
  simp only [Token.grip, hkind, h]
  split <;> simp

theorem grip_of_isRelation {t : Token} (h : isRelation t) : t.grip = 2 := by
  unfold isRelation Token.Kind.isRelational at h
  unfold Token.grip
  split at h <;> simp_all [Token.Kind.isRelational]

-- The ways in which an expression is read, by its tightness.
inductive Reads (expression primary : Parse Node) : Nat → List Token → Node → Prop where
  | primary {ts : List Token} {e : Node} (h : ReadsPrimary primary ts e) :
    Reads expression primary 6 ts e
  | postfixes {ts : List Token} {e : Node}
    (h : ReadsPostfix expression primary (fun rest => e.isMember → NoConversion rest) ts e) :
    Reads expression primary 5 ts e
  | product {ts : List Token} {e : Node}
    (h : ReadsChain isProduct makeBinary (operand expression primary) 4 ts e) :
    Reads expression primary 4 ts e
  | sum {ts : List Token} {e : Node}
    (h : ReadsChain isSum makeBinary (product expression primary) 3 ts e) :
    Reads expression primary 3 ts e
  | relation {ts : List Token} {e : Node}
    (h : ReadsChain isRelation makeCompare (Grammar.sum expression primary) 2 ts e) :
    Reads expression primary 2 ts e
  | assignment {ts : List Token} {e : Node}
    (h : ReadsUpTo (assignment expression primary) 1 ts e) : Reads expression primary 1 ts e

namespace Reads

variable {tightness : Nat}

theorem toPrimary (h : Reads expression primary tightness ts e) (hle : 6 ≤ tightness) :
    ReadsPrimary primary ts e := by
  cases h with
  | primary h => exact h
  | _ => omega

theorem toPostfix (h : Reads expression primary tightness ts e) (hle : 5 ≤ tightness) :
    ReadsPostfix expression primary NoConversion ts e := by
  cases h with
  | primary h => exact fun rest hrest => .none (conversion_none (h rest) hrest)
  | postfixes h => exact fun rest hrest => h rest fun _ => hrest
  | _ => omega

theorem toProductChain (h : Reads expression primary tightness ts e) (hle : 4 ≤ tightness) :
    ReadsChain isProduct makeBinary (operand expression primary) 4 ts e := by
  rcases Nat.lt_or_eq_of_le hle with hlt | rfl
  · exact (h.toPostfix hlt).operand.chain
  · cases h with
    | product h => exact h

theorem toProduct (h : Reads expression primary tightness ts e) (hle : 4 ≤ tightness) :
    ReadsUpTo (Grammar.product expression primary) 4 ts e :=
  (h.toProductChain hle).run fun _ ht => Nat.le_of_eq (grip_of_isProduct ht).symm

theorem toSumChain (h : Reads expression primary tightness ts e) (hle : 3 ≤ tightness) :
    ReadsChain isSum makeBinary (Grammar.product expression primary) 3 ts e := by
  rcases Nat.lt_or_eq_of_le hle with hlt | rfl
  · exact (h.toProduct hlt).chain
  · cases h with
    | sum h => exact h

theorem toSum (h : Reads expression primary tightness ts e) (hle : 3 ≤ tightness) :
    ReadsUpTo (Grammar.sum expression primary) 3 ts e :=
  (h.toSumChain hle).run fun _ ht => grip_of_isSum ht

theorem toRelationChain (h : Reads expression primary tightness ts e) (hle : 2 ≤ tightness) :
    ReadsChain isRelation makeCompare (Grammar.sum expression primary) 2 ts e := by
  rcases Nat.lt_or_eq_of_le hle with hlt | rfl
  · exact (h.toSum hlt).chain
  · cases h with
    | relation h => exact h

theorem toRelation (h : Reads expression primary tightness ts e) (hle : 2 ≤ tightness) :
    ReadsUpTo (Grammar.relation expression primary) 2 ts e :=
  (h.toRelationChain hle).run fun _ ht => Nat.le_of_eq (grip_of_isRelation ht).symm

-- Every expression is read as a whole.
theorem toAssignment (h : Reads expression primary tightness ts e) :
    ReadsUpTo (Grammar.assignment expression primary) 1 ts e := by
  rcases Nat.lt_or_ge tightness 2 with hlt | hle
  · cases h with
    | assignment h => exact h
    | _ => omega
  · intro rest hrest
    have hrun := h.toRelation hle rest (hrest.mono (by decide))
    have hnext : (rest.head?.any fun t => t.kind = .assign) = false := by
      cases rest with
      | nil => rfl
      | cons t rest =>
        have hgrip := hrest t rfl
        have hkind : t.kind ≠ .assign := by
          intro hkind
          simp [Token.grip, hkind] at hgrip
        simp [hkind]
    simp [Grammar.assignment, hrun, hnext]

end Reads

end TernLang.Grammar
