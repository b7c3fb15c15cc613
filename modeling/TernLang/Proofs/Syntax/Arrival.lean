import TernLang.Proofs.Syntax.Consumption
import TernLang.Proofs.Syntax.ParserOutput

-- Where reading a list of tokens ends: whatever the tokens are, the rules come to an end, never go
-- back or beyond the list, and have read all of the input if they accept it.

namespace TernLang

namespace Cursor

open Grammar (Refusal)

variable {α β : Type}

-- The end of a run that is not spent.
def ended (outcome : Except Failure α) (last : Cursor) : Outcome α :=
  match outcome with
  | .ok a => .ok a last
  | .error f => .error (.failed f) last

-- How tokens are refused: with an error of the grammar, or because the text of a numeric token is
-- no number.
def Rejects (tokens : List Token) : Failure → Prop
  | .error e => e.cause.cls = .parse
  | .fault f => ∃ t ∈ tokens, Unreadable f t ∧ ∀ s, t.text = .str s → f = .unreadableNumber

-- A position after another one, in the same list and the same input.
structure After (r last : Cursor) : Prop where
  tokens : last.tokens = r.tokens
  forward : r.pos ≤ last.pos
  inside : last.pos ≤ r.pos + r.ahead.length
  bounded : r.pos ≤ r.tokens.length → last.pos ≤ r.tokens.length

theorem eq_unreadableNumber {f : Fault} {t : Token} {s : String} (h : Unreadable f t)
    (htext : t.text = .str s) : f = .unreadableNumber := by
  rcases h with ⟨-, h⟩ | ⟨-, h⟩
  · rw [htext, Grammar.integerOf] at h
    split at h
    · cases h
    all_goals exact (Except.error.inj h).symm
  · rw [htext, Grammar.realOf] at h
    split at h
    · cases h
    · exact (Except.error.inj h).symm

section Ends

variable {r s : Cursor} {strict : Bool} {reply : Reply α} {x y : Outcome α} {refusal : Refusal}

theorem Allows.rejects (h : r.Allows refusal) (final : Place) :
    Rejects r.ahead (refusal.toFailure final) := by
  cases refusal with
  | error cause token => cases token <;> exact h
  | fault f =>
    obtain ⟨t, ht, hbad⟩ := h
    exact ⟨t, ht, hbad, fun s hs => eq_unreadableNumber hbad hs⟩

theorem pos_add_ahead_le (h : r.pos ≤ r.tokens.length) :
    r.pos + r.ahead.length ≤ r.tokens.length := by
  have hle : r.ahead.length ≤ (r.tokens.drop r.pos).length :=
    (List.takeWhile_prefix _).length_le
  rw [List.length_drop] at hle
  omega

theorem after_stopped {j : Nat} (hj : j ≤ r.ahead.length) (depth : Int) :
    After r (r.stopped j depth) where
  tokens := rfl
  forward := Nat.le_add_right _ _
  inside := Nat.add_le_add_left hj _
  bounded h := Nat.le_trans (Nat.add_le_add_left hj _) (pos_add_ahead_le h)

-- What the two runs have come to.
structure Arrives (strict : Bool) (r : Cursor) (outcome : Except Failure α) (last : Cursor) :
    Prop where
  after : After r last
  accepted : ∀ a, outcome = .ok a → (strict → r.pos < last.pos) ∧ last.depth = r.depth
  refused : ∀ f, outcome = .error f → Rejects r.ahead f

theorem Ends.arrives (h : Ends strict r s reply x y) (halike : Alike r s) :
    ∃ outcome last, x = ended outcome last ∧ y = ended outcome { last with tokens := s.tokens } ∧
      Arrives strict r outcome last := by
  induction h with
  | @ok a j le moves =>
    refine ⟨.ok a, r.moved j, rfl, ?_, after_stopped le r.depth, fun b hb => ⟨fun h => ?_, rfl⟩,
      fun f hf => by cases hf⟩
    · simp only [ended, moved, halike.pos, halike.depth]
    · have := moves h
      simp only [moved]
      omega
  | refused j depth allowed le =>
    refine ⟨.error _, r.stopped j depth, rfl, ?_, after_stopped le depth, fun b hb => (by cases hb),
      fun f hf => ?_⟩
    · simp only [ended, stopped, halike.pos]
    · exact Except.error.inj hf ▸ allowed.rejects _
  | overflow _ ih => exact ih

theorem Ends.model {outcome : Except Failure α} {last : Cursor}
    (h : Ends strict r s reply (ended outcome last) y) :
    (∃ token, reply = .error (.error .nestsTooDeeply token)) ∨
      (∃ a rest, reply = .ok (a, rest) ∧ outcome = .ok a) ∨
      ∃ refusal, reply = .error refusal ∧
        outcome = .error (refusal.toFailure r.final.place) := by
  generalize hx : ended outcome last = x at h
  cases h with
  | ok a le moves =>
    cases outcome with
    | ok b => exact .inr (.inl ⟨a, _, rfl, congrArg Except.ok (EStateM.Result.ok.inj hx).1⟩)
    | error f => cases hx
  | refused j depth allowed le =>
    cases outcome with
    | ok b => cases hx
    | error f =>
      have hf := Stop.failed.inj (EStateM.Result.error.inj hx).1
      exact .inr (.inr ⟨_, rfl, congrArg Except.error hf⟩)
  | overflow => exact .inl ⟨_, rfl⟩

end Ends

theorem ended_inj {outcome outcome' : Except Failure α} {last last' : Cursor}
    (h : ended outcome last = ended outcome' last') : outcome = outcome' ∧ last = last' := by
  cases outcome <;> cases outcome' <;> simp_all [ended]

-- With rounds for all tokens ahead, the rest of the rounds and the rest of the list do not matter.
theorem exists_arrives {strict : Bool} {r : Cursor} {p : Nat → Parse α}
    (h : ∀ m n, r.ahead.length < m → r.ahead.length < n →
      ∃ g : Grammar.Parse α, Meets (r.ahead.length + 1) r.left strict g (p m) (p n)) :
    ∃ outcome last, (∀ n, r.ahead.length < n → p n r = ended outcome last) ∧
      (∀ s n, Alike r s → r.ahead.length < n →
        p n s = ended outcome { last with tokens := s.tokens }) ∧
      Arrives strict r outcome last := by
  have hboth (s : Cursor) (n : Nat) (halike : Alike r s) (hn : r.ahead.length < n) :
      ∃ outcome last, p (r.ahead.length + 1) r = ended outcome last ∧
        p n s = ended outcome { last with tokens := s.tokens } ∧
        Arrives strict r outcome last := by
    obtain ⟨g, hmeets⟩ := h (r.ahead.length + 1) n (Nat.lt_succ_self _) hn
    exact (hmeets r s ⟨halike, rfl, Nat.lt_succ_self _⟩).arrives halike
  obtain ⟨outcome, last, hrun, -, harrives⟩ := hboth r _ (.refl r) (Nat.lt_succ_self _)
  have hevery (s : Cursor) (n : Nat) (halike : Alike r s) (hn : r.ahead.length < n) :
      p n s = ended outcome { last with tokens := s.tokens } := by
    obtain ⟨outcome', last', hrun', hs, -⟩ := hboth s n halike hn
    obtain ⟨rfl, rfl⟩ := ended_inj (hrun.symm.trans hrun')
    exact hs
  have hback : { last with tokens := r.tokens } = last := by rw [← harrives.after.tokens]
  exact ⟨outcome, last, fun n hn => (hevery r n (.refl r) hn).trans (congrArg _ hback), hevery,
    harrives⟩

section Programs

theorem exists_of_bind_ok {m : Parse α} {f : α → Parse β} {b : β} {r last : Cursor}
    (h : (m >>= f) r = .ok b last) : ∃ a q, m r = .ok a q ∧ f a q = .ok b last := by
  cases hm : m r with
  | ok a q =>
    simp only [Bind.bind, EStateM.bind, hm] at h
    exact ⟨a, q, rfl, h⟩
  | error e q =>
    simp only [Bind.bind, EStateM.bind, hm] at h
    cases h

-- A sequence that is accepted has been read up to its end.
theorem done_of_sequence {done : Token → Bool} {statement : Parse Node} {n : Nat} {r last : Cursor}
    {ss : List Node} (h : sequence done statement n r = .ok ss last) : done last.next := by
  induction n generalizing r ss with
  | zero => cases h
  | succ n ih =>
    obtain ⟨t, q, hpeek, h⟩ := exists_of_bind_ok h
    cases hpeek
    split at h
    · cases h
      assumption
    · obtain ⟨found, q, -, h⟩ := exists_of_bind_ok h
      split at h
      · obtain ⟨_, q, -, h⟩ := exists_of_bind_ok h
        exact ih h
      · obtain ⟨first, q, -, h⟩ := exists_of_bind_ok h
        obtain ⟨rest, q', hrest, h⟩ := exists_of_bind_ok h
        cases h
        exact ih hrest

theorem program_of_ok {n : Nat} {r last : Cursor} {node : Node}
    (h : program n r = .ok node last) :
    (∃ ss, node = .program .start (.list ss)) ∧ last.next.kind = .endOfInput := by
  obtain ⟨ss, q, hbody, h⟩ := exists_of_bind_ok h
  cases h
  exact ⟨⟨ss, rfl⟩, by simpa using done_of_sequence hbody⟩

-- Before the end of the input no token marks it.
theorem After.pos_eq {r last : Cursor} (h : After r last) (hend : last.next.kind = .endOfInput) :
    last.pos = r.pos + r.ahead.length := by
  obtain ⟨j, hj⟩ := Nat.exists_eq_add_of_le h.forward
  have hle : j ≤ r.ahead.length := by have := h.inside; omega
  have hnext : (r.moved j).next = last.next := by simp only [next, moved, h.tokens, hj]
  cases hahead : (r.moved j).ahead with
  | nil =>
    rw [ahead_moved hle, List.drop_eq_nil_iff] at hahead
    omega
  | cons t ts =>
    have hkind := (getElem?_of_ahead hahead).2.1
    rw [← next_of_ahead hahead, hnext] at hkind
    exact absurd hend hkind

-- What is ahead of the first token is what the grammar reads.
theorem input_eq (tokens : List Token) :
    Grammar.input tokens = ((Cursor.mk tokens 0 0).ahead, (Cursor.mk tokens 0 0).final.place) := by
  have hmark : tokens[(tokens.takeWhile (·.kind ≠ .endOfInput)).length]? =
      (tokens.dropWhile (·.kind ≠ .endOfInput)).head? := by
    conv_lhs => rw [← List.takeWhile_append_dropWhile (p := (·.kind ≠ .endOfInput)) (l := tokens)]
    rw [List.getElem?_append_right (by simp), List.head?_eq_getElem?]
    simp
  have hplace : (Cursor.mk tokens 0 0).final.place = (Grammar.input tokens).2 := by
    simp only [final, moved, next, ahead, Nat.zero_add, List.drop_zero, hmark, Grammar.input]
    cases (tokens.dropWhile (·.kind ≠ .endOfInput)).head? with
    | some t => rfl
    | none => rfl
  rw [hplace]
  rfl

-- The program that a list of tokens denotes is what the rules make of it.
theorem ofTokens_of_ended [Machine] {tokens : List Token} {outcome : Except Failure Node}
    {last : Cursor}
    {n : Nat} (hn : (Cursor.mk tokens 0 0).ahead.length < n)
    (h : program n ⟨tokens, 0, 0⟩ = ended outcome last) :
    Node.ofTokens tokens = outcome ∨
      ∃ place, Node.ofTokens tokens = .error (.error ⟨.nestsTooDeeply, place⟩) := by
  have hends := meets_program hn hn _ _ ⟨.refl ⟨tokens, 0, 0⟩, rfl, Nat.lt_succ_self _⟩
  rw [At, h] at hends
  have hahead : (Grammar.input tokens).1 = (Cursor.mk tokens 0 0).ahead :=
    congrArg Prod.fst (input_eq tokens)
  have hfinal : (Grammar.input tokens).2 = (Cursor.mk tokens 0 0).final.place :=
    congrArg Prod.snd (input_eq tokens)
  rw [← hahead] at hends
  rcases hends.model with ⟨token, hrun⟩ | ⟨node, rest, hrun, rfl⟩ | ⟨refusal, hrun, rfl⟩
  · have hrefused := Node.ofTokens_of_error hrun
    cases token with
    | some t => exact .inr ⟨t.place, hrefused⟩
    | none => exact .inr ⟨_, hrefused⟩
  · exact .inl (Node.ofTokens_of_ok hrun)
  · exact .inl (hfinal ▸ Node.ofTokens_of_error hrun)

-- Lists that are the same up to the first token that marks the end of the input.
theorem alike_of_mark {before : List Token} {mark : Token} (after after' : List Token)
    (hbefore : ∀ t ∈ before, t.kind ≠ .endOfInput) (hmark : mark.kind = .endOfInput) :
    (Cursor.mk (before ++ mark :: after) 0 0).ahead = before ∧
      Alike ⟨before ++ mark :: after, 0, 0⟩ ⟨before ++ mark :: after', 0, 0⟩ := by
  have hahead (rest : List Token) : (Cursor.mk (before ++ mark :: rest) 0 0).ahead = before := by
    simp only [ahead, List.drop_zero]
    rw [List.takeWhile_append_of_pos (by simpa using hbefore)]
    simp [hmark]
  have hfinal (rest : List Token) : (Cursor.mk (before ++ mark :: rest) 0 0).final = mark := by
    simp [final, hahead, moved, next]
  exact ⟨hahead after, by rw [hahead, hahead], by rw [hfinal, hfinal], rfl, rfl⟩

end Programs

-- Every list of tokens is read to an end, and so is every part of a program from any position. The
-- rules take no more rounds than there are tokens in the input, and one.
theorem reading_ends [Machine] :
    (∀ tokens : List Token, ∃ (outcome : Except Failure Node) (last : Cursor),
      (∀ n, tokens.length < n → program n ⟨tokens, 0, 0⟩ = ended outcome last) ∧
      last.tokens = tokens ∧ last.pos ≤ tokens.length ∧
      (∀ node, outcome = .ok node →
        (∃ statements, node = .program .start (.list statements)) ∧
        last.pos = (tokens.takeWhile (·.kind ≠ .endOfInput)).length ∧ last.depth = 0) ∧
      (∀ f, outcome = .error f → Rejects (tokens.takeWhile (·.kind ≠ .endOfInput)) f) ∧
      (Node.ofTokens tokens = outcome ∨
        ∃ place, Node.ofTokens tokens = .error (.error ⟨.nestsTooDeeply, place⟩))) ∧
    (∀ (before : List Token) (mark : Token), (∀ t ∈ before, t.kind ≠ .endOfInput) →
      mark.kind = .endOfInput → ∃ (outcome : Except Failure Node) (pos : Nat) (depth : Int),
        ∀ (after : List Token) (n : Nat), before.length < n →
          program n ⟨before ++ mark :: after, 0, 0⟩ =
            ended outcome ⟨before ++ mark :: after, pos, depth⟩) ∧
    (∀ {α : Type} (rule : Rule α) (r : Cursor), ∃ (outcome : Except Failure α) (last : Cursor),
      (∀ n, r.ahead.length < n → rule.parse n r = ended outcome last) ∧ After r last ∧
      (∀ a, outcome = .ok a → r.pos < last.pos ∧ last.depth = r.depth) ∧
      (∀ f, outcome = .error f → Rejects r.ahead f)) := by
  refine ⟨fun tokens => ?_, fun before mark hbefore hmark => ?_, fun rule r => ?_⟩
  · have hle : (Cursor.mk tokens 0 0).ahead.length ≤ tokens.length :=
      (List.takeWhile_prefix _).length_le
    obtain ⟨outcome, last, hrun, -, harrives⟩ := exists_arrives (r := ⟨tokens, 0, 0⟩)
      fun _ _ hm hn => ⟨Grammar.program, meets_program hm hn⟩
    have hwhole := hrun (tokens.length + 1) (Nat.lt_succ_of_le hle)
    refine ⟨outcome, last, fun n hn => hrun n (Nat.lt_of_le_of_lt hle hn), harrives.after.tokens,
      harrives.after.bounded (Nat.zero_le _), fun node hnode => ?_, harrives.refused,
      ofTokens_of_ended (Nat.lt_succ_of_le hle) hwhole⟩
    rw [hnode] at hwhole
    obtain ⟨hprogram, hmark⟩ := program_of_ok hwhole
    exact ⟨hprogram, (harrives.after.pos_eq hmark).trans (Nat.zero_add _),
      (harrives.accepted node hnode).2⟩
  · obtain ⟨outcome, last, -, hrun, -⟩ := exists_arrives (r := ⟨before ++ [mark], 0, 0⟩)
      fun _ _ hm hn => ⟨Grammar.program, meets_program hm hn⟩
    refine ⟨outcome, last.pos, last.depth, fun after n hn => ?_⟩
    obtain ⟨hahead, halike⟩ := alike_of_mark [] after hbefore hmark
    exact hrun _ n halike (by rwa [hahead])
  · obtain ⟨outcome, last, hrun, -, harrives⟩ := exists_arrives (r := r)
      fun _ _ hm hn => meets_rule r.left hm hn rule
    exact ⟨outcome, last, hrun, harrives.after,
      fun a ha => ⟨(harrives.accepted a ha).1 rfl, (harrives.accepted a ha).2⟩, harrives.refused⟩

section

attribute [local instance] Machine.usual

-- What stands after the end of the input is not read.
theorem reading_ends_before_brace :
    ∃ last, program 5 ⟨[⟨.ident, .str "a", .start⟩, ⟨.semicolon, .str ";", .start⟩,
        ⟨.endOfInput, .str "", .start⟩, ⟨.rightBrace, .str "\x7d", .start⟩], 0, 0⟩ =
      .ok (.program .start (.list [.ident .start (.str "a")])) last ∧
      last.pos = 2 ∧ last.depth = 0 := by
  obtain ⟨outcome, last, hrun, -, -, haccepted, -⟩ :=
    reading_ends.1 [⟨.ident, .str "a", .start⟩, ⟨.semicolon, .str ";", .start⟩,
      ⟨.endOfInput, .str "", .start⟩, ⟨.rightBrace, .str "\x7d", .start⟩]
  have hread := hrun 5 (by decide)
  cases outcome with
  | error f => cases hread
  | ok node =>
    have hnode : Node.program .start (.list [.ident .start (.str "a")]) = node :=
      (EStateM.Result.ok.inj hread).1
    subst hnode
    obtain ⟨-, hpos, hdepth⟩ := haccepted _ rfl
    exact ⟨last, hread, hpos, hdepth⟩

end

end Cursor

end TernLang
