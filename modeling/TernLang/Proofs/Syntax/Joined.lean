import TernLang.Proofs.Syntax.Mirror

-- Two source texts with a semicolon between them are read as one after the other: the statements of
-- the first, then those of the second.

namespace TernLang

namespace Grammar

open Parse

section Statements

variable [Machine] (m : Mirror) (left : Nat)

theorem mirrored_expression : Mirrored m (expression left) :=
  (mirrored_parsers m Machine.room).1 left

theorem mirrored_bracketed : Mirrored m (bracketed left) :=
  (mirrored_parsers m Machine.room).2 left

theorem mirrored_comparison : Mirrored m (comparison left) :=
  mirrored_relation (mirrored_expression m left) (mirrored_bracketed m left)

theorem mirrored_declared : Mirrored m (declared left) := by
  constructor
  intro lo hi
  refine .peek (fun next _ hend => .refuseEnd hend (by rintro rfl; rfl)) fun t u h => ?_
  simp only [h.kind, h.text]
  split
  · exact Mirrors.advance.bind fun _ _ _ => .pure (.ident _ h.place)
  · refine (mirrored_bracketed m left).mirrors.bind fun a b hab => ?_
    refine .ite (by rw [hab.isTarget]) (fun _ => .pure hab) fun _ => ?_
    exact .refuse ⟨rfl, rfl⟩ (.some h)
  · exact .refuseNext Error.Cause.names_expectedIdentifier h

theorem mirrored_declaration : Mirrored m (declaration left) := by
  constructor
  intro lo hi
  refine (Mirrors.expectWord _).bind fun t u h => ?_
  refine .any ((mirrored_declared m left).mirrors.bind fun a b hab => ?_)
  have hend {hi : Nat} {c d : Option Node} (hcd : Option.Rel (Node.Twin m.place) c d) :
      Mirrors m 0 hi 0 (Node.Twin m.place)
        (discard (expect .semicolon) >>= fun _ => pure (.declare t.place a c))
        (discard (expect .semicolon) >>= fun _ => pure (.declare u.place b d)) :=
    .any ((Mirrors.expect _).discarded.bind fun _ _ _ => .pure (.declare h.place hab hcd))
  refine .nextIs (by decide) ?_ (hend .none)
  refine .advanceThen ?_
  exact .any ((mirrored_expression m left).mirrors.someOf.bind fun c d hcd => hend hcd)

theorem mirrors_annotation? {lo hi : Nat} :
    Mirrors m lo hi 0 (Option.Rel (Node.Twin m.place)) ( annotation? left) ( annotation? left) := by
  refine .nextIs (by decide) ?_ (.pure .none)
  exact .advanceThen (.any (mirrored_comparison m left).mirrors.someOf)

theorem mirrored_parameter : Mirrored m (parameter left) := by
  constructor
  intro lo hi
  refine .peek (fun next _ hend => .refuseEnd hend (by rintro rfl; rfl)) fun t u h => ?_
  refine .ite (by rw [h.kind]) (fun _ => ?_) fun _ => ?_
  · rw [h.text]
    exact Mirrors.advance.bind fun _ _ _ => (mirrors_annotation? m left).bind fun a b hab =>
      .pure (.parameter _ h.place hab)
  · exact .refuseNext Error.Cause.names_expectedParameter h

theorem mirrored_label : Mirrored m (label left) := by
  constructor
  intro lo hi
  refine .peek (fun next _ _ => ?_) fun t u h => ?_
  · exact .nextIsWord (.empty (Nat.le_refl 1)) (mirrored_expression m left).mirrors
  · refine .nextIsWord ?_ (mirrored_expression m left).mirrors
    exact Mirrors.advance.bind fun _ _ _ => .pure (.literal _ _ h.place)

variable {block : Parse Node} (hblock : Mirrored m block)

include hblock

theorem mirrored_conditional : Mirrored m (conditional left block) := by
  constructor
  intro lo hi
  refine (Mirrors.expectWord _).bind fun t u h => ?_
  refine .any ((mirrored_comparison m left).mirrors.bind fun a b hab => ?_)
  refine .any (hblock.mirrors.bind fun c d hcd => ?_)
  refine .nextIsWord ?_ (.pure (.conditional h.place hab hcd .none))
  refine .advanceThen ?_
  exact .any (hblock.mirrors.someOf.bind fun e f hef => .pure (.conditional h.place hab hcd hef))

theorem mirrored_arm : Mirrored m (arm left block) := by
  constructor
  intro lo hi
  refine .peek (fun next _ _ => ?_) fun t u h => ?_
  · exact (mirrored_label m left).mirrors.bind fun _ _ _ => .empty (Nat.le_refl 0)
  · refine (mirrored_label m left).mirrors.bind fun a b hab => ?_
    refine .any ((Mirrors.expect _).discarded.bind fun _ _ _ => ?_)
    refine .any (hblock.mirrors.bind fun c d hcd => ?_)
    exact .any ((Mirrors.expect _).discarded.bind fun _ _ _ => .pure (.arm h.place hab hcd))

theorem mirrored_cases : Mirrored m (cases left block) := by
  constructor
  intro lo hi
  refine (Mirrors.expectWord _).bind fun t u h => ?_
  refine .any ((mirrored_expression m left).mirrors.bind fun a b hab => ?_)
  refine .any ((Mirrors.expectWord _).discarded.bind fun _ _ _ => ?_)
  refine .any ((Mirrors.expect _).discarded.bind fun _ _ _ => ?_)
  refine (Mirrors.loop fun _ => Mirrors.upTo (by decide) (mirrored_arm m left hblock).mirrors).bind
    fun cs ds hcs => ?_
  refine .any ((Mirrors.expect _).discarded.bind fun _ _ _ => ?_)
  exact .any ((Mirrors.expect _).discarded.bind fun _ _ _ => .pure (.cases h.place hab (.list hcs)))

theorem mirrored_function : Mirrored m (function left block) := by
  constructor
  intro lo hi
  refine (Mirrors.expectWord _).bind fun t u h => .any ((Mirrors.expect _).bind fun v w hname => ?_)
  rw [hname.text]
  refine .any ((Mirrors.expect _).discarded.bind fun _ _ _ => ?_)
  have hparameter {lo hi : Nat} := @(mirrored_parameter m left).mirrors lo hi
  refine (Mirrors.loop fun _ => Mirrors.separated (by decide) hparameter).bind fun cs ds hcs => ?_
  refine .any ((Mirrors.expect _).discarded.bind fun _ _ _ => ?_)
  refine (mirrors_annotation? m left).bind fun e f hef => ?_
  exact .any (hblock.mirrors.bind fun a b hab => .pure (.function _ h.place (.list hcs) hef hab))

end Statements

-- The ends of two readings of a statement. The second reading may have taken the semicolon behind
-- the first list.
inductive Closes (m : Mirror) (n : Nat) :
    Except Refusal (Node × List Token) → Except Refusal (Node × List Token) → Prop where
  | ends {x y : Except Refusal (Node × List Token)} (h : Ends m (Node.Twin m.place) 1 n x y) :
    Closes m n x y
  | past {a b : Node} (value : Node.Twin m.place a b) (more : m.tail ≠ []) (taken : 0 < n) :
    Closes m n (.ok (a, [])) (.ok (b, m.tail.tail))

-- A parser for statements.
structure Stated (m : Mirror) (p : Parse Node) : Prop where
  closes {ts us : List Token} (h : List.Forall₂ (Token.Twin m.place) ts us) :
    Closes m ts.length (p.run ts) (p.run (us ++ m.tail))

section

variable {m : Mirror}

theorem Mirrored.stated {p : Parse Node} (h : Mirrored m p) : Stated m p :=
  ⟨fun {ts us} hts => .ends (h.mirrors ts us hts (Nat.zero_le _) (Nat.lt_succ_self _))⟩

-- The semicolon that may follow a statement may be the one behind the first list.
theorem closes_skip {a b : Node} (hab : Node.Twin m.place a b) {ts us : List Token}
    (hts : List.Forall₂ (Token.Twin m.place) ts us) {n : Nat} (hn : ts.length + 1 ≤ n) :
    Closes m n ((skip .semicolon >>= fun _ => pure a : Parse Node).run ts)
      ((skip .semicolon >>= fun _ => pure b : Parse Node).run (us ++ m.tail)) := by
  have hskip (ts : List Token) : (skip .semicolon).run ts =
      .ok ((), if ts.head?.any (·.kind = .semicolon) then ts.tail else ts) := by
    unfold skip
    rw [run_bind (run_nextIs .semicolon ts)]
    split <;> rfl
  rw [run_bind (hskip ts), run_bind (hskip (us ++ m.tail))]
  cases hts with
  | nil =>
    cases htail : m.tail with
    | nil =>
      have hend := Ends.ok (m := m) (d := 1) hab .nil hn
      rw [htail] at hend
      exact .ends hend
    | cons t more =>
      have hkind : t.kind = .semicolon := m.stop t (by rw [htail]; rfl)
      have hpast := Closes.past hab (by rw [htail]; simp) (Nat.lt_of_lt_of_le Nat.one_pos hn)
      rw [htail] at hpast
      simpa [hkind] using hpast
  | @cons t u ts us h hts =>
    simp only [List.head?_cons, List.cons_append, Option.any_some, h.kind]
    by_cases hkind : t.kind = .semicolon
    · simp only [hkind, decide_true, if_true]
      refine .ends (.ok hab hts ?_)
      simp only [List.length_cons] at hn
      simp only [List.tail_cons]
      omega
    · simp only [hkind, decide_false]
      exact .ends (.ok hab (.cons h hts) hn)

theorem stated_evaluation [Machine] (m : Mirror) (left : Nat) : Stated m (evaluation left) := by
  constructor
  intro ts us hts
  have hends : Ends m (Node.Twin m.place) 1 ts.length _ _ :=
    (mirrored_expression m left).mirrors ts us hts (Nat.zero_le _) (Nat.lt_succ_self _)
  unfold evaluation
  rw [StateT.run_bind, StateT.run_bind]
  generalize (expression left).run ts = x at hends ⊢
  generalize (expression left).run (us ++ m.tail) = y at hends ⊢
  cases hends with
  | error refused =>
    refine .ends (.error fun htail => ?_)
    obtain ⟨r', rfl, hr⟩ := refused htail
    exact ⟨r', rfl, hr⟩
  | @ok a b ts' us' value rest taken =>
    simp only [bind_ok, value.isAssign]
    cases b.isAssign with
    | true =>
      have hend : Mirrors m 0 (ts'.length + 1) 1 (Node.Twin m.place)
          (discard (expect .semicolon) >>= fun _ => pure a)
          (discard (expect .semicolon) >>= fun _ => pure b) :=
        (Mirrors.expect _).discarded.bind fun _ _ _ => .pure value
      refine .ends ((hend ts' us' rest (Nat.zero_le _) (Nat.lt_succ_self _)).mono fun k hk => ?_)
      omega
    | false => exact closes_skip value rest taken

theorem stated_statementOver [Machine] (left : Nat) {block : Parse Node}
    (hblock : Mirrored m block) :
    Stated m (statementOver left block) := by
  constructor
  intro ts us hts
  have hevaluation := (stated_evaluation m left).closes hts
  unfold statementOver
  rw [StateT.run_bind, StateT.run_bind, run_peek, run_peek, bind_ok, bind_ok]
  cases hts with
  | nil =>
    rw [List.nil_append] at hevaluation ⊢
    cases hnext : m.tail.head? with
    | none => exact hevaluation
    | some t =>
      simp only [m.stop t hnext]
      exact hevaluation
  | @cons t u ts us h hts =>
    have hall : List.Forall₂ (Token.Twin m.place) (t :: ts) (u :: us) := .cons h hts
    simp only [List.head?_cons, List.cons_append, h.kind, h.text]
    rw [← List.cons_append]
    split
    · split
      · exact (mirrored_declaration m left).stated.closes hall
      split
      · exact (mirrored_conditional m left hblock).stated.closes hall
      split
      · exact (mirrored_cases m left hblock).stated.closes hall
      split
      · exact (mirrored_function m left hblock).stated.closes hall
      · exact .ends (.error fun _ => ⟨_, rfl, .error ⟨rfl, rfl⟩ (.some h)⟩)
    · exact hblock.stated.closes hall
    · exact hevaluation

-- A statement takes a token.
theorem Stated.refused {p : Parse Node} (h : Stated m p) :
    ∃ r, p.run [] = .error r ∧
      (m.tail = [] → ∃ r', p.run m.tail = .error r' ∧ r.Twin m.place r') := by
  have hcloses := h.closes .nil
  rw [List.nil_append] at hcloses
  generalize p.run [] = x at hcloses ⊢
  generalize p.run m.tail = y at hcloses ⊢
  cases hcloses with
  | past value more taken => exact absurd taken (Nat.lt_irrefl 0)
  | ends hends =>
    cases hends with
    | ok value rest taken => simp at taken
    | error refused => exact ⟨_, rfl, refused⟩

end

section Sequences

variable {m : Mirror} {done : Option Token → Bool} {statement : Parse Node}

-- One statement and those after it.
def oneAndMore (done : Option Token → Bool) (statement : Parse Node) (n : Nat) :
    Parse (List Node) := do
  let first ← statement
  let rest ← sequence done statement n
  pure (first :: rest)

theorem run_sequence (n : Nat) (ts : List Token) :
    (sequence done statement (n + 1)).run ts =
      if done ts.head? then .ok ([], ts)
      else if ts.head?.any (·.kind = .semicolon) then (sequence done statement n).run ts.tail
      else (oneAndMore done statement n).run ts := by
  rw [sequence, run_bind (run_peek ts)]
  split
  · rfl
  · rw [run_bind (run_nextIs .semicolon ts)]
    split <;> rfl

theorem run_oneAndMore_error {ts : List Token} {r : Refusal} (h : statement.run ts = .error r)
    (n : Nat) : (oneAndMore done statement n).run ts = .error r := by
  rw [oneAndMore, StateT.run_bind, h]
  rfl

-- What is read further on goes behind the statements that were read.
def behind (read : List Node) (x : Except Refusal (List Node × List Token)) :
    Except Refusal (List Node × List Token) :=
  (fun more => (read ++ more.1, more.2)) <$> x

theorem run_oneAndMore {ts rest : List Token} {a : Node} (h : statement.run ts = .ok (a, rest))
    (n : Nat) : (oneAndMore done statement n).run ts =
      behind [a] ((sequence done statement n).run rest) := by
  rw [oneAndMore, run_bind h, StateT.run_bind]
  cases (sequence done statement n).run rest <;> rfl

theorem ends_behind {d n : Nat} {a b : Node} (hab : Node.Twin m.place a b)
    {x y : Except Refusal (List Node × List Token)}
    (h : Ends m (List.Forall₂ (Node.Twin m.place)) d n x y) :
    Ends m (List.Forall₂ (Node.Twin m.place)) d n (behind [a] x) (behind [b] y) := by
  cases h with
  | ok value rest taken => exact .ok (.cons hab value) rest taken
  | error refused =>
    refine .error fun htail => ?_
    obtain ⟨r', rfl, hr⟩ := refused htail
    exact ⟨r', rfl, hr⟩

-- After a statement that went past the end of the first list, the first reading has to fail.
theorem ends_oneAndMore {n n' size : Nat} {ts us : List Token}
    (hcloses : Closes m size (statement.run ts) (statement.run us))
    (hmore : ∀ ts us, List.Forall₂ (Token.Twin m.place) ts us → ts.length < size →
      Ends m (List.Forall₂ (Node.Twin m.place)) 0 ts.length
        ((sequence done statement n).run ts) ((sequence done statement n').run (us ++ m.tail)))
    (hlost : m.tail ≠ [] → 0 < size → ∃ r, (sequence done statement n).run [] = .error r) :
    Ends m (List.Forall₂ (Node.Twin m.place)) 0 size ((oneAndMore done statement n).run ts)
      ((oneAndMore done statement n').run us) := by
  generalize hx : statement.run ts = x at hcloses
  generalize hy : statement.run us = y at hcloses
  cases hcloses with
  | past value more taken =>
    obtain ⟨r, hr⟩ := hlost more taken
    rw [run_oneAndMore hx, hr]
    exact .error fun htail => absurd htail more
  | ends hends =>
    cases hends with
    | @ok a b ts' us' value rest taken =>
      rw [run_oneAndMore hx, run_oneAndMore hy]
      exact (ends_behind value (hmore ts' us' rest taken)).mono fun k hk => by omega
    | error refused =>
      rw [run_oneAndMore_error hx]
      refine .error fun htail => ?_
      obtain ⟨r', rfl, hr⟩ := refused htail
      exact ⟨r', run_oneAndMore_error hy n', hr⟩

-- Statements up to a token that the first list has, or up to the end if nothing follows.
theorem mirrors_sequence (hstatement : Stated m statement)
    (htwin : ∀ t u, t.Twin m.place u → done (some u) = done (some t))
    (hdone : done none → m.tail = []) {lo hi : Nat} (n n' : Nat) (hn : hi ≤ n) (hn' : hi ≤ n') :
    Mirrors m lo hi 0 (List.Forall₂ (Node.Twin m.place)) (sequence done statement n)
      (sequence done statement n') := by
  have hlost (n : Nat) (hmore : m.tail ≠ []) :
      ∃ r, (sequence done statement (n + 1)).run [] = .error r := by
    obtain ⟨r, hr, -⟩ := hstatement.refused
    refine ⟨r, ?_⟩
    rw [run_sequence, List.head?_nil, if_neg fun hend => hmore (hdone hend)]
    exact run_oneAndMore_error hr n
  induction n generalizing n' lo hi with
  | zero => exact .empty (by omega)
  | succ n ih =>
    cases n' with
    | zero => exact .empty (by omega)
    | succ n' =>
      intro ts us hts hlo hhi
      have hmore (ts us : List Token) (hts : List.Forall₂ (Token.Twin m.place) ts us)
          (hlt : ts.length + 1 < hi) :=
        @ih 0 (hi - 1) n' (by omega) (by omega) ts us hts (Nat.zero_le _) (by omega)
      have hone : Ends m (List.Forall₂ (Node.Twin m.place)) 0 ts.length
          ((oneAndMore done statement n).run ts)
          ((oneAndMore done statement n').run (us ++ m.tail)) := by
        refine ends_oneAndMore (hstatement.closes hts)
          (fun ts' us' hts' hlt => hmore ts' us' hts' (by omega)) fun htail hpos => ?_
        obtain ⟨k, rfl⟩ : ∃ k, n = k + 1 := ⟨n - 1, by omega⟩
        exact hlost k htail
      rw [run_sequence, run_sequence]
      cases hts with
      | nil =>
        by_cases htail : m.tail = []
        · have hnil := Ends.ok (m := m) (d := 0) (n := 0)
            (List.Forall₂.nil (R := Node.Twin m.place)) .nil (Nat.le_refl _)
          rw [htail] at hone hnil ⊢
          by_cases hend : done none
          · simpa [hend] using hnil
          · simpa [hend] using hone
        · obtain ⟨r, hr⟩ := hlost n htail
          rw [run_sequence] at hr
          rw [hr]
          exact .error fun hnone => absurd hnone htail
      | @cons t u ts us h hts =>
        simp only [List.head?_cons, List.cons_append, Option.any_some, h.kind, htwin t u h]
        by_cases hend : done (some t)
        · simp only [hend, if_true]
          exact .ok .nil (.cons h hts) (Nat.le_refl _)
        by_cases hkind : t.kind = .semicolon
        · simp only [hend, hkind, decide_true, if_true]
          exact (hmore ts us hts hhi).mono fun k hk => Nat.le_succ_of_le hk
        · simp only [hend, hkind, decide_false]
          exact hone

end Sequences

theorem mirrored_block [Machine] (m : Mirror) (left : Nat) : Mirrored m (block left) := by
  induction left with
  | zero =>
    constructor
    intro lo hi
    exact (Mirrors.expect _).bind fun t u h => .refuse ⟨rfl, rfl⟩ (.some h)
  | succ left ih =>
    constructor
    intro lo hi
    have hclosed : ∀ t u, t.Twin m.place u → closes (some u) = closes (some t) := fun t u h => by
      simp only [closes, Option.any_some, h.kind]
    refine (Mirrors.expect _).bind fun t u h => ?_
    refine (Mirrors.loop fun _ => mirrors_sequence (stated_statementOver left ih) hclosed
      (by simp [closes])).bind fun as bs hbody => ?_
    exact .any ((Mirrors.expect _).discarded.bind fun _ _ _ => .pure (.block h.place (.list hbody)))

theorem stated_statement [Machine] (m : Mirror) (left : Nat) : Stated m (statement left) :=
  stated_statementOver left (mirrored_block m left)

-- The statements of a program, in at most so many rounds.
def statements [Machine] (n : Nat) : Parse (List Node) := sequence Option.isNone
    (statement maxNesting) n

theorem run_statements_nil [Machine] (n : Nat) : (statements n).run [] = .ok ([], []) := by
  cases n <;> rfl

theorem run_statements_cons [Machine] (n : Nat) (t : Token) (ts : List Token) :
    (statements (n + 1)).run (t :: ts) =
      if t.kind = .semicolon then (statements n).run ts
      else (oneAndMore Option.isNone (statement maxNesting) n).run (t :: ts) := by
  rw [statements, run_sequence]
  simp [statements]

-- The same tokens in other places, and other bounds on the rounds.
theorem statements_twin [Machine] {R : Place → Place → Prop} {ts us : List Token}
    (hts : List.Forall₂ (Token.Twin R) ts us) {n n' : Nat} (hn : ts.length < n)
    (hn' : us.length < n') :
    Ends ⟨R, [], by simp⟩ (List.Forall₂ (Node.Twin R)) 0 ts.length ((statements n).run ts)
      ((statements n').run us) := by
  let m : Mirror := ⟨R, [], by simp⟩
  have hlength := hts.length_eq
  have hmirrors : Mirrors m 0 (ts.length + 1) 0 (List.Forall₂ (Node.Twin R)) (statements n)
      (statements n') :=
    mirrors_sequence (stated_statement m maxNesting) (fun _ _ _ => rfl) (fun _ => rfl) n n'
      (by omega) (by omega)
  have hends := hmirrors ts us hts (Nat.zero_le _) (Nat.lt_succ_self _)
  rwa [List.append_nil] at hends

theorem run_program [Machine] (ts : List Token) :
    program.run ts = (fun read => (.program .start (.list read.1), read.2)) <$>
      (statements (ts.length + 1)).run ts := by
  rw [program, StateT.run_bind, run_loop, statements]
  cases (sequence Option.isNone (statement maxNesting) (ts.length + 1)).run ts <;> rfl

theorem input_final {before : List Token} (h : ∀ t ∈ before, t.kind ≠ .endOfInput)
    (pos : Position) : input (before ++ [Token.Scan.final pos]) = (before, .ofPosition pos) := by
  have hall : ∀ t ∈ before, decide (t.kind ≠ .endOfInput) = true := fun t ht => by
    simpa using h t ht
  rw [input, List.takeWhile_append_of_pos hall, List.dropWhile_append_of_pos hall]
  simp [Token.Scan.final]

end Grammar

namespace Node

open Grammar

theorem ofTokens_final [Machine] {before : List Token} (h : ∀ t ∈ before, t.kind ≠ .endOfInput)
    (pos : Position) :
    ofTokens (before ++ [Token.Scan.final pos]) =
      match (statements (before.length + 1)).run before with
      | .ok (body, _) => .ok (.program .start (.list body))
      | .error refusal => .error (refusal.toFailure (.ofPosition pos)) := by
  have hrun : Grammar.program before = _ := run_program before
  simp only [ofTokens, input_final h, hrun]
  cases (statements (before.length + 1)).run before <;> rfl

theorem kind_of_mem_twins {R : Place → Place → Prop} {kind : Token.Kind} {ts us : List Token}
    (h : List.Forall₂ (Token.Twin R) ts us) (hts : ∀ t ∈ ts, t.kind ≠ kind) {u : Token}
    (hu : u ∈ us) : u.kind ≠ kind := by
  induction h with
  | nil => simp at hu
  | cons htwin _ ih =>
    rcases List.mem_cons.1 hu with rfl | hu
    · rw [htwin.kind]
      exact hts _ List.mem_cons_self
    · exact ih (fun t ht => hts t (List.mem_cons_of_mem _ ht)) hu

end Node

end TernLang
