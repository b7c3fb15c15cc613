import TernLang.Proofs.Syntax.Joined
import TernLang.Proofs.Syntax.LexicalGrammar
import TernLang.Proofs.Syntax.RoundTrip

-- Texts that write out an expression. Such a text denotes the program whose only statement this
-- expression is, wherever its parts stand.

namespace TernLang

namespace Token

-- The text in front of `rest` is made up of gaps and the lexemes of these tokens.
def Writes (ts : List Token) (text rest : List Char) : Prop :=
  ∃ pairs, Scan.written pairs = Scan.pairsOf ts ∧ Reads pairs text rest

namespace Writes

variable {ts us : List Token} {text more rest : List Char}

theorem nil (rest : List Char) : Writes [] [] rest := ⟨[], rfl, .nil rest⟩

theorem append (h : Writes ts text (more ++ rest)) (hmore : Writes us more rest) :
    Writes (ts ++ us) (text ++ more) rest := by
  obtain ⟨front, hfront, hreads⟩ := h
  obtain ⟨back, hback, hlater⟩ := hmore
  refine ⟨front ++ back, ?_, hreads.append hlater⟩
  rw [Scan.written, List.map_append, Scan.pairsOf, List.map_append]
  exact congrArg₂ (· ++ ·) hfront hback

theorem blank (h : Writes ts text rest) : Writes ts (' ' :: text) rest := by
  obtain ⟨pairs, hpairs, hreads⟩ := h
  exact ⟨pairs, hpairs, .gap (.blank (.inl rfl) (.nil _)) hreads⟩

theorem one {t : Token} {value : List Char} (htext : t.text = .str (String.ofList value))
    (h : IsWritten t.kind value text rest) : Writes [t] text rest := by
  refine ⟨[(t.kind, value)], ?_, ?_⟩
  · rw [Scan.pairsOf, List.map_singleton, htext]
    rfl
  · have hreads : Reads [(t.kind, value)] (text ++ []) rest := .token h (.nil rest)
    rwa [List.append_nil] at hreads

-- A lexeme that is the text of its token.
theorem plain {t : Token} (htext : t.text = .str (String.ofList text))
    (hvalid : IsValid t.kind text) (hkind : t.kind ≠ .string ∧ t.kind ≠ .endOfInput)
    (hmaximal : IsMaximal t.kind text rest) : Writes [t] text rest :=
  one htext ⟨hvalid, .plain hkind rfl hmaximal⟩

end Writes

theorem twins_of_pairsOf {ts us : List Token} (h : Scan.pairsOf us = Scan.pairsOf ts) :
    List.Forall₂ (Token.Twin fun _ _ => True) ts us := by
  have hmaps : List.Forall₂ Eq (Scan.pairsOf ts) (Scan.pairsOf us) := by
    rw [List.forall₂_eq_eq_eq]
    exact h.symm
  have heach := List.forall₂_map_right_iff.1 (List.forall₂_map_left_iff.1 hmaps)
  exact heach.imp fun t u htu => ⟨(Prod.mk.inj htu).1.symm, (Prod.mk.inj htu).2.symm, trivial⟩

theorem scan_of_writes {ts : List Token} {source : String} (h : Writes ts source.toList []) :
    ∃ us pos, scan source = .ok (us ++ [Scan.final pos]) ∧
      List.Forall₂ (Token.Twin fun _ _ => True) ts us := by
  obtain ⟨pairs, hpairs, hreads⟩ := h
  obtain ⟨us, hus, hscan⟩ := Scan.tokensFrom_of_reads hreads .start
  rw [List.append_nil] at hscan
  exact ⟨us, _, hscan, twins_of_pairsOf (hus.trans hpairs)⟩

end Token

namespace Grammar

open Node Parse

-- An expression that is no assignment needs no semicolon at the end of the input.
theorem run_statement_alone [Machine] {e : Node} (h : IsRead e)
    (hassign : e.unplaced.isAssign = false)
    {left : Nat} (hnest : e.levels .nesting ≤ left) (hroom : e.levels .room < Machine.room) :
    (statement left).run e.tokens = .ok (e.unplaced, []) := by
  have hrun := run_expression h hnest hroom [] (by simp [StopsAt])
  rw [List.append_nil] at hrun
  have hevaluation : (evaluation left).run e.tokens = .ok (e.unplaced, []) := by
    simp [evaluation, hrun, hassign, skip]
  obtain ⟨t, tail, htokens, -, hkind⟩ := h.starts
  obtain ⟨hkeyword, hbrace⟩ : t.kind ≠ .keyword ∧ t.kind ≠ .leftBrace := by
    refine ⟨?_, ?_⟩ <;> intro hcontra <;> simp [hcontra] at hkind
  rw [htokens] at hevaluation ⊢
  simp only [statement, statementOver, StateT.run_bind, run_peek, bind_ok, List.head?_cons]
  exact hevaluation

end Grammar

namespace Node

open Grammar

-- A text that writes out an expression denotes it, up to its places.
theorem parse_of_writes [Machine] {l : Leaves} {e : Node} (h : e.IsExpression l)
    (hassign : e.unplaced.isAssign = false) (hnest : e.levels .nesting ≤ maxNesting)
    (hroom : e.levels .room < Machine.room) {source : String}
    (hwrites : Token.Writes e.tokens source.toList []) :
    ∃ n, parse source = .ok (.program .start (.list [n])) ∧
      e.unplaced.Twin (fun _ _ => True) n := by
  obtain ⟨us, pos, hscan, htwins⟩ := Token.scan_of_writes hwrites
  have hkinds (u : Token) (hu : u ∈ us) : u.kind ≠ .endOfInput :=
    kind_of_mem_twins htwins (isWithin_tokens h) hu
  have hread := isRead_of_isExpression h
  have hone : (statements (e.tokens.length + 1)).run e.tokens = .ok ([e.unplaced], []) := by
    have hstatement := run_statement_alone hread hassign hnest hroom
    obtain ⟨t, tail, htokens, -, hkind⟩ := hread.starts
    have hsemicolon : t.kind ≠ .semicolon := by
      intro hcontra
      simp [hcontra] at hkind
    rw [htokens] at hstatement ⊢
    rw [run_statements_cons, if_neg hsemicolon, run_oneAndMore hstatement]
    exact congrArg (behind [e.unplaced]) (run_statements_nil _)
  have hends := statements_twin htwins (Nat.lt_succ_self _) (Nat.lt_succ_self us.length)
  rw [hone] at hends
  rw [parse, hscan]
  simp only [ofTokens_final hkinds]
  generalize (statements (us.length + 1)).run us = x at hends ⊢
  cases hends with
  | ok value rest taken =>
    obtain ⟨n, _, hn, hnil, rfl⟩ := List.forall₂_cons_left_iff.1 value
    obtain rfl := List.forall₂_nil_left_iff.1 hnil
    exact ⟨n, rfl, hn⟩

end Node

end TernLang
