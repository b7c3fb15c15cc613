import TernLang.Proofs.Eval.ErrorPlaces
import TernLang.Proofs.Syntax.ExpressionText

-- The layout of a source text does not matter. Two texts with the same kinds and texts of tokens
-- are read alike and do the same; only the places in functions and errors differ, and these are the
-- places of the same tokens.

namespace TernLang

-- The place of a token in the first list and that of the same token in the second, or a place that
-- has nothing to do with either list.
def Place.Corresponds (ts us : List Token) (p q : Place) : Prop :=
  p = q ∨ ∃ t u, (t, u) ∈ ts.zip us ∧ p = t.place ∧ q = u.place

-- The same class and wording, with places that belong together.
inductive Failure.Alike (R : Place → Place → Prop) : Failure → Failure → Prop where
  | error {e f : Error} (cause : e.cause.Alike f.cause) (place : R e.place f.place) :
    Alike R (.error e) (.error f)
  | fault (f : Fault) : Alike R (.fault f) (.fault f)

-- Both succeed, with results that `P` ties together, or both fail alike.
inductive Outcome.Alike (R : Place → Place → Prop) {α β : Type} (P : α → β → Prop) :
    Except Failure α → Except Failure β → Prop where
  | ok {a : α} {b : β} (value : P a b) : Alike R P (.ok a) (.ok b)
  | error {e f : Failure} (failure : e.Alike R f) : Alike R P (.error e) (.error f)

section Reflexive

variable {R : Place → Place → Prop} (hR : ∀ p, R p p)

include hR

theorem Failure.Twin.alike {e f : Failure} (h : e.Twin R f) : e.Alike R f := by
  cases h with
  | error cause place => exact .error ⟨rfl, rfl⟩ place
  | unplaced cause => exact .error ⟨rfl, rfl⟩ (hR _)
  | fault f => exact .fault f

theorem Outcome.Twin.alike {α β : Type} {P : α → β → Prop} {x : Except Failure α}
    {y : Except Failure β} (h : Outcome.Twin R P x y) : Outcome.Alike R P x y := by
  cases h with
  | ok value => exact .ok value
  | error failure => exact .error (failure.alike hR)

theorem State.Twin.refl (s : State) : s.Twin R s := ⟨.refl hR _, rfl, rfl, rfl⟩

end Reflexive

namespace Grammar

variable {R : Place → Place → Prop} {ts us : List Token}

theorem twins_before_end (h : List.Forall₂ (Token.Twin R) ts us) :
    List.Forall₂ (Token.Twin R) (ts.takeWhile (·.kind ≠ .endOfInput))
      (us.takeWhile (·.kind ≠ .endOfInput)) := by
  induction h with
  | nil => exact .nil
  | cons head _ ih =>
    rw [List.takeWhile_cons, List.takeWhile_cons, head.kind]
    split
    · exact .cons head ih
    · exact .nil

theorem twins_from_end (h : List.Forall₂ (Token.Twin R) ts us) :
    List.Forall₂ (Token.Twin R) (ts.dropWhile (·.kind ≠ .endOfInput))
      (us.dropWhile (·.kind ≠ .endOfInput)) := by
  induction h with
  | nil => exact .nil
  | cons head tail ih =>
    rw [List.dropWhile_cons, List.dropWhile_cons, head.kind]
    split
    · exact ih
    · exact .cons head tail

theorem rel_getLast? (h : List.Forall₂ (Token.Twin R) ts us) :
    Option.Rel (Token.Twin R) ts.getLast? us.getLast? := by
  induction h with
  | nil => exact .none
  | @cons t u ts us head _ ih =>
    rw [List.getLast?_cons, List.getLast?_cons]
    generalize ts.getLast? = x at ih
    generalize us.getLast? = y at ih
    cases ih with
    | some last => exact .some last
    | none => exact .some head

-- The end of the input stands at the places of the same token, if there is any.
theorem rel_input (hR : ∀ p, R p p) (h : List.Forall₂ (Token.Twin R) ts us) :
    R (input ts).2 (input us).2 := by
  have hlast := rel_getLast? h
  have hend := twins_from_end h
  simp only [input]
  generalize ts.dropWhile (·.kind ≠ .endOfInput) = as at hend
  generalize us.dropWhile (·.kind ≠ .endOfInput) = bs at hend
  cases hend with
  | cons head _ => exact head.place
  | nil =>
    generalize ts.getLast? = x at hlast
    generalize us.getLast? = y at hlast
    cases hlast with
    | some last => exact last.place
    | none => exact hR _

theorem alike_refusal {r r' : Refusal} (h : r.Twin R r') {p q : Place} (hend : R p q) :
    (r.toFailure p).Alike R (r'.toFailure q) := by
  cases h with
  | fault f => exact .fault f
  | error cause token =>
    cases token with
    | none => exact .error cause hend
    | some htoken => exact .error cause htoken.place

end Grammar

namespace Node

variable {R : Place → Place → Prop}

-- Lists of the same tokens in other places are read alike.
theorem alike_ofTokens [Machine] (hR : ∀ p, R p p) {ts us : List Token}
    (h : List.Forall₂ (Token.Twin R) ts us) :
    Outcome.Alike R (fun n m => ∃ as bs, n = .program .start (.list as) ∧
      m = .program .start (.list bs) ∧ List.Forall₂ (Node.Twin R) as bs)
      (ofTokens ts) (ofTokens us) := by
  have hends := Grammar.statements_twin (Grammar.twins_before_end h) (Nat.lt_succ_self _)
    (Nat.lt_succ_self _)
  have hrun : ∀ ts : List Token, Grammar.program (Grammar.input ts).1 = _ :=
    fun ts => Grammar.run_program (Grammar.input ts).1
  have hplace := Grammar.rel_input hR h
  simp only [ofTokens, hrun]
  simp only [Grammar.input] at hplace ⊢
  generalize (Grammar.statements _).run (ts.takeWhile (·.kind ≠ .endOfInput)) = x at hends ⊢
  generalize (Grammar.statements _).run (us.takeWhile (·.kind ≠ .endOfInput)) = y at hends ⊢
  cases hends with
  | ok value rest taken => exact .ok ⟨_, _, rfl, rfl, value⟩
  | error refused =>
    obtain ⟨r', rfl, hr⟩ := refused rfl
    exact .error (Grammar.alike_refusal hr hplace)

end Node

namespace Eval

variable {R : Place → Place → Prop}

-- Programs that are the same but for their places end alike, also for want of a stack.
theorem endTwin_run [Machine] (known : ∀ {p q}, R p q → (p.Known ↔ q.Known)) (settings : Settings)
    {as bs : List Node} (h : List.Forall₂ (Node.Twin R) as bs) {s t : State} (hst : s.Twin R t) :
    EndTwin R (run settings (.program .start (.list as)) s)
      (run settings (.program .start (.list bs)) t) := by
  have hstarted : (emitted settings.level (.started as.length) s).Twin R
      (emitted settings.level (.started bs.length) t) :=
    twin_emitted_left (twin_emitted_right hst _) _
  cases hstack : settings.checkStack with
  | error failure =>
    have hfault : ∃ f, failure = .fault f := by
      cases failure with
      | fault f => exact ⟨f, rfl⟩
      | error e => exact absurd hstack (settings.checkStack_ne_error e)
    obtain ⟨f, rfl⟩ := hfault
    rw [run_of_checkStack_error hstack rfl rfl, run_of_checkStack_error hstack rfl rfl]
    exact ⟨.error (.fault f), hstarted⟩
  | ok depth =>
    rw [run_of_checkStack hstack rfl rfl, run_of_checkStack hstack rfl rfl]
    exact endTwin_runFrom known (.list h) hstarted

end Eval

namespace Token

variable {first second : String} {ts us : List Token}

theorem known_of_scan (h : scan first = .ok ts) {t : Token} (ht : t ∈ ts) : t.place.Known := by
  obtain ⟨pos, hpos, hplace⟩ := counted_of_scan h t ht
  rw [hplace, Place.known_ofPosition]
  exact fun hzero => absurd hpos.line (by omega)

theorem known_of_corresponds (hfirst : scan first = .ok ts) (hsecond : scan second = .ok us)
    {p q : Place} (h : Place.Corresponds ts us p q) : p.Known ↔ q.Known := by
  rcases h with rfl | ⟨t, u, hmem, rfl, rfl⟩
  · exact Iff.rfl
  · have ht := known_of_scan hfirst (List.of_mem_zip hmem).1
    have hu := known_of_scan hsecond (List.of_mem_zip hmem).2
    exact iff_of_true ht hu

theorem twins_of_same_pairs (h : Scan.pairsOf us = Scan.pairsOf ts) :
    List.Forall₂ (Token.Twin (Place.Corresponds ts us)) ts us := by
  obtain ⟨hlength, heach⟩ := List.forall₂_iff_zip.1 (twins_of_pairsOf h)
  refine List.forall₂_iff_zip.2 ⟨hlength, fun {t u} hmem => ?_⟩
  obtain ⟨hkind, htext, -⟩ := heach hmem
  exact ⟨hkind, htext, .inr ⟨t, u, hmem, rfl, rfl⟩⟩

end Token

namespace Session

-- Two source texts whose tokens have the same kinds and texts. Both are programs, the same one but
-- for places, or both are refused with the same class and wording; and in every session they give
-- the same value or fail in the same way, with the same output, the same rest of the input and the
-- same scopes, where only the places of the tokens differ.
theorem runSource_of_same_tokens [Machine] {first second : String} {ts us : List Token}
    (hfirst : Token.scan first = .ok ts) (hsecond : Token.scan second = .ok us)
    (hsame : Token.Scan.pairsOf us = Token.Scan.pairsOf ts) :
    Outcome.Alike (Place.Corresponds ts us) (Node.Twin (Place.Corresponds ts us))
      (Node.parse first) (Node.parse second) ∧
    ∀ s : Session,
      Outcome.Alike (Place.Corresponds ts us) (Value.Twin (Place.Corresponds ts us))
        (s.runSource first).1 (s.runSource second).1 ∧
      (s.runSource first).2.state.Twin (Place.Corresponds ts us)
        (s.runSource second).2.state := by
  have hrefl : ∀ p, Place.Corresponds ts us p p := fun p => .inl rfl
  have hread := Node.alike_ofTokens hrefl (Token.twins_of_same_pairs hsame)
  have hparse : Node.parse first = Node.ofTokens ts := by rw [Node.parse, hfirst]
  have hparse' : Node.parse second = Node.ofTokens us := by rw [Node.parse, hsecond]
  rw [← hparse, ← hparse'] at hread
  generalize hx : Node.parse first = x at hread
  generalize hy : Node.parse second = y at hread
  cases hread with
  | error failure =>
    refine ⟨.error failure, fun s => ?_⟩
    rw [runSource, runSource, hx, hy]
    exact ⟨.error failure, .refl hrefl _⟩
  | ok value =>
    obtain ⟨as, bs, rfl, rfl, hbody⟩ := value
    refine ⟨.ok (.program (hrefl _) (.list hbody)), fun s => ?_⟩
    have hend := Eval.endTwin_run (Token.known_of_corresponds hfirst hsecond) s.settings hbody
      (State.Twin.refl hrefl s.state)
    rw [runSource_of_parse hx, runSource_of_parse hy, fst_perform, fst_perform, state_perform,
      state_perform]
    exact ⟨hend.outcomes.alike hrefl, hend.states⟩

section

attribute [local instance] Machine.usual

theorem runSource_of_same_tokens_declaration :
    ∃ ts us, (Token.scan "let a = 'x';" = .ok ts ∧
        Token.scan "let a // a name\n\t= \x22x\x22\n;" = .ok us ∧
        Token.Scan.pairsOf us = Token.Scan.pairsOf ts) ∧
      Outcome.Alike (Place.Corresponds ts us) (Node.Twin (Place.Corresponds ts us))
        (Node.parse "let a = 'x';") (Node.parse "let a // a name\n\t= \x22x\x22\n;") ∧
      ∀ s : Session,
        Outcome.Alike (Place.Corresponds ts us) (Value.Twin (Place.Corresponds ts us))
          (s.runSource "let a = 'x';").1 (s.runSource "let a // a name\n\t= \x22x\x22\n;").1 ∧
        (s.runSource "let a = 'x';").2.state.Twin (Place.Corresponds ts us)
          (s.runSource "let a // a name\n\t= \x22x\x22\n;").2.state := by
  have hsame : (Token.scan "let a = 'x';").map Token.Scan.pairsOf =
      (Token.scan "let a // a name\n\t= \x22x\x22\n;").map Token.Scan.pairsOf := by decide +kernel
  have hok : (Token.scan "let a = 'x';").isOk := by decide +kernel
  cases hfirst : Token.scan "let a = 'x';" with
  | error e =>
    rw [hfirst] at hok
    exact absurd hok (by simp [Except.isOk, Except.toBool])
  | ok ts =>
    cases hsecond : Token.scan "let a // a name\n\t= \x22x\x22\n;" with
    | error e =>
      rw [hfirst, hsecond] at hsame
      cases hsame
    | ok us =>
      rw [hfirst, hsecond] at hsame
      have hpairs := (Except.ok.inj hsame).symm
      exact ⟨ts, us, ⟨rfl, rfl, hpairs⟩, runSource_of_same_tokens hfirst hsecond hpairs⟩

end

end Session

end TernLang
