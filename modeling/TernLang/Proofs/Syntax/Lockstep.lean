import Mathlib.Tactic.Common
import TernLang.Proofs.Syntax.Cursor

-- A parser of the grammar and two runs of the rules that move a position, side by side: one step of
-- each, and what follows when the steps are put together.
--
-- The two runs may differ in the rounds they are given and in the tokens past the end of the input.
-- That they end alike says that neither matters.

namespace TernLang

namespace Cursor

open Grammar (Refusal)

variable {α β : Type}

section Positions

-- The tokens from the position to the end of the input.
def ahead (r : Cursor) : List Token := (r.tokens.drop r.pos).takeWhile (·.kind ≠ .endOfInput)

def moved (r : Cursor) (j : Nat) : Cursor := { r with pos := r.pos + j }

-- The token that marks the end of the input.
def final (r : Cursor) : Token := (r.moved r.ahead.length).next

-- How many levels may still be opened.
def left (r : Cursor) : Nat := (Grammar.maxNesting - r.depth).toNat

-- Where reading has stopped, and the counter there.
def stopped (r : Cursor) (j : Nat) (depth : Int) : Cursor := { r with pos := r.pos + j, depth }

variable {r s : Cursor} {t : Token} {ts : List Token} {i j : Nat}

theorem moved_moved : (r.moved i).moved j = r.moved (i + j) := by
  simp only [moved, Nat.add_assoc]

theorem stopped_moved {depth : Int} : (r.moved i).stopped j depth = r.stopped (i + j) depth := by
  simp only [moved, stopped, Nat.add_assoc]

theorem getElem?_of_ahead (h : r.ahead = t :: ts) :
    r.tokens[r.pos]? = some t ∧ t.kind ≠ .endOfInput ∧ (r.moved 1).ahead = ts := by
  rw [← List.head?_drop]
  unfold ahead at h ⊢
  simp only [moved, ← List.tail_drop]
  generalize r.tokens.drop r.pos = rest at h ⊢
  cases rest with
  | nil => simp at h
  | cons u us =>
    rw [List.takeWhile_cons] at h
    split at h
    · rename_i hkind
      obtain ⟨rfl, rfl⟩ := List.cons.inj h
      exact ⟨rfl, by simpa using hkind, rfl⟩
    · cases h

theorem next_of_ahead (h : r.ahead = t :: ts) : r.next = t := by
  rw [next, (getElem?_of_ahead h).1]
  rfl

theorem next_of_ahead_nil (h : r.ahead = []) : r.next.kind = .endOfInput ∧ r.next = r.final := by
  refine ⟨?_, by rw [final, h]; rfl⟩
  unfold ahead at h
  rw [next, ← List.head?_drop]
  generalize r.tokens.drop r.pos = rest at h ⊢
  cases rest with
  | nil => rfl
  | cons u us =>
    by_contra hkind
    simp [show u.kind ≠ .endOfInput from hkind] at h

theorem ahead_moved (h : j ≤ r.ahead.length) : (r.moved j).ahead = r.ahead.drop j := by
  induction j with
  | zero => rfl
  | succ j ih =>
    have hstep := ih (by omega)
    cases hnext : r.ahead.drop j with
    | nil =>
      rw [List.drop_eq_nil_iff] at hnext
      omega
    | cons t ts =>
      have hone := (getElem?_of_ahead (hstep.trans hnext)).2.2
      rw [moved_moved] at hone
      rw [hone, ← List.tail_drop, hnext]
      rfl

theorem length_ahead_moved (h : j ≤ r.ahead.length) :
    (r.moved j).ahead.length = r.ahead.length - j := by
  rw [ahead_moved h, List.length_drop]

theorem final_moved (h : j ≤ r.ahead.length) : (r.moved j).final = r.final := by
  rw [final, final, moved_moved, length_ahead_moved h, Nat.add_sub_cancel' h]

-- Positions from which the same is ahead.
structure Alike (r s : Cursor) : Prop where
  ahead : r.ahead = s.ahead
  final : r.final = s.final
  pos : r.pos = s.pos
  depth : r.depth = s.depth

theorem Alike.refl (r : Cursor) : Alike r r := ⟨rfl, rfl, rfl, rfl⟩

theorem Alike.next (h : Alike r s) : s.next = r.next := by
  cases hahead : r.ahead with
  | nil =>
    rw [(next_of_ahead_nil hahead).2, (next_of_ahead_nil (h.ahead ▸ hahead)).2, h.final]
  | cons t ts => rw [next_of_ahead hahead, next_of_ahead (h.ahead ▸ hahead)]

theorem Alike.moved (h : Alike r s) (hj : j ≤ r.ahead.length) : Alike (r.moved j) (s.moved j) where
  ahead := by rw [ahead_moved hj, ahead_moved (h.ahead ▸ hj), h.ahead]
  final := by rw [final_moved hj, final_moved (h.ahead ▸ hj), h.final]
  pos := congrArg (· + j) h.pos
  depth := h.depth

end Positions

-- A number that cannot be read.
def Unreadable (f : Fault) (t : Token) : Prop :=
  t.kind = .integer ∧ Grammar.integerOf t.text = .error f ∨
    t.kind = .real ∧ Grammar.realOf t.text = .error f

-- What may be refused: the tokens as no program, or one of them as no number.
def Allows (r : Cursor) : Refusal → Prop
  | .error cause _ => cause.cls = .parse
  | .fault f => ∃ t ∈ r.ahead, Unreadable f t

theorem Allows.of_moved {r : Cursor} {j : Nat} {refusal : Refusal}
    (h : (r.moved j).Allows refusal) (hj : j ≤ r.ahead.length) : r.Allows refusal := by
  cases refusal with
  | error cause token => exact h
  | fault f =>
    obtain ⟨t, ht, hbad⟩ := h
    rw [ahead_moved hj] at ht
    exact ⟨t, List.mem_of_mem_drop ht, hbad⟩

abbrev Outcome (α : Type) := EStateM.Result Stop Cursor α

abbrev Reply (α : Type) := Except Refusal (α × List Token)

-- How the three end. They agree, but that the grammar may have run out of the room it has for
-- expressions inside each other. On success as many tokens are taken, at least one if this is asked
-- for, and the counter is what it was; on failure the position has not left the input.
inductive Ends (strict : Bool) (r s : Cursor) : Reply α → Outcome α → Outcome α → Prop where
  | ok (a : α) {j : Nat} (le : j ≤ r.ahead.length) (moves : strict → 0 < j) :
    Ends strict r s (.ok (a, r.ahead.drop j)) (.ok a (r.moved j)) (.ok a (s.moved j))
  | refused {refusal : Refusal} (j : Nat) (depth : Int) (allowed : r.Allows refusal)
      (le : j ≤ r.ahead.length) :
    Ends strict r s (.error refusal)
      (.error (.failed (refusal.toFailure r.final.place)) (r.stopped j depth))
      (.error (.failed (refusal.toFailure r.final.place)) (s.stopped j depth))
  | overflow {reply : Reply α} {c d : Outcome α} {token : Option Token}
      (ends : Ends strict r s reply c d) :
    Ends strict r s (.error (.error .nestsTooDeeply token)) c d

namespace Ends

variable {strict strict' : Bool} {r s : Cursor} {reply : Reply α} {c d : Outcome α}

theorem mono (h : Ends strict r s reply c d) (himp : strict' → strict) :
    Ends strict' r s reply c d := by
  induction h with
  | ok a le moves => exact .ok a le fun h => moves (himp h)
  | refused j depth allowed le => exact .refused j depth allowed le
  | overflow _ ih => exact .overflow ih

-- What has ended some tokens later has ended.
theorem of_moved {j : Nat} (h : Ends strict' (r.moved j) (s.moved j) reply c d)
    (hj : j ≤ r.ahead.length) (hmoves : strict → 0 < j ∨ strict') :
    Ends strict r s reply c d := by
  induction h with
  | @ok a i le moves =>
    rw [length_ahead_moved hj] at le
    rw [ahead_moved hj, List.drop_drop, moved_moved, moved_moved]
    refine .ok a (by omega) fun h => ?_
    rcases hmoves h with hlater | hlater
    · omega
    · have hi := moves hlater
      omega
  | refused i depth allowed le =>
    rw [length_ahead_moved hj] at le
    rw [final_moved hj, stopped_moved, stopped_moved]
    exact .refused (j + i) depth (allowed.of_moved hj) (by omega)
  | overflow _ ih => exact .overflow ih

end Ends

-- A parser of the grammar and two of the rules end so from these positions.
def At (strict : Bool) (r s : Cursor) (g : Grammar.Parse α) (c d : Parse α) : Prop :=
  Ends strict r s (g.run r.ahead) (c r) (d s)

-- Positions with fewer than so many tokens ahead, where so many levels may still be opened.
structure Within (k left : Nat) (r s : Cursor) : Prop where
  alike : Alike r s
  left : r.left = left
  short : r.ahead.length < k

-- They end so wherever fewer than so many tokens are ahead.
def Meets (k left : Nat) (strict : Bool) (g : Grammar.Parse α) (c d : Parse α) : Prop :=
  ∀ r s, Within k left r s → At strict r s g c d

section Combining

variable {strict strict' strict'' : Bool} {k m left j : Nat} {r s : Cursor}
variable {g : Grammar.Parse α} {c d : Parse α}
variable {g' : α → Grammar.Parse β} {c' d' : α → Parse β}

theorem Within.mono (h : Within k left r s) (hkm : k ≤ m) : Within m left r s :=
  ⟨h.alike, h.left, Nat.lt_of_lt_of_le h.short hkm⟩

theorem Within.moved (h : Within k left r s) (hj : j ≤ r.ahead.length) :
    Within k left (r.moved j) (s.moved j) :=
  ⟨h.alike.moved hj, h.left, by rw [length_ahead_moved hj]; have := h.short; omega⟩

-- One token further there is one token less ahead.
theorem Within.step (h : Within (k + 1) left r s) (hj : j ≤ r.ahead.length) (hpos : 0 < j) :
    Within k left (r.moved j) (s.moved j) :=
  ⟨h.alike.moved hj, h.left, by rw [length_ahead_moved hj]; have := h.short; omega⟩

theorem Meets.zero : Meets 0 left strict g c d := fun _ _ h => absurd h.short (Nat.not_lt_zero _)

theorem Meets.mono (h : Meets k left strict g c d) (hmk : m ≤ k) : Meets m left strict g c d :=
  fun r s hrs => h r s (hrs.mono hmk)

theorem At.weaken (h : At strict r s g c d) : At false r s g c d := Ends.mono h nofun

theorem Meets.weaken (h : Meets k left strict g c d) : Meets k left false g c d :=
  fun r s hrs => (h r s hrs).weaken

-- One after the other, where it is known what the first makes of the positions.
theorem At.bind (h : At strict r s g c d)
    (hnext : ∀ a j, j ≤ r.ahead.length → (strict → 0 < j) →
      At strict' (r.moved j) (s.moved j) (g' a) (c' a) (d' a))
    (hmoves : strict'' → strict ∨ strict') :
    At strict'' r s (g >>= g') (c >>= c') (d >>= d') := by
  unfold At at h ⊢
  rw [StateT.run_bind]
  simp only [Bind.bind, EStateM.bind]
  generalize g.run r.ahead = reply at h ⊢
  generalize c r = x at h ⊢
  generalize d s = y at h ⊢
  induction h with
  | @ok a j le moves =>
    have hrest := hnext a j le moves
    rw [At, ahead_moved le] at hrest
    exact hrest.of_moved le fun h => (hmoves h).imp moves id
  | refused j depth allowed le => exact .refused j depth allowed le
  | overflow _ ih => exact .overflow ih

-- What comes after a part that need not take a token.
theorem At.followed (hrs : Within k left r s) (h : At strict r s g c d)
    (hnext : ∀ a, Meets k left strict' (g' a) (c' a) (d' a)) :
    At strict' r s (g >>= g') (c >>= c') (d >>= d') :=
  h.bind (fun a _ hj _ => hnext a _ _ (hrs.moved hj)) .inr

-- What comes after a part that takes a token has one token less ahead.
theorem At.andThen (hrs : Within (k + 1) left r s) (h : At true r s g c d)
    (hnext : ∀ a, Meets k left false (g' a) (c' a) (d' a)) :
    At strict r s (g >>= g') (c >>= c') (d >>= d') :=
  h.bind (fun a _ hj hpos => hnext a _ _ (hrs.step hj (hpos rfl))) fun _ => .inl rfl

theorem Meets.followed (h : Meets k left strict g c d)
    (hnext : ∀ a, Meets k left strict' (g' a) (c' a) (d' a)) :
    Meets k left strict' (g >>= g') (c >>= c') (d >>= d') :=
  fun r s hrs => (h r s hrs).followed hrs hnext

theorem Meets.andThen (h : Meets (k + 1) left true g c d)
    (hnext : ∀ a, Meets k left false (g' a) (c' a) (d' a)) :
    Meets (k + 1) left strict (g >>= g') (c >>= c') (d >>= d') :=
  fun r s hrs => (h r s hrs).andThen hrs hnext

-- What begins with a part that takes a token takes one.
theorem At.begun (hrs : Within k left r s) (h : At true r s g c d)
    (hnext : ∀ a, Meets k left false (g' a) (c' a) (d' a)) :
    At strict r s (g >>= g') (c >>= c') (d >>= d') :=
  h.bind (fun a _ hj _ => hnext a _ _ (hrs.moved hj)) fun _ => .inl rfl

theorem Meets.begun (h : Meets k left true g c d)
    (hnext : ∀ a, Meets k left false (g' a) (c' a) (d' a)) :
    Meets k left strict (g >>= g') (c >>= c') (d >>= d') :=
  fun r s hrs => (h r s hrs).begun hrs hnext

-- A rule that has to take a token takes none at the end of the input, whatever was to follow.
theorem At.atEnd (hend : r.ahead = []) (h : At true r s g c d) (g' : α → Grammar.Parse β)
    (c' d' : α → Parse β) : At strict r s (g >>= g') (c >>= c') (d >>= d') := by
  have hnever (a : α) (j : Nat) (hj : j ≤ r.ahead.length) (hpos : true → 0 < j) :
      At false (r.moved j) (s.moved j) (g' a) (c' a) (d' a) := by
    rw [hend, List.length_nil] at hj
    have := hpos rfl
    omega
  exact h.bind hnever fun _ => .inl rfl

theorem Meets.pure (a : α) : Meets k left false (Pure.pure a) (Pure.pure a) (Pure.pure a) :=
  fun _ _ _ => .ok a (Nat.zero_le _) nofun

theorem Meets.map {f : α → β} (h : Meets k left strict g c d) :
    Meets k left strict (f <$> g) (f <$> c) (f <$> d) := by
  intro r s hrs
  rw [map_eq_pure_bind, map_eq_pure_bind, map_eq_pure_bind]
  exact (h r s hrs).bind (fun a _ hj _ => Meets.pure (f a) _ _ (hrs.moved hj)) .inl

theorem Meets.discarded (h : Meets k left strict g c d)
    {g' : Grammar.Parse β} {c' d' : Parse β} (hnext : Meets k left strict' g' c' d') :
    Meets k left strict' (discard g >>= fun _ => g') (c >>= fun _ => c') (d >>= fun _ => d') := by
  have hskip : (discard g >>= fun _ => g') = (g >>= fun _ => Pure.pure ()) >>= fun _ => g' := rfl
  rw [hskip, bind_assoc]
  exact h.followed fun _ => hnext

end Combining

section Steps

variable {strict : Bool} {k left : Nat} {r s : Cursor} {t : Token} {ts : List Token}
variable {kind : Token.Kind}

-- A refusal at a token, or at the end of the input.
theorem at_refuse (halike : Alike r s) {cause : Error.Cause} {token : Option Token}
    (hcause : cause.cls = .parse)
    (hplace : (token.map (·.place)).getD r.final.place = t.place) :
    At strict r s (Grammar.Parse.refuse cause token : Grammar.Parse α) (refuse cause t)
      (refuse cause t) := by
  have hfailure : (Refusal.error cause token).toFailure r.final.place =
      .error ⟨cause, t.place⟩ := by
    rw [← hplace]
    cases token <;> rfl
  have hends : Ends (α := α) strict r s (.error (.error cause token)) _ _ :=
    .refused 0 r.depth hcause (Nat.zero_le _)
  have hs : s.stopped 0 r.depth = s := by rw [halike.depth]; rfl
  rw [hfailure, hs] at hends
  exact hends

-- What looks at the next token finds one that is there, or the end of the input.
theorem at_peek (halike : Alike r s) {g : Option Token → Grammar.Parse α} {c d : Token → Parse α}
    (hthere : ∀ t ts, r.ahead = t :: ts → At strict r s (g (some t)) (c t) (d t))
    (hend : r.ahead = [] → ∀ t, t.kind = .endOfInput → t = r.final →
      At strict r s (g none) (c t) (d t)) :
    At strict r s (Grammar.Parse.peek >>= g) (peek >>= c) (peek >>= d) := by
  have hboth : At strict r s (g r.ahead.head?) (c r.next) (d r.next) := by
    cases hahead : r.ahead with
    | nil =>
      have hnext := next_of_ahead_nil hahead
      exact hend hahead _ hnext.1 hnext.2
    | cons t ts =>
      rw [next_of_ahead hahead]
      exact hthere t ts hahead
  have hs : (peek >>= d) s = d r.next s := congrArg (d · s) halike.next
  unfold At at hboth ⊢
  rwa [hs]

-- A look of the grammar alone, which moves nothing.
theorem at_look {g : Option Token → Grammar.Parse α} {c d : Parse α}
    (h : At strict r s (g r.ahead.head?) c d) :
    At strict r s (Grammar.Parse.peek >>= g) c d := h

-- Taking a token that is there.
theorem advance_of_ahead (h : r.ahead = t :: ts) : advance r = .ok t (r.moved 1) := by
  have hkind : t.kind ≠ .endOfInput := (getElem?_of_ahead h).2.1
  have hpeek : peek r = .ok t r := congrArg (EStateM.Result.ok · r) (next_of_ahead h)
  simp only [advance, Bind.bind, EStateM.bind, hpeek, hkind, ne_eq, not_false_eq_true, if_true]
  rfl

theorem at_advance (hrs : Within (k + 1) left r s) (hthere : r.ahead = t :: ts)
    {g : Grammar.Parse α} {c d : Token → Parse α} (hnext : Meets k left false g (c t) (d t)) :
    At strict r s (Grammar.Parse.advance >>= fun _ => g) (advance >>= c) (advance >>= d) := by
  have hpos : 1 ≤ r.ahead.length := by simp [hthere]
  have hlater := hnext _ _ (hrs.step hpos Nat.one_pos)
  have htail : (r.moved 1).ahead = r.ahead.tail := by rw [ahead_moved hpos, List.drop_one]
  have hr : (advance >>= c) r = c t (r.moved 1) := by
    simp only [Bind.bind, EStateM.bind, advance_of_ahead hthere]
  have hs : (advance >>= d) s = d t (s.moved 1) := by
    simp only [Bind.bind, EStateM.bind, advance_of_ahead (hrs.alike.ahead ▸ hthere)]
  rw [At, htail] at hlater
  rw [At, hr, hs]
  exact hlater.of_moved hpos fun _ => .inl Nat.one_pos

-- Taking a token that has to be of a kind, and is.
theorem at_expected (hrs : Within (k + 1) left r s) (hthere : r.ahead = t :: ts)
    (hkind : t.kind = kind) {g : Grammar.Parse α} {c d : Token → Parse α}
    (hnext : Meets k left false g (c t) (d t)) :
    At strict r s (Grammar.Parse.advance >>= fun _ => g) (expect kind >>= c)
      (expect kind >>= d) := by
  have hrun (q : Cursor) (hq : q.ahead = t :: ts) (f : Token → Parse α) :
      (expect kind >>= f) q = (advance >>= f) q := by
    have hnext : q.next.kind = kind := by rw [next_of_ahead hq, hkind]
    have htake : expect kind q = (if q.next.kind = kind then advance
      else refuse (.expectedKind kind q.next.seen?) q.next) q := rfl
    simp only [Bind.bind, EStateM.bind, htake, if_pos hnext]
  rw [At, hrun r hthere, hrun s (hrs.alike.ahead ▸ hthere)]
  exact at_advance hrs hthere hnext

theorem at_nextIs (halike : Alike r s) (hkind : kind ≠ .endOfInput)
    {g : Bool → Grammar.Parse α} {c d : Bool → Parse α}
    (hyes : ∀ t ts, r.ahead = t :: ts → t.kind = kind → At strict r s (g true) (c true) (d true))
    (hno : At strict r s (g false) (c false) (d false)) :
    At strict r s (Grammar.Parse.nextIs kind >>= g) (nextIs kind >>= c) (nextIs kind >>= d) := by
  unfold Grammar.Parse.nextIs nextIs
  simp only [bind_assoc, pure_bind]
  refine at_peek halike (fun t ts hthere => ?_) fun _ t ht _ => ?_
  · by_cases h : t.kind = kind
    · simpa [h] using hyes t ts hthere h
    · simpa [h] using hno
  · have hne : t.kind ≠ kind := fun h => hkind (h.symm.trans ht)
    simpa [hne] using hno

theorem at_nextIsWord (halike : Alike r s) {words : List String}
    {g : Bool → Grammar.Parse α} {c d : Bool → Parse α}
    (hyes : ∀ t ts, r.ahead = t :: ts → At strict r s (g true) (c true) (d true))
    (hno : At strict r s (g false) (c false) (d false)) :
    At strict r s (Grammar.Parse.nextIsWord words >>= g) (nextIsWord words >>= c)
      (nextIsWord words >>= d) := by
  unfold Grammar.Parse.nextIsWord nextIsWord
  simp only [bind_assoc, pure_bind]
  refine at_peek halike (fun t ts hthere => ?_) fun _ t ht _ => ?_
  · cases h : t.kind = .keyword && t.isOneOf words with
    | true => simpa [h] using hyes t ts hthere
    | false => simpa [h] using hno
  · simpa [ht] using hno

-- There is no word at the end of the input.
theorem at_noWord (halike : Alike r s) (hend : r.ahead = []) {words : List String}
    {g : Grammar.Parse α} {c d : Bool → Parse α} (h : At strict r s g (c false) (d false)) :
    At strict r s g (nextIsWord words >>= c) (nextIsWord words >>= d) := by
  have hrun (q : Cursor) (hq : q.ahead = []) (f : Bool → Parse α) :
      (nextIsWord words >>= f) q = f false q := by
    have hword : (nextIsWord words >>= f) q =
        f (q.next.kind = .keyword && q.next.isOneOf words) q := rfl
    rw [hword, (next_of_ahead_nil hq).1]
    rfl
  rwa [At, hrun r hend, hrun s (halike.ahead ▸ hend)]

theorem seen?_of_ahead (h : r.ahead = t :: ts) : t.seen? = some t :=
  if_neg (getElem?_of_ahead h).2.1

theorem seen?_of_end (h : t.kind = .endOfInput) : t.seen? = none := if_pos h

-- Taking a token that has to be of a kind, or to be a word.
theorem meets_taken {p : Token → Prop} [DecidablePred p] {cause : Option Token → Error.Cause}
    (hcause : ∀ next, (cause next).cls = .parse) (hend : ∀ t, p t → t.kind ≠ .endOfInput)
    {g : Option Token → Grammar.Parse Token}
    (hsome : ∀ t, g (some t) = if p t then do Grammar.Parse.advance; pure t
      else Grammar.Parse.refuse (cause (some t)) (some t))
    (hnone : g none = Grammar.Parse.refuse (cause none) none) :
    Meets k left true (Grammar.Parse.peek >>= g)
      (do let t ← peek; if p t then advance else refuse (cause t.seen?) t)
      (do let t ← peek; if p t then advance else refuse (cause t.seen?) t) := by
  cases k with
  | zero => exact .zero
  | succ k =>
    refine fun r s hrs => at_peek hrs.alike (fun t ts hthere => ?_) fun _ t ht hfinal => ?_
    · rw [hsome, seen?_of_ahead hthere]
      by_cases h : p t
      · simp only [h, if_true]
        rw [← bind_pure advance]
        exact at_advance hrs hthere (.pure t)
      · simp only [h, if_false]
        exact at_refuse hrs.alike (hcause _) rfl
    · have h : ¬p t := fun h => hend t h ht
      rw [hnone, seen?_of_end ht]
      simp only [h, if_false]
      exact at_refuse hrs.alike (hcause _) (hfinal ▸ rfl)

theorem meets_expect (hkind : kind ≠ .endOfInput) :
    Meets k left true (Grammar.Parse.expect kind) (expect kind) (expect kind) :=
  meets_taken (p := (·.kind = kind)) (fun _ => rfl) (fun _ ht => ht ▸ hkind) (fun _ => rfl) rfl

-- What is over when a token of a kind has followed.
theorem meets_closed (kind : Token.Kind) (hkind : kind ≠ .endOfInput) (a : α) :
    Meets k left false (discard (Grammar.Parse.expect kind) >>= fun _ => pure a)
      (expect kind >>= fun _ => pure a) (expect kind >>= fun _ => pure a) :=
  (meets_expect hkind).discarded (.pure a)

theorem meets_expectWord (word : String) :
    Meets k left true (Grammar.Parse.expectWord word) (expectWord word) (expectWord word) :=
  meets_taken (p := fun t => t.kind = .keyword ∧ t.text = .str word) (fun _ => rfl)
    (fun _ ht => ht.1 ▸ nofun) (fun _ => rfl) rfl

-- A level that is opened, and one that is closed.
def opened (r : Cursor) : Cursor := { r with depth := r.depth + 1 }

def closed (r : Cursor) : Cursor := { r with depth := r.depth - 1 }

def Outcome.closed : Outcome α → Outcome α
  | .ok a r => .ok a r.closed
  | .error e r => .error e r.closed

theorem Ends.closed {reply : Reply α} {c d : Outcome α}
    (h : Ends strict r.opened s.opened reply c d) : Ends strict r s reply c.closed d.closed := by
  have hback (q : Cursor) (j : Nat) : (q.opened.moved j).closed = q.moved j := by
    simp only [Cursor.closed, moved, opened, Int.add_sub_cancel]
  induction h with
  | ok a le moves =>
    rw [Outcome.closed, Outcome.closed, hback, hback]
    exact .ok a le moves
  | refused j depth allowed le => exact .refused j (depth - 1) allowed le
  | overflow _ ih => exact .overflow ih

theorem enter_eq (t : Token) (r : Cursor) :
    enter t r = if r.opened.depth > Grammar.maxNesting then
      refuse (.tooNested Grammar.maxNesting) t r.opened else .ok () r.opened := by
  have hrun : enter t r = (if r.opened.depth > Grammar.maxNesting then
      refuse (.tooNested Grammar.maxNesting) t else pure ()) r.opened := rfl
  rw [hrun]
  split <;> rfl

theorem within_of_left (h : r.left = left + 1) (t : Token) (body : Parse α) :
    Cursor.within t body r = Outcome.closed (body r.opened) := by
  have hdepth : ¬r.opened.depth > Grammar.maxNesting := by
    unfold Cursor.left at h
    simp only [opened]
    omega
  have hfinally : (tryFinally body leave : Parse α) r.opened = Outcome.closed (body r.opened) := by
    simp only [tryFinally, Functor.map, EStateM.map, tryFinally']
    cases body r.opened <;> rfl
  simp only [Cursor.within, Bind.bind, EStateM.bind, enter_eq, if_neg hdepth, hfinally]

theorem within_of_full (h : r.left = 0) (t : Token) (body : Parse α) :
    Cursor.within t body r = refuse (.tooNested Grammar.maxNesting) t r.opened := by
  have hdepth : r.opened.depth > Grammar.maxNesting := by
    unfold Cursor.left at h
    simp only [opened]
    omega
  simp only [Cursor.within, Bind.bind, EStateM.bind, enter_eq, if_pos hdepth]
  rfl

-- What stands on a level of its own.
theorem at_within {g : Grammar.Parse α} {c d : Parse α} (hrs : Within k left r s)
    (hfull : left = 0 → g.run r.ahead = .error (.error (.tooNested Grammar.maxNesting) (some t)))
    (hbody : ∀ n, left = n + 1 → Within k n r.opened s.opened →
      At strict r.opened s.opened g c d) :
    At strict r s g (Cursor.within t c) (Cursor.within t d) := by
  have hleft : s.left = r.left := by rw [Cursor.left, Cursor.left, hrs.alike.depth]
  unfold At
  cases left with
  | zero =>
    rw [within_of_full hrs.left, within_of_full (hleft.trans hrs.left), hfull rfl]
    have hdepth : s.opened = s.stopped 0 r.opened.depth := by
      simp only [opened, stopped, hrs.alike.depth, Nat.add_zero]
    rw [hdepth]
    exact .refused 0 r.opened.depth rfl (Nat.zero_le _)
  | succ n =>
    rw [within_of_left hrs.left, within_of_left (hleft.trans hrs.left)]
    have halike : Alike r.opened s.opened :=
      ⟨hrs.alike.ahead, hrs.alike.final, hrs.alike.pos, congrArg (· + 1) hrs.alike.depth⟩
    have hopened : r.opened.left = n := by
      have hopen := hrs.left
      simp only [Cursor.left, opened] at hopen ⊢
      omega
    exact (hbody n rfl ⟨halike, hopened, hrs.short⟩).closed

-- A literal whose token is taken, or why it is none.
theorem at_literal (hrs : Within (k + 1) left r s) (hthere : r.ahead = t :: ts)
    {made : Except Refusal Node}
    (hmade : ∀ refusal, made = .error refusal →
      (∃ f, refusal = .fault f ∧ Unreadable f t) ∨
        ∃ cause, refusal = .error cause (some t) ∧ cause.cls = .parse) :
    At strict r s (Grammar.Parse.advance >>= fun _ => liftM made)
      (advance >>= fun _ => literal t made) (advance >>= fun _ => literal t made) := by
  cases made with
  | ok node => exact at_advance hrs hthere (.pure node)
  | error refusal =>
    have hends (hallowed : r.Allows refusal)
        (hplace : refusal.toFailure r.final.place = refusal.toFailure t.place) :
        At strict r s (Grammar.Parse.advance >>= fun _ => liftM (Except.error refusal))
          (advance >>= fun _ => literal t (.error refusal))
          (advance >>= fun _ => literal t (.error refusal)) := by
      have hrun (q : Cursor) (hq : q.ahead = t :: ts) :
          (advance >>= fun _ => literal t (.error refusal)) q =
            .error (.failed (refusal.toFailure t.place)) (q.stopped 1 q.depth) := by
        simp only [Bind.bind, EStateM.bind, advance_of_ahead hq]
        rfl
      rw [At, hrun r hthere, hrun s (hrs.alike.ahead ▸ hthere), ← hplace, ← hrs.alike.depth]
      exact .refused 1 r.depth hallowed (by simp [hthere])
    rcases hmade refusal rfl with ⟨f, rfl, hbad⟩ | ⟨cause, rfl, hcause⟩
    · exact hends ⟨t, by simp [hthere], hbad⟩ rfl
    · exact hends hcause rfl

end Steps

section Loops

variable {strict : Bool} {k l m n left : Nat} {kind : Token.Kind}

-- The loops of the grammar have one round more than there are tokens.
theorem meets_loop {body : Nat → Grammar.Parse α} {c d : Parse α}
    (h : ∀ k' ≤ k, Meets k' left strict (body k') c d) :
    Meets k left strict (Grammar.Parse.loop body) c d :=
  fun r s hrs => h (r.ahead.length + 1) hrs.short r s ⟨hrs.alike, hrs.left, Nat.lt_succ_self _⟩

theorem exists_succ (h : k + 1 ≤ n) : ∃ m, n = m + 1 := ⟨n - 1, by omega⟩

theorem meets_separated (hkind : kind ≠ .endOfInput) {g : Grammar.Parse α} {c d : Parse α}
    (h : Meets k left true g c d) (hl : k ≤ l) (hm : k ≤ m) (hn : k ≤ n) :
    Meets k left false (Grammar.Parse.separated kind g l) (separated kind c m)
      (separated kind d n) := by
  induction k generalizing l m n with
  | zero => exact .zero
  | succ k ih =>
    obtain ⟨l, rfl⟩ := exists_succ hl
    obtain ⟨m, rfl⟩ := exists_succ hm
    obtain ⟨n, rfl⟩ := exists_succ hn
    have hmore (first : α) : Meets k left false
        (do let rest ← Grammar.Parse.separated kind g l; pure (first :: rest))
        (do let rest ← separated kind c m; pure (first :: rest))
        (do let rest ← separated kind d n; pure (first :: rest)) :=
      (ih (h.mono (Nat.le_succ k)) (by omega) (by omega) (by omega)).followed
        fun rest => .pure (first :: rest)
    intro r s hrs
    refine at_nextIs hrs.alike hkind (fun _ _ _ _ => Meets.pure [] _ _ hrs) ?_
    refine (h r s hrs).andThen hrs fun first r s hrs => ?_
    refine at_nextIs hrs.alike (by decide) (fun t ts hthere _ => ?_) ?_
    · cases k with
      | zero => exact absurd hrs.short (Nat.not_lt_zero _)
      | succ k => exact at_advance hrs hthere ((hmore first).mono (Nat.le_succ k))
    · refine at_nextIs hrs.alike hkind (fun t ts hthere _ => hmore first r s hrs) ?_
      refine at_peek hrs.alike (fun t ts hthere => ?_) fun hend t ht hfinal => ?_
      · rw [seen?_of_ahead hthere]
        exact at_refuse hrs.alike rfl rfl
      · rw [seen?_of_end ht]
        exact at_refuse hrs.alike rfl (hfinal ▸ rfl)

-- The items of a list, by a loop of the grammar.
theorem meets_items (kind : Token.Kind) (hkind : kind ≠ .endOfInput)
    {g : Grammar.Parse α} {c d : Parse α} (h : Meets k left true g c d) (hm : k ≤ m) (hn : k ≤ n) :
    Meets k left false (Grammar.Parse.loop (Grammar.Parse.separated kind g)) (separated kind c m)
      (separated kind d n) :=
  meets_loop fun k' hk' =>
    meets_separated hkind (h.mono hk') (Nat.le_refl k') (by omega) (by omega)

theorem meets_upTo (hkind : kind ≠ .endOfInput) {g : Grammar.Parse α} {c d : Parse α}
    (h : Meets k left true g c d) (hl : k ≤ l) (hm : k ≤ m) (hn : k ≤ n) :
    Meets k left false (Grammar.Parse.upTo kind g l) (upTo kind c m) (upTo kind d n) := by
  induction k generalizing l m n with
  | zero => exact .zero
  | succ k ih =>
    obtain ⟨l, rfl⟩ := exists_succ hl
    obtain ⟨m, rfl⟩ := exists_succ hm
    obtain ⟨n, rfl⟩ := exists_succ hn
    intro r s hrs
    refine at_nextIs hrs.alike hkind (fun _ _ _ _ => Meets.pure [] _ _ hrs) ?_
    refine (h r s hrs).andThen hrs fun first => ?_
    exact (ih (h.mono (Nat.le_succ k)) (by omega) (by omega) (by omega)).followed
      fun rest => .pure (first :: rest)

end Loops

end Cursor

end TernLang
