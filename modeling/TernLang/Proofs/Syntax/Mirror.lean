import TernLang.Proofs.Ast.Twin
import TernLang.Proofs.Syntax.ParseRun
import TernLang.Proofs.Syntax.Seam

-- The grammar on two lists of tokens that are the same but for their places, when more may follow
-- the second one, from a semicolon on. What is read from the first is read from the second.

namespace TernLang

-- The same class and the same wording.
structure Error.Cause.Alike (c c' : Error.Cause) : Prop where
  cls : c'.cls = c.cls
  message : c'.message = c.message

namespace Token.Twin

variable {R : Place → Place → Prop} {t u : Token}

theorem isOneOf (h : t.Twin R u) (texts : List String) : u.isOneOf texts = t.isOneOf texts := by
  rw [Token.isOneOf, Token.isOneOf, h.text]

theorem describe (h : t.Twin R u) : u.describe = t.describe := by
  simp only [Token.describe, h.kind, h.text]

theorem describeNext {next next' : Option Token} (h : Option.Rel (Token.Twin R) next next') :
    Token.describeNext next' = Token.describeNext next := by
  cases h with
  | none => rfl
  | some h => exact h.describe

end Token.Twin

namespace Error.Cause

-- An error of the grammar that names the next token.
def Names (cause : Option Token → Error.Cause) : Prop :=
  ∃ wording : String → String, ∀ next,
    (cause next).cls = .parse ∧ (cause next).message = wording (Token.describeNext next)

theorem names_expectedKind (kind : Token.Kind) : Names (.expectedKind kind) :=
  ⟨fun s => s!"expected {kind.name}, got {s}", fun _ => ⟨rfl, rfl⟩⟩

theorem names_expectedWord (word : String) : Names (.expectedWord word) :=
  ⟨fun s => s!"expected {Text.quote word}, got {s}", fun _ => ⟨rfl, rfl⟩⟩

theorem names_expectedIdentifier : Names .expectedIdentifier :=
  ⟨fun s => s!"expected an identifier, got {s}", fun _ => ⟨rfl, rfl⟩⟩

theorem names_expectedParameter : Names .expectedParameter :=
  ⟨fun s => s!"expected a parameter name, got {s}", fun _ => ⟨rfl, rfl⟩⟩

theorem names_expectedSeparator : Names .expectedSeparator :=
  ⟨fun s => s!"expected ',' or ')', got {s}", fun _ => ⟨rfl, rfl⟩⟩

theorem Names.alike {cause : Option Token → Error.Cause} (h : Names cause)
    {R : Place → Place → Prop} {next next' : Option Token}
    (hnext : Option.Rel (Token.Twin R) next next') : (cause next).Alike (cause next') := by
  obtain ⟨wording, hwording⟩ := h
  refine ⟨?_, ?_⟩
  · rw [(hwording next).1, (hwording next').1]
  · rw [(hwording next).2, (hwording next').2, Token.Twin.describeNext hnext]

theorem alike_unexpectedToken {R : Place → Place → Prop} {t u : Token} (h : t.Twin R u) :
    (unexpectedToken t).Alike (unexpectedToken u) :=
  ⟨rfl, congrArg (fun s => s!"unexpected token {s}") h.describe⟩

end Error.Cause

namespace Grammar

-- The same refusal but for the place of its token.
inductive Refusal.Twin (R : Place → Place → Prop) : Refusal → Refusal → Prop where
  | error {c c' : Error.Cause} {t u : Option Token} (cause : c.Alike c')
    (token : Option.Rel (Token.Twin R) t u) : Twin R (.error c t) (.error c' u)
  | fault (f : Fault) : Twin R (.fault f) (.fault f)

-- How two lists of tokens go together: how their places do, and what follows the second list.
structure Mirror where
  place : Place → Place → Prop
  tail : List Token
  stop : ∀ t ∈ tail.head?, t.kind = .semicolon

namespace Parse

variable {α β γ δ : Type} {m : Mirror} {S : α → β → Prop} {T : γ → δ → Prop} {lo hi d n : Nat}

-- The ends of two readings. If the first is refused, then so is the second, unless more follows; if
-- it ends well, at least `d` of its `n` tokens are taken.
inductive Ends (m : Mirror) (S : α → β → Prop) (d n : Nat) :
    Except Refusal (α × List Token) → Except Refusal (β × List Token) → Prop where
  | ok {a : α} {b : β} {ts us : List Token} (value : S a b)
    (rest : List.Forall₂ (Token.Twin m.place) ts us) (taken : ts.length + d ≤ n) :
    Ends m S d n (.ok (a, ts)) (.ok (b, us ++ m.tail))
  | error {r : Refusal} {x : Except Refusal (β × List Token)}
    (refused : m.tail = [] → ∃ r', x = .error r' ∧ r.Twin m.place r') : Ends m S d n (.error r) x

theorem Ends.mono {d' n' : Nat} {x : Except Refusal (α × List Token)}
    {y : Except Refusal (β × List Token)} (h : Ends m S d n x y)
    (hle : ∀ k, k + d ≤ n → k + d' ≤ n') : Ends m S d' n' x y := by
  cases h with
  | ok value rest taken => exact .ok value rest (hle _ taken)
  | error refused => exact .error refused

-- Two parsers end alike on lists of at least `lo` and less than `hi` tokens.
def Mirrors (m : Mirror) (lo hi d : Nat) (S : α → β → Prop) (p : Parse α) (q : Parse β) : Prop :=
  ∀ ts us, List.Forall₂ (Token.Twin m.place) ts us → lo ≤ ts.length → ts.length < hi →
    Ends m S d ts.length (p.run ts) (q.run (us ++ m.tail))

namespace Mirrors

variable {p : Parse α} {q : Parse β} {f : α → Parse γ} {g : β → Parse δ}

-- There is no such list.
theorem empty (h : hi ≤ lo) : Mirrors m lo hi d S p q := by
  intro ts us _ _ hlt
  omega

theorem any (h : Mirrors m lo hi d S p q) : Mirrors m lo hi 0 S p q := by
  intro ts us hts hlo hhi
  exact (h ts us hts hlo hhi).mono fun k hk => by omega

theorem pure {a : α} {b : β} (h : S a b) : Mirrors m lo hi 0 S (Pure.pure a) (Pure.pure b) :=
  fun _ _ hts _ _ => .ok h hts (Nat.le_refl _)

theorem fail {r : Refusal} (h : m.tail = [] → ∃ r', q = throw r' ∧ r.Twin m.place r') :
    Mirrors m lo hi d S (throw r) q := by
  intro ts us hts _ _
  refine .error fun htail => ?_
  obtain ⟨r', rfl, hr⟩ := h htail
  exact ⟨r', rfl, hr⟩

theorem refuse {c c' : Error.Cause} {t u : Option Token} (hcause : c.Alike c')
    (htoken : Option.Rel (Token.Twin m.place) t u) :
    Mirrors m lo hi d S (Parse.refuse c t) (Parse.refuse c' u) :=
  fail fun _ => ⟨_, rfl, .error hcause htoken⟩

theorem bind_add {e : Nat} (hp : Mirrors m lo hi d S p q)
    (hf : ∀ a b, S a b → Mirrors m 0 (hi - d) e T (f a) (g b)) :
    Mirrors m lo hi (d + e) T (p >>= f) (q >>= g) := by
  intro ts us hts hlo hhi
  have hends := hp ts us hts hlo hhi
  rw [StateT.run_bind, StateT.run_bind]
  generalize p.run ts = x at hends ⊢
  generalize q.run (us ++ m.tail) = y at hends ⊢
  cases hends with
  | error refused =>
    refine .error fun htail => ?_
    obtain ⟨r', rfl, hr⟩ := refused htail
    exact ⟨r', rfl, hr⟩
  | @ok a b ts' us' value rest taken =>
    have hnext := hf a b value ts' us' rest (Nat.zero_le _) (by omega)
    exact hnext.mono fun k hk => by omega

theorem bind (hp : Mirrors m lo hi d S p q)
    (hf : ∀ a b, S a b → Mirrors m 0 (hi - d) 0 T (f a) (g b)) :
    Mirrors m lo hi d T (p >>= f) (q >>= g) :=
  bind_add hp hf

theorem ite {c c' : Prop} [Decidable c] [Decidable c'] {p p' : Parse α} {q q' : Parse β}
    (hc : c' ↔ c) (htrue : c → Mirrors m lo hi d S p q) (hfalse : ¬c → Mirrors m lo hi d S p' q') :
    Mirrors m lo hi d S (if c then p else p') (if c' then q else q') := by
  by_cases h : c
  · rw [if_pos h, if_pos (hc.2 h)]
    exact htrue h
  · rw [if_neg h, if_neg fun h' => h (hc.1 h')]
    exact hfalse h

-- What the first parser sees as the end may be a semicolon for the second.
theorem peek {f : Option Token → Parse γ} {g : Option Token → Parse δ}
    (hnone : ∀ next, (∀ t ∈ next, t.kind = .semicolon) → (m.tail = [] → next = none) →
      Mirrors m 0 1 d T (f none) (g next))
    (hsome : ∀ t u, t.Twin m.place u → Mirrors m 1 hi d T (f (some t)) (g (some u))) :
    Mirrors m lo hi d T (Parse.peek >>= f) (Parse.peek >>= g) := by
  intro ts us hts hlo hhi
  rw [StateT.run_bind, StateT.run_bind, run_peek, run_peek, bind_ok, bind_ok]
  cases hts with
  | nil =>
    refine hnone _ m.stop (fun htail => ?_) [] [] .nil (Nat.le_refl _) Nat.one_pos
    rw [htail]
    rfl
  | @cons t u ts us h hts =>
    exact hsome t u h (t :: ts) (u :: us) (.cons h hts) (by simp) hhi

-- A test of the next token that holds of no semicolon.
theorem test {test : Token → Bool} (htwin : ∀ t u, t.Twin m.place u → test u = test t)
    (hstop : ∀ t, t.kind = .semicolon → test t = false) {f : Bool → Parse γ} {g : Bool → Parse δ}
    (htrue : Mirrors m 1 hi d T (f true) (g true))
    (hfalse : Mirrors m 0 hi d T (f false) (g false)) :
    Mirrors m lo hi d T ((do return (← Parse.peek).any test) >>= f)
      ((do return (← Parse.peek).any test) >>= g) := by
  intro ts us hts hlo hhi
  cases hts with
  | nil =>
    have hnext : m.tail.head?.any test = false := by
      cases htail : m.tail.head? with
      | none => rfl
      | some t => exact hstop t (m.stop t htail)
    have hends := hfalse [] [] .nil (Nat.le_refl _) hhi
    simpa [hnext] using hends
  | @cons t u ts us h hts =>
    have htest := htwin t u h
    cases hu : test t with
    | true =>
      have hends := htrue (t :: ts) (u :: us) (.cons h hts) (by simp) hhi
      simpa [htest, hu] using hends
    | false =>
      have hends := hfalse (t :: ts) (u :: us) (.cons h hts) (Nat.zero_le _) hhi
      simpa [htest, hu] using hends

theorem nextIs {kind : Token.Kind} (hkind : kind ≠ .semicolon) {f : Bool → Parse γ}
    {g : Bool → Parse δ} (htrue : Mirrors m 1 hi d T (f true) (g true))
    (hfalse : Mirrors m 0 hi d T (f false) (g false)) :
    Mirrors m lo hi d T (Parse.nextIs kind >>= f) (Parse.nextIs kind >>= g) :=
  test (fun t u h => by rw [h.kind]) (fun t ht => by simpa [ht] using hkind.symm) htrue hfalse

theorem nextIsWord {words : List String} {f : Bool → Parse γ} {g : Bool → Parse δ}
    (htrue : Mirrors m 1 hi d T (f true) (g true))
    (hfalse : Mirrors m 0 hi d T (f false) (g false)) :
    Mirrors m lo hi d T (Parse.nextIsWord words >>= f) (Parse.nextIsWord words >>= g) :=
  test (fun t u h => by rw [h.kind, h.isOneOf]) (fun t ht => by simp [ht]) htrue hfalse

-- Behind the first list there is no keyword.
theorem atEnd {words : List String} {g : Bool → Parse β} (h : Mirrors m 0 1 d S p (g false)) :
    Mirrors m 0 1 d S p (Parse.nextIsWord words >>= g) := by
  intro ts us hts hlo hhi
  have hends := h ts us hts hlo hhi
  cases hts with
  | cons => simp at hhi
  | nil =>
    have hnext : m.tail.head?.any (fun t => t.kind = .keyword && t.isOneOf words) = false := by
      cases htail : m.tail.head? with
      | none => rfl
      | some t => simp [m.stop t htail]
    simpa [hnext] using hends

theorem advance : Mirrors m 1 hi 1 (fun _ _ => True) Parse.advance Parse.advance := by
  intro ts us hts hlo _
  cases hts with
  | nil => simp at hlo
  | cons h hts => exact .ok trivial hts (Nat.le_refl _)

-- Taking a token that is there leaves the rest with one less.
theorem advanceThen {p : Parse γ} {q : Parse δ} (h : Mirrors m 0 (hi - 1) 0 T p q) :
    Mirrors m 1 hi 0 T (Parse.advance >>= fun _ => p) (Parse.advance >>= fun _ => q) :=
  any (advance.bind fun _ _ _ => h)

theorem discarded (h : Mirrors m lo hi d S p q) :
    Mirrors m lo hi d (fun _ _ => True) (discard p) (discard q) :=
  h.bind (f := fun _ => Pure.pure ()) (g := fun _ => Pure.pure ()) fun _ _ _ => .pure trivial

theorem someOf (h : Mirrors m lo hi d S p q) :
    Mirrors m lo hi d (Option.Rel S) (some <$> p) (some <$> q) := by
  rw [map_eq_pure_bind, map_eq_pure_bind]
  exact h.bind fun _ _ hab => .pure (.some hab)

-- A refusal that names the next token. For the second parser this may be a semicolon that the first
-- one does not see.
theorem refuseNext {cause : Option Token → Error.Cause} (hcause : Error.Cause.Names cause)
    {t u : Token} (h : t.Twin m.place u) :
    Mirrors m lo hi d S (Parse.refuse (cause (some t)) (some t))
      (Parse.refuse (cause (some u)) (some u)) :=
  refuse (hcause.alike (.some h)) (.some h)

theorem refuseEnd {cause : Error.Cause} {next : Option Token} {q : Parse β}
    (hend : m.tail = [] → next = none) (hq : next = none → q = Parse.refuse cause none) :
    Mirrors m lo hi d S (Parse.refuse cause none) q :=
  fail fun htail => ⟨_, hq (hend htail), .error ⟨rfl, rfl⟩ .none⟩

theorem expect (kind : Token.Kind) :
    Mirrors m lo hi 1 (Token.Twin m.place) (Parse.expect kind) (Parse.expect kind) := by
  refine peek (fun next _ hend => refuseEnd hend (by rintro rfl; rfl)) fun t u h => ?_
  refine ite (by rw [h.kind]) (fun _ => ?_) fun _ => ?_
  · exact advance.bind fun _ _ _ => .pure h
  · exact refuseNext (Error.Cause.names_expectedKind kind) h

theorem expectWord (word : String) :
    Mirrors m lo hi 1 (Token.Twin m.place) (Parse.expectWord word) (Parse.expectWord word) := by
  refine peek (fun next _ hend => refuseEnd hend (by rintro rfl; rfl)) fun t u h => ?_
  refine ite (by rw [h.kind, h.text]) (fun _ => ?_) fun _ => ?_
  · exact advance.bind fun _ _ _ => .pure h
  · exact refuseNext (Error.Cause.names_expectedWord word) h

-- Either list has more rounds than tokens.
theorem loop {body : Nat → Parse α} {body' : Nat → Parse β}
    (h : ∀ hi n n', hi ≤ n → hi ≤ n' → Mirrors m lo hi d S (body n) (body' n')) :
    Mirrors m lo hi d S (Parse.loop body) (Parse.loop body') := by
  intro ts us hts hlo _
  have hlength := hts.length_eq
  rw [run_loop, run_loop]
  refine h (ts.length + 1) _ _ (Nat.le_refl _) ?_ ts us hts hlo (Nat.lt_succ_self _)
  rw [List.length_append]
  omega

-- Rounds that go on with less tokens each, from one pair of arguments to another: none of the two
-- comes to the end of its rounds while there are tokens.
theorem rounds {ι κ : Type} {P : ι → κ → Prop} {body : Nat → ι → Parse α}
    {body' : Nat → κ → Parse β}
    (step : ∀ {n n' lo hi i k}, P i k →
      (∀ {lo hi' i k}, hi' ≤ hi - 1 → P i k → Mirrors m lo hi' d S (body n i) (body' n' k)) →
      Mirrors m lo hi d S (body (n + 1) i) (body' (n' + 1) k))
    (n n' : Nat) (hn : hi ≤ n) (hn' : hi ≤ n') {i : ι} {k : κ} (h : P i k) :
    Mirrors m lo hi d S (body n i) (body' n' k) := by
  induction n generalizing n' lo hi i k with
  | zero => exact empty (by omega)
  | succ n ih =>
    cases n' with
    | zero => exact empty (by omega)
    | succ n' => exact step h fun hle hik => ih n' (by omega) (by omega) hik

-- The rounds have no arguments.
theorem repeated {body : Nat → Parse α} {body' : Nat → Parse β}
    (step : ∀ {n n' lo hi}, (∀ {lo hi'}, hi' ≤ hi - 1 → Mirrors m lo hi' d S (body n) (body' n')) →
      Mirrors m lo hi d S (body (n + 1)) (body' (n' + 1)))
    (n n' : Nat) (hn : hi ≤ n) (hn' : hi ≤ n') : Mirrors m lo hi d S (body n) (body' n') :=
  @rounds α β m S lo hi d Unit Unit Eq (fun n _ => body n) (fun n _ => body' n)
    (fun _ ih => step fun hle => ih hle (Eq.refl ())) n n' hn hn' () () rfl

theorem separated {close : Token.Kind} (hclose : close ≠ .semicolon) {item : Parse α}
    {item' : Parse β} (h : ∀ {lo hi}, Mirrors m lo hi 1 S item item') (n n' : Nat) (hn : hi ≤ n)
    (hn' : hi ≤ n') :
    Mirrors m lo hi 0 (List.Forall₂ S) (Parse.separated close item n)
      (Parse.separated close item' n') := by
  refine repeated (fun {n n' lo hi} ih => ?_) n n' hn hn'
  refine nextIs hclose (.pure .nil) (any (h.bind fun a b hab => ?_))
  have hmore {lo hi' : Nat} (hle : hi' ≤ hi - 1) : Mirrors m lo hi' 0 (List.Forall₂ S)
      (Parse.separated close item n >>= fun rest => Pure.pure (a :: rest))
      (Parse.separated close item' n' >>= fun rest => Pure.pure (b :: rest)) :=
    (ih hle).bind fun _ _ hrest => .pure (.cons hab hrest)
  refine nextIs (by decide) (advanceThen (hmore (by omega)))
    (nextIs hclose (hmore (Nat.le_refl _)) (peek (fun next _ hend => ?_) fun t u ht => ?_))
  · exact (refuseEnd (S := fun _ _ => False) hend (by rintro rfl; rfl)).bind
      fun _ _ hfalse => hfalse.elim
  · exact (refuseNext (S := fun _ _ => False) Error.Cause.names_expectedSeparator ht).bind
      fun _ _ hfalse => hfalse.elim

theorem upTo {close : Token.Kind} (hclose : close ≠ .semicolon) {item : Parse α}
    {item' : Parse β} (h : ∀ {lo hi}, Mirrors m lo hi 1 S item item') (n n' : Nat) (hn : hi ≤ n)
    (hn' : hi ≤ n') :
    Mirrors m lo hi 0 (List.Forall₂ S) (Parse.upTo close item n) (Parse.upTo close item' n') := by
  refine repeated (fun {n n' lo hi} ih => ?_) n n' hn hn'
  refine nextIs hclose (.pure .nil) (any (h.bind fun a b hab => ?_))
  exact (ih (Nat.le_refl _)).bind fun _ _ hrest => .pure (.cons hab hrest)

end Mirrors

end Parse

open Parse

-- A parser that takes a token and gives twins.
structure Mirrored (m : Mirror) (p : Parse Node) : Prop where
  mirrors {lo hi : Nat} : Mirrors m lo hi 1 (Node.Twin m.place) p p

section Levels

variable {m : Mirror} {lo hi : Nat} {expression primary : Parse Node}

theorem mirrored_leftAssociative {isOp : Token → Bool} {make : Token → Node → Node → Node}
    {operand : Parse Node} (h : Mirrored m operand)
    (htwin : ∀ t u, t.Twin m.place u → isOp u = isOp t)
    (hstop : ∀ t, t.kind = .semicolon → isOp t = false)
    (hmake : ∀ {t u a b c d}, t.Twin m.place u → Node.Twin m.place a b → Node.Twin m.place c d →
      Node.Twin m.place (make t a c) (make u b d)) :
    Mirrored m (leftAssociative isOp make operand) := by
  have hchain {lo hi : Nat} (n n' : Nat) (hn : hi ≤ n) (hn' : hi ≤ n') {a b : Node}
      (hab : Node.Twin m.place a b) : Mirrors m lo hi 0 (Node.Twin m.place)
        (chain isOp make operand n a) (chain isOp make operand n' b) := by
    refine Mirrors.rounds (fun hab ih => ?_) n n' hn hn' hab
    refine .peek (fun next hnext _ => ?_) fun t u ht => ?_
    · cases next with
      | none => exact .pure hab
      | some t =>
        simp only [hstop t (hnext t rfl)]
        exact .pure hab
    · refine .ite (by rw [htwin t u ht]) (fun _ => ?_) fun _ => .pure hab
      refine .advanceThen (.any (h.mirrors.bind fun c d hcd => ?_))
      exact ih (by omega) (hmake ht hab hcd)
  constructor
  intro lo hi
  exact h.mirrors.bind fun a b hab => .loop fun hi n n' hn hn' => hchain n n' hn hn' hab

theorem mirrored_conversion (hprimary : Mirrored m primary) : Mirrored m (conversion primary) := by
  constructor
  intro lo hi
  refine hprimary.mirrors.bind fun a b hab => .peek (fun next _ _ => ?_) fun t u ht => ?_
  · cases next with
    | none => exact .pure hab
    | some t => exact .atEnd (.pure hab)
  · refine .nextIsWord ?_ (.pure hab)
    refine .advanceThen (.any (hprimary.mirrors.bind fun c d hcd => ?_))
    exact .pure (.convert ht.place hab hcd)

theorem mirrors_postfixes (hexpression : Mirrored m expression) (hprimary : Mirrored m primary)
    (n n' : Nat) (hn : hi ≤ n) (hn' : hi ≤ n') {a b : Node} (hab : Node.Twin m.place a b) :
    Mirrors m lo hi 0 (Node.Twin m.place) (postfixes expression primary n a)
      (postfixes expression primary n' b) := by
  refine Mirrors.rounds (fun hab ih => ?_) n n' hn hn' hab
  refine .peek (fun next hnext _ => ?_) fun t u ht => ?_
  · cases next with
    | none => exact .pure hab
    | some t =>
      simp only [hnext t rfl]
      exact .pure hab
  · simp only [ht.kind]
    split
    · refine .advanceThen ?_
      refine .any ((mirrored_conversion hprimary).mirrors.bind fun c d hcd => ?_)
      exact ih (by omega) (.member ht.place hab hcd)
    · refine .advanceThen (.any (hexpression.mirrors.bind fun c d hcd => ?_))
      refine .any ((Mirrors.expect _).discarded.bind fun _ _ _ => ?_)
      exact ih (by omega) (.index ht.place hab hcd)
    · refine .advanceThen ?_
      refine (Mirrors.loop fun _ => Mirrors.separated (by decide) hexpression.mirrors).bind
        fun cs ds hcs => ?_
      refine .any ((Mirrors.expect _).discarded.bind fun _ _ _ => ?_)
      exact ih (by omega) (.call ht.place hab (.list hcs))
    · refine .ite (by rw [ht.isOneOf]) (fun _ => ?_) fun _ => .pure hab
      refine .advanceThen (.any (hprimary.mirrors.bind fun c d hcd => ?_))
      exact ih (by omega) (.convert ht.place hab hcd)
    · exact .pure hab

theorem twin_makeBinary {t u : Token} {a b c d : Node} (h : t.Twin m.place u)
    (hab : a.Twin m.place b) (hcd : c.Twin m.place d) :
    (makeBinary t a c).Twin m.place (makeBinary u b d) := by
  rw [makeBinary, makeBinary, h.text]
  exact .binary _ h.place hab hcd

theorem twin_makeCompare {t u : Token} {a b c d : Node} (h : t.Twin m.place u)
    (hab : a.Twin m.place b) (hcd : c.Twin m.place d) :
    (makeCompare t a c).Twin m.place (makeCompare u b d) := by
  rw [makeCompare, makeCompare, h.text]
  exact .compare _ h.place hab hcd

theorem mirrored_relation (hexpression : Mirrored m expression) (hprimary : Mirrored m primary) :
    Mirrored m (relation expression primary) := by
  have hoperand : Mirrored m (operand expression primary) := by
    constructor
    intro lo hi
    exact (mirrored_conversion hprimary).mirrors.bind fun a b hab => .loop fun hi n n' hn hn' =>
      mirrors_postfixes hexpression hprimary n n' hn hn' hab
  have hproduct : Mirrored m (product expression primary) :=
    mirrored_leftAssociative hoperand (fun t u h => by rw [isProduct, isProduct, h.kind, h.isOneOf])
      (fun t ht => by simp [isProduct, ht])
      twin_makeBinary
  have hsum : Mirrored m (sum expression primary) :=
    mirrored_leftAssociative hproduct (fun t u h => by rw [isSum, isSum, h.kind, h.isOneOf])
      (fun t ht => by simp [isSum, ht])
      twin_makeBinary
  exact mirrored_leftAssociative hsum (fun t u h => by rw [isRelation, isRelation, h.kind])
    (fun t ht => by simp [isRelation, ht, Token.Kind.isRelational])
    twin_makeCompare

theorem mirrored_assignment (hexpression : Mirrored m expression) (hprimary : Mirrored m primary) :
    Mirrored m (assignment expression primary) := by
  have hrelation := mirrored_relation hexpression hprimary
  constructor
  intro lo hi
  refine .peek (fun next _ _ => ?_) fun t u ht => ?_
  · exact hrelation.mirrors.bind fun _ _ _ => .empty (Nat.le_refl 0)
  · refine hrelation.mirrors.bind fun a b hab => .nextIs (by decide) ?_ (.pure hab)
    rw [if_pos rfl, if_pos rfl]
    refine .ite (by rw [hab.isTarget]) (fun _ => ?_) fun _ => .refuse ⟨rfl, rfl⟩ (.some ht)
    refine .advanceThen (.any (hexpression.mirrors.bind fun c d hcd => ?_))
    exact .pure (.assign ht.place hab hcd)

theorem mirrors_elements (hexpression : Mirrored m expression) (n n' : Nat) (hn : hi ≤ n)
    (hn' : hi ≤ n') :
    Mirrors m lo hi 0 (List.Forall₂ (Node.Twin m.place)) (elements expression n)
      (elements expression n') := by
  refine Mirrors.repeated (fun ih => ?_) n n' hn hn'
  refine .nextIs (by decide) (.pure .nil) (.any (hexpression.mirrors.bind fun a b hab => ?_))
  refine .nextIs (by decide) (.advanceThen ?_) (.pure (.cons hab .nil))
  exact (ih (by omega)).bind fun _ _ hrest => .pure (.cons hab hrest)

theorem mirrors_moreElements (hexpression : Mirrored m expression) (n n' : Nat) (hn : hi ≤ n)
    (hn' : hi ≤ n') :
    Mirrors m lo hi 0 (List.Forall₂ (Node.Twin m.place)) (moreElements expression n)
      (moreElements expression n') := by
  refine Mirrors.repeated (fun ih => ?_) n n' hn hn'
  refine .nextIs (by decide) (.advanceThen ?_) (.pure .nil)
  refine .nextIs (by decide) (.pure .nil) (.any (hexpression.mirrors.bind fun a b hab => ?_))
  exact (ih (by omega)).bind fun _ _ hrest => .pure (.cons hab hrest)

theorem mirrors_parenthesized (hexpression : Mirrored m expression) {p q : Place}
    (hplace : m.place p q) :
    Mirrors m lo hi 0 (Node.Twin m.place) (parenthesized expression p)
      (parenthesized expression q) := by
  refine .nextIs (by decide) ?_ (.any (hexpression.mirrors.bind fun a b hab => ?_))
  · exact .advanceThen (.pure (.literal _ _ hplace))
  · have hclose {hi : Nat} {c d : Node} (hcd : Node.Twin m.place c d) :
        Mirrors m 0 hi 0 (Node.Twin m.place) (discard (expect .rightParen) >>= fun _ => pure c)
          (discard (expect .rightParen) >>= fun _ => pure d) :=
      .any ((Mirrors.expect _).discarded.bind fun _ _ _ => .pure hcd)
    refine .nextIs (by decide) ?_ (hclose hab)
    exact (Mirrors.loop fun _ => mirrors_moreElements hexpression).bind fun cs ds hcs =>
      hclose (.tuple hplace (.list (.cons hab hcs)))

end Levels

section Nesting

theorem mirrors_integerLiteral {m : Mirror} {lo hi : Nat} {t u : Token} (h : t.Twin m.place u) :
    Mirrors m lo hi 0 (Node.Twin m.place) (liftM (integerLiteral t))
      (liftM (integerLiteral u)) := by
  rw [integerLiteral, integerLiteral, h.text]
  cases integerOf t.text with
  | error f => exact .fail fun _ => ⟨_, rfl, .fault f⟩
  | ok n =>
    by_cases hle : n ≤ Word.greatest
    · simp only [if_pos hle]
      exact .pure (.literal _ _ h.place)
    · simp only [if_neg hle]
      exact .fail fun _ => ⟨_, rfl, .error ⟨rfl, rfl⟩ (.some h)⟩

theorem mirrors_realLiteral {m : Mirror} {lo hi : Nat} {t u : Token} (h : t.Twin m.place u) :
    Mirrors m lo hi 0 (Node.Twin m.place) (liftM (realLiteral t)) (liftM (realLiteral u)) := by
  rw [realLiteral, realLiteral, h.text]
  cases realOf t.text with
  | error f => exact .fail fun _ => ⟨_, rfl, .fault f⟩
  | ok x => exact .pure (.literal _ _ h.place)

variable {m : Mirror} {sub : Parsers} (hexpression : ∀ left, Mirrored m (sub.expression left))
  (hprimary : ∀ left, Mirrored m (sub.primary left))

include hexpression hprimary

theorem mirrors_nested {lo hi : Nat} {t u : Token} (h : t.Twin m.place u) (left : Nat) :
    Mirrors m lo hi 0 (Node.Twin m.place) (nested sub t left) (nested sub u left) := by
  cases left with
  | zero => exact .refuse ⟨rfl, rfl⟩ (.some h)
  | succ left =>
    simp only [nested, h.kind]
    split
    · exact (Mirrors.loop fun _ => mirrors_elements (hexpression left)).bind fun cs ds hcs =>
        .any ((Mirrors.expect _).discarded.bind fun _ _ _ => .pure (.array h.place (.list hcs)))
    · exact mirrors_parenthesized (hexpression left) h.place
    · rw [h.text]
      exact .any ((hprimary left).mirrors.bind fun a b hab => .pure (.unary _ h.place hab))

theorem mirrored_primary (left : Nat) : Mirrored m (primary sub left) := by
  constructor
  intro lo hi
  refine .peek (fun next _ hend => .refuseEnd hend (by rintro rfl; rfl)) fun t u h => ?_
  have hnested {lo hi : Nat} := @mirrors_nested m sub hexpression hprimary lo hi t u h left
  simp only [h.kind, h.text]
  split
  · exact Mirrors.advance.bind fun _ _ _ => .pure (.ident _ h.place)
  · exact Mirrors.advance.bind fun _ _ _ => mirrors_integerLiteral h
  · exact Mirrors.advance.bind fun _ _ _ => mirrors_realLiteral h
  · exact Mirrors.advance.bind fun _ _ _ => .pure (.literal _ _ h.place)
  · exact Mirrors.advance.bind fun _ _ _ => hnested
  · exact Mirrors.advance.bind fun _ _ _ => hnested
  · exact Mirrors.advance.bind fun _ _ _ => hnested
  · refine .ite (by rw [isSum, isSum, h.kind, h.isOneOf]) (fun _ => ?_) fun _ => ?_
    · exact Mirrors.advance.bind fun _ _ _ => hnested
    · exact .refuse (Error.Cause.alike_unexpectedToken h) (.some h)
  · exact .refuse (Error.Cause.alike_unexpectedToken h) (.some h)

end Nesting

-- However deep expressions may stand inside each other.
theorem mirrored_parsers (m : Mirror) (n : Nat) :
    (∀ left, Mirrored m ((parsers n).expression left)) ∧
      ∀ left, Mirrored m ((parsers n).primary left) := by
  induction n with
  | zero =>
    have hnone : Mirrored m (do refuse .nestsTooDeeply (← peek)) := by
      constructor
      intro lo hi
      exact .peek (fun next _ hend => .refuseEnd hend (by rintro rfl; rfl))
        fun t u h => .refuse ⟨rfl, rfl⟩ (.some h)
    exact ⟨fun _ => hnone, fun _ => hnone⟩
  | succ n ih =>
    obtain ⟨hexpression, hprimary⟩ := ih
    have houter := mirrored_primary hexpression hprimary
    exact ⟨fun left => mirrored_assignment (hexpression left) (houter left), houter⟩

end Grammar

end TernLang
