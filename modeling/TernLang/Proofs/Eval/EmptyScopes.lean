import TernLang.Proofs.Eval.Framing
import TernLang.Proofs.Eval.Layout

-- An empty scope makes no difference. One more of them around the current scope is there in the end
-- as it was, and nothing else has changed; and braces around a statement that declares nothing are
-- redundant.

namespace TernLang

namespace Chain

variable {α : Type} {c d : Chain α}

-- Puts an empty scope after the first `k`, or after all if there are fewer.
def insertEmpty : Nat → List (Frame α) → List (Frame α)
  | 0, fs => .empty :: fs
  | _ + 1, [] => [.empty]
  | k + 1, f :: fs => f :: insertEmpty k fs

-- The same chain with an empty scope inside its current one, or so many scopes further out.
def widen : Nat → Chain α → Chain α
  | 0, c => c.push .empty
  | k + 1, c => { c with outer := insertEmpty k c.outer }

theorem frames_widen (k : Nat) (c : Chain α) : (c.widen k).frames = insertEmpty k c.frames := by
  cases k <;> rfl

theorem eq_of_frames_eq (h : c.frames = d.frames) : c = d := by
  cases c
  cases d
  simp only [frames, List.cons.injEq] at h
  rw [h.1, h.2]

theorem push_widen (k : Nat) (c : Chain α) (f : Frame α) :
    (c.widen k).push f = (c.push f).widen (k + 1) :=
  eq_of_frames_eq (congrArg (f :: ·) (frames_widen k c))

theorem pop_widen (k : Nat) (h : c.outer ≠ []) : (c.widen (k + 1)).pop = c.pop.widen k := by
  obtain ⟨current, outer⟩ := c
  cases outer with
  | nil => exact absurd rfl h
  | cons f fs => cases k <;> rfl

theorem lookup?_widen (k : Nat) (c : Chain α) (name : String) :
    (c.widen k).lookup? name = c.lookup? name := by
  rw [lookup?, lookup?, frames_widen]
  generalize c.frames = fs
  induction fs generalizing k with
  | nil => cases k <;> rfl
  | cons f fs ih =>
    cases k with
    | zero => rfl
    | succ k => simp only [insertEmpty, List.findSome?_cons, ih]

theorem assignIn?_insertEmpty (k : Nat) (name : String) (value : α) (fs : List (Frame α)) :
    assignIn? name value (insertEmpty k fs) = (assignIn? name value fs).map (insertEmpty k) := by
  induction fs generalizing k with
  | nil => cases k <;> rfl
  | cons f fs ih =>
    cases k with
    | zero => rfl
    | succ k =>
      rw [insertEmpty, assignIn?, assignIn?, ih]
      cases f.assign? name value with
      | some g => rfl
      | none => cases assignIn? name value fs <;> rfl

theorem assign?_widen (k : Nat) (c : Chain α) (name : String) (value : α) :
    (c.widen k).assign? name value = (c.assign? name value).map (widen k) := by
  have hinjective : Function.Injective (Option.map (frames (α := α))) :=
    Option.map_injective fun _ _ => eq_of_frames_eq
  apply hinjective
  calc ((c.widen k).assign? name value).map frames
      = (assignIn? name value c.frames).map (insertEmpty k) := by
        rw [map_frames_assign?, frames_widen, assignIn?_insertEmpty]
    _ = ((c.assign? name value).map (widen k)).map frames := by
        rw [← map_frames_assign?, Option.map_map, Option.map_map]
        congr 1
        funext d
        exact (frames_widen k d).symm

end Chain

namespace Node

-- The places of a source text are known.
def Leaves.known : Leaves := ⟨Place.Known, fun _ => True⟩

theorem isProgram_known_of_parse [Machine] {source : String} {program : Node}
    (h : parse source = .ok program) : program.IsProgram .known := by
  unfold parse at h
  split at h
  · rename_i tokens hscan
    have hstart : Place.start.Known := by decide
    refine isProgram_of_ofTokens hstart (fun t ht => ⟨?_, ?_⟩) h
    · exact Token.known_of_scan hscan ht
    · exact Token.text_of_scan (fun _ _ _ => trivial) hscan t ht
  · exact absurd h (by simp)

theorem IsExpression.place {l : Leaves} {n : Node} (h : n.IsExpression l) :
    ∃ p, n.place? = some p ∧ l.place p := by
  cases h <;> exact ⟨_, rfl, by assumption⟩

theorem IsPart.place {l : Leaves} {part : Part} {n : Node} (h : n.IsPart l part) :
    ∃ p, n.place? = some p ∧ l.place p := by
  induction h with
  | ofBlock _ ih => exact ih
  | ofExpression hexpression => exact hexpression.place
  | _ => exact ⟨_, rfl, by assumption⟩

end Node

theorem Outcome.Twin.eq {x y : Except Failure Value} (h : Outcome.Twin Eq (Value.Twin Eq) x y) :
    x = y := by
  cases h with
  | ok value => rw [value.eq]
  | error failure => rw [failure.eq]

def State.widen (k : Nat) (s : State) : State := s.withScopes (s.scopes.widen k)

namespace Eval

variable {α : Type} {declares : Bool} {m : Eval α}

-- A computation does not notice an empty scope, unless it is the current one and something is
-- declared in it.
theorem Course.widen {s : State} {ms : List (Move Value)} (h : Course declares m s ms) {k : Nat}
    (hk : declares = true → 0 < k) : m (s.widen k) = mapState (·.widen k) (m s) := by
  induction h generalizing k with
  | quiet step s =>
    refine (step.blind s _).trans (mapState_congr ?_)
    rw [State.widen, step.blind.scopes s]
  | @bindOk _ _ _ m f s t a _ _ _ ok _ ihm ihf =>
    have hfirst := ihm hk
    rw [ok] at hfirst
    have hsecond := ihf hk
    simp only [Bind.bind, EStateM.bind, hfirst, ok, mapState]
    exact hsecond
  | @bindError _ _ _ m f s t e _ _ error ih =>
    have hfirst := ih hk
    rw [error] at hfirst
    simp only [Bind.bind, EStateM.bind, hfirst, error, mapState]
  | lookup name s =>
    have hfind : (s.widen k).scopes.lookup? = s.scopes.lookup? :=
      funext fun name => Chain.lookup?_widen k s.scopes name
    rw [lookup_eq, lookup_eq, hfind]
    cases Name.lookup s.scopes.lookup? (.str name) <;> rfl
  | declare name value s =>
    obtain ⟨j, rfl⟩ := Nat.exists_eq_add_one.2 (hk rfl)
    rfl
  | assign name value s =>
    have hassign : (s.widen k).scopes.assign? name value = _ :=
      Chain.assign?_widen k s.scopes name value
    rw [assign_eq, assign_eq]
    cases hd : s.scopes.assign? name value with
    | none =>
      rw [hd] at hassign
      rw [Name.lookup_str_of_none hassign, Name.lookup_str_of_none hd]
      rfl
    | some d =>
      rw [hd] at hassign
      rw [Name.lookup_str_of_some hassign, Name.lookup_str_of_some hd]
      rfl
  | @handled _ _ m s _ handle still _ ih =>
    have hinner := ih hk
    cases hm : m s with
    | ok a t =>
      rw [hm] at hinner
      have hwide : around id id handle m (s.widen k) = .ok a (t.widen k) := around_of_ok hinner
      have hplain : around id id handle m s = .ok a t := around_of_ok hm
      rw [hwide, hplain]
      rfl
    | error e t =>
      rw [hm] at hinner
      have hhandle : handle e (t.widen k) = ((handle e t).1, (handle e t).2.widen k) := by
        rw [State.widen, still e t, State.widen, still.scopes e t]
      have hwide : around id id handle m (s.widen k) =
          .error (handle e (t.widen k)).1 (handle e (t.widen k)).2 := around_of_error hinner
      have hplain : around id id handle m s = .error (handle e t).1 (handle e t).2 :=
        around_of_error hm
      rw [hwide, hplain, hhandle]
      rfl
  | @inScope _ _ m s ms inner ih =>
    -- Seen from the new scope the empty one is one further out, and so never the current one.
    have hstart : (s.widen k).withScopes ((s.widen k).scopes.push .empty) =
        (s.withScopes (s.scopes.push .empty)).widen (k + 1) :=
      congrArg s.withScopes (Chain.push_widen k s.scopes .empty)
    have houter := Chain.Framed.outer_ne_nil (c := s.scopes) (f := .empty) inner.framed
    rw [inScope_eq, inScope_eq, hstart, ih fun _ => Nat.succ_pos k, mapState_mapState,
      mapState_mapState]
    exact mapState_congr (congrArg (State.withScopes _) (Chain.pop_widen k houter))

theorem HasCourse.widen (h : HasCourse declares m) {k : Nat} (hk : declares = true → 0 < k)
    (s : State) : m (s.widen k) = mapState (·.widen k) (m s) := by
  obtain ⟨ms, hms⟩ := h s
  exact hms.widen hk

-- A scope in which nothing is declared might as well not be there.
theorem inScope_eq_self (h : HasCourse false m) : inScope .empty m = m := by
  funext s
  have hwide : m (s.withScopes (s.scopes.push .empty)) = mapState (·.widen 0) (m s) :=
    h.widen (k := 0) (by simp) s
  rw [inScope_eq, hwide, mapState_mapState]
  cases m s <;> rfl

section Blocks

variable {level : Int} {call : Caller} {n : Node}

-- An error keeps the first place that it gets.
theorem located_located {p : Place} (hp : p.Known) (q : Place) (m : Eval α) :
    located q (located p m) = located p m := by
  have hlocate (e : Failure) : (e.locate p).locate q = e.locate p := by
    cases e with
    | fault f => rfl
    | error e =>
      have hknown : (e.locate p).place.Known := by
        unfold Error.locate
        split
        · assumption
        · exact hp
      exact congrArg Failure.error (Error.locate_of_known hknown q)
  funext s
  cases hm : m s with
  | ok a t => simp only [located, hm]
  | error e t => simp only [located, hm, hlocate]

theorem located_congr (q : Place) {m m' : Eval α} {s t : State} (h : m s = m' t) :
    located q m s = located q m' t := by
  simp only [located, h]

theorem visit_eq {p : Place} (hplace : n.place? = some p) (m : Eval Value) (s : State) :
    visit level n m s = located p m (emitted level (.visited n.typeName p) s) := by
  have hemit : emit level (.visited n.typeName p) = modify (emitted level _) := emit_eq_modify rfl
  simp only [visit, hplace, hemit]
  rfl

-- What a node with a known place fails with has a place.
theorem located_eval {p : Place} (hplace : n.place? = some p) (hp : p.Known) (q : Place) :
    located q (eval level call n) = eval level call n := by
  obtain ⟨m, hm⟩ : ∃ m, eval level call n = visit level n m := ⟨_, eval.eq_def ..⟩
  funext s
  calc located q (eval level call n) s
      = located q (located p m) (emitted level (.visited n.typeName p) s) := by
        rw [hm]
        exact located_congr q (visit_eq hplace m s)
    _ = eval level call n s := by rw [located_located hp, hm, visit_eq hplace]

theorem eval_block_eq (h : HasCourse false (eval level call n)) {p : Place}
    (hplace : n.place? = some p) (hp : p.Known) (q : Place) (s : State) :
    eval level call (.block q (.list [n])) s =
      eval level call n (emitted level (.visited "Block" q) s) := by
  have hbody : evalBody level call (.list [n]) = eval level call n := by
    simp only [evalBody, evalSequence, bind_pure]
  have hblock : eval level call (.block q (.list [n])) =
      visit level (.block q (.list [n])) (inScope .empty (evalBody level call (.list [n]))) :=
    eval.eq_def ..
  rw [hblock, visit_eq rfl, hbody, inScope_eq_self h, located_eval hplace hp]
  rfl

end Blocks

-- Evaluation does not depend on what was reported before.
theorem endTwin_emitted (level limit : Int) (room : Nat) (n : Node) (event : Event) (s : State) :
    EndTwin Eq (eval level (invoke level limit room) n (emitted level event s))
      (eval level (invoke level limit room) n s) := by
  have hrefl : ∀ p : Place, p = p := fun _ => rfl
  have hfollows := follows_eval (callsFollow_invoke (.places level located_of_eq) limit room)
    (Node.Twin.refl hrefl n)
  exact endTwin_of_meets (hfollows.meets (pairs_of_twin (twin_emitted_left (.refl hrefl s) event)))

-- A statement as a source text has it, in any chain of scopes and with any room for calls. An empty
-- scope anywhere around the current one changes neither its value or error nor anything that it
-- does, and stays empty. If it is no declaration, it has in braces the value or error that it has
-- without them, and does the same to the scopes, the input and the output.
theorem eval_of_empty_scope {n : Node} (h : n.IsPart .known .statement) (level limit : Int)
    (room : Nat) (s : State) :
    (∀ k, eval level (invoke level limit room) n (s.widen (k + 1)) =
      mapState (·.widen (k + 1)) (eval level (invoke level limit room) n s)) ∧
    (n.isDeclaration = false → ∀ place,
      let braced := eval level (invoke level limit room) (.block place (.list [n])) s
      let plain := eval level (invoke level limit room) n s
      outcome braced = outcome plain ∧
      (finalState braced).scopes = (finalState plain).scopes ∧
      (finalState braced).input = (finalState plain).input ∧
      (finalState braced).output = (finalState plain).output ∧
      (finalState braced).results = (finalState plain).results) := by
  have hcall := hasCourse_invoke level limit room
  refine ⟨fun k => (hasCourse_eval level (hcall true) n).widen (fun _ => Nat.succ_pos k) s,
    fun hplain place => ?_⟩
  have hstill := hasCourse_eval_of_isPart level hcall h hplain
  obtain ⟨p, hp, hknown⟩ := h.place
  have hend := endTwin_emitted level limit room n (.visited "Block" place) s
  rw [eval_block_eq hstill hp hknown]
  exact ⟨hend.outcomes.eq, hend.states.scopes.eq, hend.states.input, hend.states.output,
    hend.states.results⟩

section

attribute [local instance] Machine.usual

-- A conditional from a source text.
theorem eval_of_empty_scope_conditional :
    ∃ p n, (Node.parse "if a < 1 \x7b b = f(2); \x7d" = .ok (.program p (.list [n])) ∧
        n.IsPart .known .statement ∧ n.isDeclaration = false) ∧
      ∀ s : State,
        eval 0 (invoke 0 1000 1000) n (s.widen 1) =
          mapState (·.widen 1) (eval 0 (invoke 0 1000 1000) n s) ∧
        outcome (eval 0 (invoke 0 1000 1000) (.block .start (.list [n])) s) =
          outcome (eval 0 (invoke 0 1000 1000) n s) := by
  have hread : (Node.parse "if a < 1 \x7b b = f(2); \x7d").toOption.map
      (·.children.map Node.isDeclaration) = some [false] := by decide +kernel
  cases hparse : Node.parse "if a < 1 \x7b b = f(2); \x7d" with
  | error e =>
    rw [hparse] at hread
    cases hread
  | ok program =>
    rw [hparse] at hread
    cases Node.isProgram_known_of_parse hparse with
    | @program p ss _ hstatements =>
      have hone : ss.map Node.isDeclaration = [false] := Option.some.inj hread
      obtain ⟨n, rest, rfl, hplain, hnil⟩ := List.map_eq_cons_iff.1 hone
      obtain rfl := List.map_eq_nil_iff.1 hnil
      have hn := hstatements n List.mem_cons_self
      refine ⟨p, n, ⟨rfl, hn, hplain⟩, fun s => ?_⟩
      obtain ⟨hwide, hbraced⟩ := eval_of_empty_scope hn 0 1000 1000 s
      exact ⟨hwide 0, (hbraced hplain .start).1⟩

end

end Eval

end TernLang
