import TernLang.Proofs.Eval.Blame
import TernLang.Proofs.Syntax.LexicalGrammar

-- Every error of a program points into its source text: at the piece of it that cannot be read, at
-- the token that is not expected, or at the first token of the node that failed.

namespace TernLang

theorem Settings.checkStack_ne_error (settings : Settings) (e : Error) :
    settings.checkStack ≠ .error (.error e) := by
  unfold checkStack
  split
  · simp
  · split
    · simp
    · split <;> simp

namespace Eval

-- Outside of all nodes no place is attached.
theorem located_unknown {α : Type} (m : Eval α) : located .unknown m = m := by
  funext s
  simp only [located]
  cases m s with
  | ok a t => rfl
  | error failure t =>
    cases failure with
    | fault f => rfl
    | error e => simp [Failure.locate, Error.locate, Place.not_known_unknown]

-- Besides what its statements fail with, a run only fails when the stack is exhausted.
theorem evalSequence_of_runFrom [Machine] {level depth : Int} {statements : List Node} {e : Error}
    {s t : State} (h : runFrom level depth (.list statements) s = .error (.error e) t)
    (hstack : e.cause ≠ .stackExhausted) :
    ∃ u, evalSequence level (invoke level depth depth.toNat) .null
      (statements.takeWhile (Settings.hasRoom depth)) s = .error (.error e) u := by
  have hexecute : ∃ u, execute level depth (.list statements) s = .error (.error e) u := by
    cases hend : execute level depth (.list statements) s with
    | ok v u =>
      rw [runFrom_of_ok hend] at h
      by_cases htext : v.hasText
      · rw [finish_of_hasText htext] at h
        cases h
      · rw [finish_of_not_hasText htext] at h
        cases h
    | error failure u =>
      rw [runFrom_of_error hend] at h
      obtain ⟨hfailure, -⟩ := EStateM.Result.error.inj h
      cases failure with
      | error e' =>
        obtain rfl := Failure.error.inj hfailure
        exact ⟨u, rfl⟩
      | fault f =>
        cases f with
        | endlessText =>
          obtain rfl := Failure.error.inj hfailure
          exact absurd rfl hstack
        | _ => cases hfailure
  obtain ⟨u, hexecute⟩ := hexecute
  simp only [execute, Bind.bind, EStateM.bind] at hexecute
  split at hexecute
  · split at hexecute
    · cases hexecute
    · obtain ⟨hfailure, -⟩ := EStateM.Result.error.inj hexecute
      obtain rfl := Failure.error.inj hfailure
      exact absurd rfl hstack
  · rename_i hsequence
    obtain ⟨rfl, rfl⟩ := EStateM.Result.error.inj hexecute
    exact ⟨_, hsequence⟩

end Eval

namespace Watched

variable {good : Place → Prop}

section Programs

variable {settings : Settings} {place : Place} {statements : List Node} {e : Error} {s t : State}

theorem run_of_checkStack [Machine] {depth : Int} (hdepth : settings.checkStack = .ok depth) :
    run settings (.program place (.list statements)) s =
      Handler.evalSequence
        ((handler settings.level).eval (invoke settings.level depth depth.toNat)) .null
        (statements.takeWhile (Settings.hasRoom depth))
        (Eval.emitted settings.level (.started statements.length) s) := by
  have hstarted := Eval.emit_started settings.level statements.length s
  simp only [run, own, Bind.bind, EStateM.bind, hstarted, hdepth]
  rfl

-- The error of a run came up at a node, the one that it has the place of.
theorem raised_of_run [Machine]
    (hstatements : ∀ n ∈ statements, SoundNode good n)
    (hs : (Eval.Pairing.alone settings.level good).Pairs s s)
    (h : Eval.run settings (.program place (.list statements)) s = .error (.error e) t)
    (hstack : e.cause ≠ .stackExhausted) :
    ∃ node u, run settings (.program place (.list statements)) s =
        .error ⟨.ofCause e.cause, node⟩ u ∧
      e.cause.IsRaisedBy node ∧ node.place? = some e.place ∧ good e.place := by
  cases hdepth : settings.checkStack with
  | error failure =>
    rw [Eval.run_of_checkStack_error hdepth rfl rfl] at h
    obtain ⟨rfl, -⟩ := EStateM.Result.error.inj h
    exact absurd hdepth (settings.checkStack_ne_error e)
  | ok depth =>
    rw [Eval.run_of_checkStack hdepth rfl rfl] at h
    obtain ⟨u, hsequence⟩ := Eval.evalSequence_of_runFrom h hstack
    have hfitting : ∀ n ∈ statements.takeWhile (Settings.hasRoom depth), SoundNode good n :=
      fun n hn => hstatements n ((List.takeWhile_prefix _).subset hn)
    have hstarted : (Eval.Pairing.alone settings.level good).Pairs
        (Eval.emitted settings.level (.started statements.length) s)
        (Eval.emitted settings.level (.started statements.length) s) := hs.emitted (.started _)
    have hagrees :=
      watches_evalSequence settings.level depth depth.toNat hfitting .unknown _ hstarted
    rw [Eval.located_unknown, hsequence] at hagrees
    rw [run_of_checkStack hdepth]
    generalize (Handler.evalSequence _ _ _ : Watched Value) _ = x at hagrees ⊢
    cases hagrees with
    | error raised hplace hgood => exact ⟨_, _, rfl, raised, hplace, hgood.2.2⟩

end Programs

-- The trees whose places are known and good.
def soundLeaves (good : Place → Prop) : Node.Leaves := ⟨fun p => p.Known ∧ good p, fun _ => True⟩

def soundRules (good : Place → Prop) : Grammar.Rules (soundLeaves good) where
  expression _ n := n.Twin (Sound good) n
  part _ _ n := n.Twin (Sound good) n
  literal place _ := .literal _ _ ⟨rfl, place⟩
  ident place _ := .ident _ ⟨rfl, place⟩
  parenthesized := id
  array place elements := .array ⟨rfl, place⟩ (.list (List.forall₂_same.2 elements))
  tuple place _ elements := .tuple ⟨rfl, place⟩ (.list (List.forall₂_same.2 elements))
  unary place _ operand := .unary _ ⟨rfl, place⟩ operand
  compare _ _ _ place left right := .compare _ ⟨rfl, place⟩ left right
  binary _ _ _ place left right := .binary _ ⟨rfl, place⟩ left right
  assign place _ target value := .assign ⟨rfl, place⟩ target value
  member place target property := .member ⟨rfl, place⟩ target property
  index place target index := .index ⟨rfl, place⟩ target index
  convert place value type := .convert ⟨rfl, place⟩ value type
  call place function arguments :=
    .call ⟨rfl, place⟩ function (.list (List.forall₂_same.2 arguments))
  parameter place _ type := .parameter _ ⟨rfl, place⟩ (rel_self.2 type)
  block place statements := .block ⟨rfl, place⟩ (.list (List.forall₂_same.2 statements))
  arm place label body := .arm ⟨rfl, place⟩ label body
  declare place _ target value := .declare ⟨rfl, place⟩ target (rel_self.2 value)
  function place _ parameters result body :=
    .function _ ⟨rfl, place⟩ (.list (List.forall₂_same.2 parameters)) (rel_self.2 result) body
  conditional place condition thenBlock elseBlock :=
    .conditional ⟨rfl, place⟩ condition thenBlock (rel_self.2 elseBlock)
  cases place scrutinee arms := .cases ⟨rfl, place⟩ scrutinee (.list (List.forall₂_same.2 arms))
  ofBlock := id
  ofExpression := id

-- There are no places in what a session starts with.
theorem pairs_start (settings : Settings) (input : String) (good : Place → Prop) :
    (Eval.Pairing.alone settings.level good).Pairs (Session.start settings input).state
      (Session.start settings input).state where
  scopes :=
    { current :=
        { vars := .nil
          consts := .cons _ .null <| .cons _ (.bool true) <| .cons _ (.bool false) <|
            .cons _ (.builtin _) <| .cons _ (.builtin _) <| .cons _ (.builtin _) .nil }
      outer := .nil }
  input := rfl
  output := rfl
  trace := trivial
  results := rfl

end Watched

namespace Position

-- Lines and columns are counted from 1.
structure Counted (p : Position) : Prop where
  line : 1 ≤ p.line
  column : 1 ≤ p.column

theorem Counted.after {p : Position} (h : p.Counted) (cs : List Char) : (p.after cs).Counted := by
  induction cs generalizing p with
  | nil => exact h
  | cons c cs ih =>
    refine ih ?_
    obtain ⟨hline, hcolumn⟩ := h
    unfold next
    split
    · exact ⟨by simp only; omega, by simp only; omega⟩
    · exact ⟨hline, by simp only; omega⟩

theorem counted_behind (cs : List Char) : (behind cs).Counted := by
  rw [← after_start]
  exact Counted.after ⟨by decide, by decide⟩ cs

end Position

theorem Token.counted_of_scan {source : String} {tokens : List Token}
    (h : Token.scan source = .ok tokens) :
    ∀ t ∈ tokens, ∃ pos : Position, pos.Counted ∧ t.place = .ofPosition pos := by
  refine Scan.forall_mem_tokens (I := fun pos _ => pos.Counted) (fun pos _ hpos => ⟨pos, hpos, rfl⟩)
    (fun pos c cs piece hpos _ => ⟨hpos.after _, fun _ _ => ⟨pos, hpos, rfl⟩⟩) _ _ _ _ ?_ h
  exact ⟨by decide, by decide⟩

-- What an error of a source text points at, by the stage that refuses the text or fails.
inductive Error.PointsInto [Machine] (settings : Settings)
    (input source : String) : Error → Prop where
  | character {pairs : List (Token.Kind × List Char)} {before : List Char} {c : Char}
    {rest : List Char} {cause : Cause} (cls : cause.cls = .lexical)
    (split : source.toList = before ++ c :: rest) (reads : Token.Reads pairs before (c :: rest))
    (offence : Token.IsOffence c rest cause) :
    PointsInto settings input source ⟨cause, .ofPosition (.behind before)⟩
  | token {tokens : List Token} {t : Token} {cause : Cause} (cls : cause.cls = .parse)
    (scanned : Token.scan source = .ok tokens) (listed : t ∈ tokens) :
    PointsInto settings input source ⟨cause, t.place⟩
  | node {tokens : List Token} {t : Token} {program node : Node} {cause : Cause} {s : State}
    (parsed : Node.parse source = .ok program)
    (raised : Watched.run settings program (Session.start settings input).state =
      .error ⟨.ofCause cause, node⟩ s)
    (cause_node : cause.IsRaisedBy node) (place : node.place? = some t.place)
    (scanned : Token.scan source = .ok tokens) (listed : t ∈ tokens) :
    PointsInto settings input source ⟨cause, t.place⟩

namespace Session

variable {settings : Settings} {input source : String} {e : Error}

theorem exists_of_perform {α : Type} {s : Session} {m : Eval α} {failure : Failure}
    (h : (s.perform m).1 = .error failure) : ∃ t, m s.state = .error failure t := by
  unfold perform at h
  split at h
  · cases h
  · rename_i hm
    obtain rfl := Except.error.inj h
    exact ⟨_, hm⟩

theorem pointsInto_of_runSource [Machine]
    (h : ((start settings input).runSource source).1 = .error (.error e))
    (hstack : e.cause ≠ .stackExhausted) : e.PointsInto settings input source := by
  rcases Token.reads_or_refused source with ⟨pairs, hreads⟩ |
    ⟨pairs, before, c, rest, cause, hsource, hreads, hoffence, hcls, hscan⟩
  · obtain ⟨tokens, hscan, hpairs⟩ := Token.scan_of_reads hreads
    have hne : tokens ≠ [] := by
      rintro rfl
      simp [Token.Scan.pairsOf] at hpairs
    -- The places that are good are those of the tokens.
    let good (p : Place) : Prop := ∃ t ∈ tokens, t.place = p
    have hfits : ∀ t ∈ tokens, t.Fits (Watched.soundLeaves good) := by
      intro t ht
      obtain ⟨pos, hpos, hplace⟩ := Token.counted_of_scan hscan t ht
      have hknown : t.place.Known := by
        rw [hplace, Place.known_ofPosition]
        exact fun hzero => absurd hpos.line (by omega)
      exact ⟨⟨hknown, t, ht, rfl⟩, Token.text_of_scan (fun _ _ _ => trivial) hscan t ht⟩
    have hparse : Node.parse source = Node.ofTokens tokens := by rw [Node.parse, hscan]
    cases hprogram : Node.ofTokens tokens with
    | error failure =>
      rw [runSource, hparse, hprogram] at h
      obtain rfl := Except.error.inj h
      obtain ⟨hcls, -, t, ht, hplace⟩ := Node.place_of_ofTokens_error hfits hne hprogram
      rw [show e = ⟨e.cause, t.place⟩ by rw [hplace]]
      exact .token hcls hscan ht
    | ok program =>
      rw [hprogram] at hparse
      obtain ⟨statements, rfl, hstatements⟩ :=
        Node.statements_of_ofTokens (Watched.soundRules good) hfits hprogram
      rw [runSource, hparse] at h
      obtain ⟨s, hrun⟩ := exists_of_perform h
      obtain ⟨node, u, hraised, hcause, hnode, t, ht, hplace⟩ :=
        Watched.raised_of_run hstatements (Watched.pairs_start settings input good) hrun hstack
      rw [show e = ⟨e.cause, t.place⟩ by rw [hplace]]
      exact .node hparse hraised hcause (by rw [hnode, hplace]) hscan ht
  · rw [runSource, Node.parse, hscan] at h
    obtain rfl := Failure.error.inj (Except.error.inj h)
    exact .character hcls hsource hreads hoffence

-- Every error of a program that is run on its own has a line and a column, and these are the ones
-- of what it points at. Only the exhausted stack has no place.
theorem counted_and_pointsInto_of_runSource [Machine] (settings : Settings) (input source : String)
    (e : Error) (h : ((start settings input).runSource source).1 = .error (.error e))
    (hstack : e.cause ≠ .stackExhausted) :
    (∃ pos : Position, e.place = .ofPosition pos ∧ 1 ≤ pos.line ∧ 1 ≤ pos.column) ∧
      e.PointsInto settings input source := by
  have hpoints := pointsInto_of_runSource h hstack
  have hcounted : ∃ pos : Position, pos.Counted ∧ e.place = .ofPosition pos := by
    cases hpoints with
    | character => exact ⟨_, Position.counted_behind _, rfl⟩
    | token _ scanned listed => exact Token.counted_of_scan scanned _ listed
    | node _ _ _ _ scanned listed => exact Token.counted_of_scan scanned _ listed
  obtain ⟨pos, hpos, hplace⟩ := hcounted
  exact ⟨⟨pos, hplace, hpos.line, hpos.column⟩, hpoints⟩

section

attribute [local instance] Machine.usual

-- A number is not taken apart, and the tuple that it is to be bound to is to blame.
theorem counted_and_pointsInto_of_runSource_tuple :
    (∃ pos : Position, Place.ofPosition ⟨2, 5⟩ = .ofPosition pos ∧
        1 ≤ pos.line ∧ 1 ≤ pos.column) ∧
      Error.PointsInto {} "" "let a;\nlet (a, b) = 3;"
        ⟨.notDestructurable .integer, .ofPosition ⟨2, 5⟩⟩ := by
  have hfails : ((start {} "").runSource "let a;\nlet (a, b) = 3;").1.map (fun _ => ()) =
      .error (.error ⟨.notDestructurable .integer, .ofPosition ⟨2, 5⟩⟩) := by decide +kernel
  refine counted_and_pointsInto_of_runSource {} "" "let a;\nlet (a, b) = 3;"
    ⟨.notDestructurable .integer, .ofPosition ⟨2, 5⟩⟩ ?_ (by decide)
  generalize ((start {} "").runSource "let a;\nlet (a, b) = 3;").1 = outcome at hfails ⊢
  cases outcome with
  | ok v => cases hfails
  | error failure => exact congrArg Except.error (Except.error.inj hfails)

end

end Session

end TernLang
