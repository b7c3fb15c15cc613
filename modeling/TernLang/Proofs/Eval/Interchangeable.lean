import TernLang.Proofs.Eval.Pieces
import TernLang.Proofs.Syntax.Alike

-- Equal functions do the same when they are called, if they are proper, as all functions in a
-- session are, and ask for arguments and results of the same kinds. Equality alone does not see to
-- that: the samples of kinds are compared as quantities, and `true` and `1` are the same one.

namespace TernLang

namespace Procedure

-- Two functions whose samples are of the same kinds, one by one.
structure SameKinds (p q : Procedure Value) : Prop where
  parameters : List.Forall₂ (fun a b => Option.Rel (fun v w => v.kind = w.kind) a.2 b.2)
    p.parameters q.parameters
  result : Option.Rel (fun v w => v.kind = w.kind) p.result q.result

-- The same function with another body.
def withBody (p : Procedure Value) (body : Node) : Procedure Value := { p with body }

section Kinds

variable {p q : Procedure Value}

theorem checkArgument_eq (hname : p.name = q.name) (name : Tree) {v w : Option Value}
    (h : Option.Rel (fun v w => v.kind = w.kind) v w) (arg : Value) :
    p.checkArgument name v arg = q.checkArgument name w arg := by
  cases h with
  | none => rfl
  | some hkind => simp only [checkArgument, hkind, hname]

theorem checkResult_eq (hname : p.name = q.name)
    (h : Option.Rel (fun v w => v.kind = w.kind) p.result q.result) (value : Value) :
    p.checkResult value = q.checkResult value := by
  unfold checkResult
  generalize p.result = v, q.result = w at h
  cases h with
  | none => rfl
  | some hkind => simp only [hkind, hname]

-- Of the samples only the kinds count.
theorem receive_eq (hname : p.name = q.name) {ps qs : List (Tree × Option Value)}
    (hkinds : List.Forall₂ (fun a b => Option.Rel (fun v w => v.kind = w.kind) a.2 b.2) ps qs)
    (hnames : ps.map Prod.fst = qs.map Prod.fst) (args : List Value) (f : Frame Value) :
    p.receive f ps args = q.receive f qs args := by
  induction hkinds generalizing args f with
  | nil => rw [receive.eq_def, receive.eq_def]
  | @cons a b ps qs hkind _ ih =>
    obtain ⟨name, v⟩ := a
    obtain ⟨name', w⟩ := b
    obtain ⟨hfirst, hrest⟩ := List.cons.inj hnames
    obtain rfl : name = name' := hfirst
    cases args with
    | nil => rw [receive.eq_def, receive.eq_def]
    | cons arg args =>
      rw [receive, receive, checkArgument_eq hname name hkind]
      exact bind_congr fun _ => bind_congr fun bound => ih hrest args _

theorem frame_eq (hname : p.name = q.name) (h : p.SameKinds q)
    (hnames : p.parameters.map Prod.fst = q.parameters.map Prod.fst) (args : List Value) :
    p.frame args = q.frame args := by
  rw [frame, frame, h.parameters.length_eq, hname, receive_eq hname h.parameters hnames]

-- Parameters with texts for names that are alike have the same names.
theorem names_eq_of_alike {ps qs : List (Tree × Option Value)}
    (hps : ∀ a ∈ ps, ∃ s, a.1 = .str s) (hqs : ∀ b ∈ qs, ∃ s, b.1 = .str s)
    (h : Value.alikeParameters ps qs = true) : ps.map Prod.fst = qs.map Prod.fst := by
  induction ps generalizing qs with
  | nil =>
    cases qs with
    | nil => rfl
    | cons b qs => simp [Value.alikeParameters] at h
  | cons a ps ih =>
    cases qs with
    | nil => simp [Value.alikeParameters] at h
    | cons b qs =>
      rw [List.forall_mem_cons] at hps hqs
      obtain ⟨name, v⟩ := a
      obtain ⟨name', w⟩ := b
      obtain ⟨⟨s, rfl⟩, hps⟩ := hps
      obtain ⟨⟨t, rfl⟩, hqs⟩ := hqs
      rw [Value.alikeParameters, Bool.and_eq_true, Bool.and_eq_true] at h
      rw [List.map_cons, List.map_cons, ih hps hqs h.2, Node.eq_of_alike_str h.1.1]

-- What equality says of functions, their results apart.
theorem alike_of_equal (h : (Value.function p).equal (.function q) = .ok true) :
    p.name = q.name ∧ Value.alikeParameters p.parameters q.parameters = true ∧
      p.body.alike q.body = true := by
  obtain ⟨name, parameters, result, body⟩ := p
  have halike : (Value.function ⟨name, parameters, result, body⟩).alike (.function q) = true := by
    rw [Value.equal] at h
    exact Except.ok.inj h
  simp only [Value.alike, Bool.and_eq_true, decide_eq_true_eq] at halike
  exact ⟨halike.1.1.1, halike.1.1.2, halike.2⟩

end Kinds

end Procedure

-- The function `f` that gives its argument back, if this is of the kind of a sample.
def Procedure.givesBack (place : Place) (sample : Value) : Procedure Value :=
  ⟨"f", [(.str "a", some sample)], none, .block place (.list [.ident place (.str "a")])⟩

theorem Procedure.proper_givesBack (place : Place) {sample : Value} (h : sample.Proper) :
    (Value.function (givesBack place sample)).Proper := by
  refine .function (List.forall_mem_singleton.2 ⟨"a", rfl⟩) ?_ (by simp [givesBack]) ?_
  · refine List.forall_mem_singleton.2 fun v hv => ?_
    exact Option.some.inj hv ▸ h
  · exact .block trivial (List.forall_mem_singleton.2 (.ofExpression (.ident trivial trivial)))

-- Where nothing is asked of places, only the causes have to be the same.
theorem Failure.Twin.locate_anywhere {p q : Place} {e f : Failure} (_ : Node.Anywhere p q)
    (h : e.Twin Node.Anywhere f) : (e.locate p).Twin Node.Anywhere (f.locate q) := by
  have herror {e f : Error} (hcause : e.cause = f.cause) :
      Failure.Twin Node.Anywhere (.error e) (.error f) := by
    obtain ⟨cause, place⟩ := e
    obtain ⟨cause', place'⟩ := f
    obtain rfl : cause = cause' := hcause
    exact .error (R := Node.Anywhere) cause trivial
  cases h with
  | error cause => exact herror (by rw [Error.cause_locate, Error.cause_locate])
  | unplaced cause => exact herror (by rw [Error.cause_locate, Error.cause_locate])
  | fault f => exact .fault f

namespace Eval

variable {p q : Procedure Value} {level limit : Int}

-- A function with a twin of its body.
theorem endTwin_invoke_withBody {body : Node} (h : p.body.Twin Node.Anywhere body)
    (level limit : Int) (room : Nat) (args : List Value) (s : State) :
    EndTwin Node.Anywhere (invoke level limit room p args s)
      (invoke level limit room (p.withBody body) args s) := by
  have hrefl (place : Place) : Node.Anywhere place place := trivial
  have hfunction : (Value.function p).Twin Node.Anywhere (.function (p.withBody body)) :=
    .function p.name (Value.Twin.refl_parameters hrefl _) (Value.Twin.refl_some hrefl _) h
  have hstates : s.Twin Node.Anywhere s := ⟨.refl hrefl _, rfl, rfl, rfl⟩
  have hargs : List.Forall₂ (Value.Twin Node.Anywhere) args args := Value.Twin.refl_all hrefl args
  have hfollows := callsFollow_invoke (.places level Failure.Twin.locate_anywhere) limit room
    hfunction hargs
  exact endTwin_of_meets (hfollows.meets (pairs_of_twin hstates))

-- The body and the kinds are all that a call looks at.
theorem invoke_withBody (hname : p.name = q.name)
    (hnames : p.parameters.map Prod.fst = q.parameters.map Prod.fst) (hkinds : p.SameKinds q)
    (room : Nat) (args : List Value) :
    invoke level limit room (p.withBody q.body) args = invoke level limit room q args := by
  have hsame : (p.withBody q.body).SameKinds q := ⟨hkinds.parameters, hkinds.result⟩
  have hframe : (p.withBody q.body).frame args = q.frame args :=
    Procedure.frame_eq (p := p.withBody q.body) hname hsame hnames args
  have hresult : (p.withBody q.body).checkResult = q.checkResult :=
    funext (Procedure.checkResult_eq hname hkinds.result)
  have hcalled : (p.withBody q.body).name = q.name := hname
  cases room with
  | zero => rw [invoke, invoke, hframe, hcalled]
  | succ room =>
    rw [invoke, invoke, hframe, hresult, hcalled]
    rfl

-- Equal functions with samples of the same kinds do the same in every state, with whatever
-- arguments and room for calls.
theorem invoke_of_equal (hp : (Value.function p).Proper) (hq : (Value.function q).Proper)
    (hkinds : p.SameKinds q) (h : (Value.function p).equal (.function q) = .ok true)
    (level limit : Int) (room : Nat) (args : List Value) (s : State) :
    EndTwin Node.Anywhere (invoke level limit room p args s)
      (invoke level limit room q args s) := by
  obtain ⟨hname, hparameters, hbody⟩ := Procedure.alike_of_equal h
  cases hp with
  | function hps _ _ hblock =>
    cases hq with
    | function hqs _ _ hblock' =>
      have hnames := Procedure.names_eq_of_alike hps hqs hparameters
      have htwin : p.body.Twin Node.Anywhere q.body := hblock.twin_of_alike hblock' hbody
      have hend := endTwin_invoke_withBody htwin level limit room args s
      rwa [invoke_withBody hname hnames hkinds] at hend

-- One function in two places.
theorem invoke_of_equal_samples :
    let p := Procedure.givesBack .unknown (.int 1)
    let q := Procedure.givesBack ⟨.int 3, .int 5⟩ (.int 1)
    let s : State := { scopes := ⟨.empty, []⟩, input := [], output := "", trace := #[] }
    ((Value.function p).Proper ∧ (Value.function q).Proper ∧ p.SameKinds q ∧
      (Value.function p).equal (.function q) = .ok true) ∧
    EndTwin Node.Anywhere (invoke 0 100 1 p [.int 7] s) (invoke 0 100 1 q [.int 7] s) := by
  intro p q s
  have hp : (Value.function p).Proper := Procedure.proper_givesBack _ (.int 1)
  have hq : (Value.function q).Proper := Procedure.proper_givesBack _ (.int 1)
  have hkinds : p.SameKinds q := ⟨.cons (.some rfl) .nil, .none⟩
  have hequal : (Value.function p).equal (.function q) = .ok true := by decide +kernel
  exact ⟨⟨hp, hq, hkinds, hequal⟩, invoke_of_equal hp hq hkinds hequal 0 100 1 [.int 7] s⟩

-- Without samples of the same kinds equal functions may differ: one asks for an integer, the other
-- for a boolean, and `1` and `true` are the same quantity.
theorem not_invoke_of_equal :
    ¬∀ p q : Procedure Value, (Value.function p).equal (.function q) = .ok true →
      ∀ (level limit : Int) (room : Nat) (args : List Value) (s : State),
        EndTwin Node.Anywhere (invoke level limit room p args s)
          (invoke level limit room q args s) := by
  intro h
  let p := Procedure.givesBack .unknown (.int 1)
  let q := Procedure.givesBack .unknown (.bool true)
  let s : State := { scopes := ⟨.empty, []⟩, input := [], output := "", trace := #[] }
  have hequal : (Value.function p).equal (.function q) = .ok true := by decide +kernel
  have hleft : outcome (invoke 0 100 1 p [.int 1] s) = .ok (.int 1) := by rfl
  have hright : outcome (invoke 0 100 1 q [.int 1] s) =
      .error (.ofCause (.argumentKind "a" "f" .boolean .integer)) := by rfl
  have hend := (h p q hequal 0 100 1 [.int 1] s).outcomes
  rw [hleft, hright] at hend
  cases hend

end Eval

end TernLang
