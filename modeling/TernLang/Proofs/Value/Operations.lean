import TernLang.Proofs.Value.Twin

-- Operations on twin values: equality and the other comparisons, arithmetic, conversions, members
-- and methods.

namespace TernLang

namespace Value

namespace Twin

variable {R : Place → Place → Prop} {v w v' w' : Value}

theorem sameNumber (hv : v.Twin R v') (hw : w.Twin R w') :
    v.sameNumber w = v'.sameNumber w' := by
  have hquantity {v w : Value} (h : v.Twin R w) :
      v.looseQuantity? = w.looseQuantity? ∧ v.origin? = w.origin? := by
    cases h <;> exact ⟨rfl, rfl⟩
  rw [Value.sameNumber, Value.sameNumber, (hquantity hv).1, (hquantity hv).2, (hquantity hw).1,
    (hquantity hw).2]

theorem field? {fs gs : List (String × Value)} (h : Bindings.Twin (Twin R) fs gs) (name : String) :
    Option.Rel (Twin R) (Value.field? name fs) (Value.field? name gs) :=
  h.get? name

-- What a comparison with any twins gives.
def AlikeTo (R : Place → Place → Prop) (v v' : Value) : Prop :=
  ∀ {w w' : Value}, w.Twin R w' → v.alike w = v'.alike w'

theorem alikeAll_of_forall₂ {vs vs' ws ws' : List Value}
    (hv : List.Forall₂ (fun v w => ∃ _ : v.Twin R w, AlikeTo R v w) vs vs')
    (hw : List.Forall₂ (Twin R) ws ws') : alikeAll vs ws = alikeAll vs' ws' := by
  induction hv generalizing ws ws' with
  | nil => cases hw <;> simp only [alikeAll]
  | cons head _ ih =>
    cases hw with
    | nil => simp only [alikeAll]
    | cons headw tailw => rw [alikeAll, alikeAll, head.2 headw, ih tailw]

theorem alikeSome_of_rel {r r' s s' : Option Value}
    (hr : Option.Rel (fun v w => ∃ _ : v.Twin R w, AlikeTo R v w) r r')
    (hs : Option.Rel (Twin R) s s') : alikeSome r s = alikeSome r' s' := by
  cases hr with
  | none => cases hs <;> simp only [alikeSome]
  | some h =>
    cases hs with
    | none => simp only [alikeSome]
    | some hw => rw [alikeSome, alikeSome, h.2 hw]

theorem alikeFields_of_twin {fs fs' gs gs' : List (String × Value)}
    (hf : Bindings.Twin (fun v w => ∃ _ : v.Twin R w, AlikeTo R v w) fs fs')
    (hg : Bindings.Twin (Twin R) gs gs') : alikeFields fs gs = alikeFields fs' gs' := by
  induction hf with
  | nil => rw [alikeFields, alikeFields]
  | cons name head _ ih =>
    have hfield := field? hg name
    rw [alikeFields, alikeFields, ih]
    generalize Value.field? name gs = x at hfield
    generalize Value.field? name gs' = y at hfield
    cases hfield with
    | none => rfl
    | some hw => simp only [head.2 hw]

theorem alikeParameters_of_twin {ps ps' qs qs' : List (Tree × Option Value)}
    (hp : Bindings.Twin (Option.Rel fun v w => ∃ _ : v.Twin R w, AlikeTo R v w) ps ps')
    (hq : Bindings.Twin (Option.Rel (Twin R)) qs qs') :
    alikeParameters ps qs = alikeParameters ps' qs' := by
  induction hp generalizing qs qs' with
  | nil => cases hq <;> simp only [alikeParameters]
  | cons name head _ ih =>
    cases hq with
    | nil => simp only [alikeParameters]
    | cons name' headq tailq =>
      rw [alikeParameters, alikeParameters, alikeSome_of_rel head headq, ih tailq]

-- Values of different kinds are compared as numbers.
theorem alike (hv : v.Twin R v') (hw : w.Twin R w') : v.alike w = v'.alike w' := by
  have hnumber := hv.sameNumber hw
  have hpart (v v' : Value) (h : ∃ _ : v.Twin R v', ∀ {w w' : Value}, w.Twin R w' →
      v.sameNumber w = v'.sameNumber w' → v.alike w = v'.alike w') :
      ∃ _ : v.Twin R v', AlikeTo R v v' := ⟨h.1, fun hw => h.2 hw (h.1.sameNumber hw)⟩
  induction hv using induct generalizing w w' with
  | null | bool | int | real | str | builtin | alien =>
    cases hw <;> simp only [Value.alike, hnumber]
  | array _ ih =>
    cases hw with
    | array each => simp only [Value.alike, alikeAll_of_forall₂ (ih.imp hpart) each]
    | _ => simpa only [Value.alike] using hnumber
  | tuple _ ih =>
    cases hw with
    | tuple each => simp only [Value.alike, alikeAll_of_forall₂ (ih.imp hpart) each]
    | _ => simpa only [Value.alike] using hnumber
  | object _ ih =>
    cases hw with
    | object each =>
      have hfields := ih.mono hpart
      simp only [Value.alike, alikeFields_of_twin hfields each, hfields.length_eq, each.length_eq]
    | _ => simpa only [Value.alike] using hnumber
  | function name _ _ hb ihp ihr =>
    cases hw with
    | function name' hq hs hc =>
      have hparameters := ihp.mono fun _ _ => rel_imp hpart
      simp only [Value.alike, alikeParameters_of_twin hparameters hq,
        alikeSome_of_rel (rel_imp hpart ihr) hs, hb.alike hc]
    | _ => simpa only [Value.alike] using hnumber
  | method m hv _ ihv ihvs =>
    cases hw with
    | method m' hw hws =>
      simp only [Value.alike, ihv hw (hv.sameNumber hw), alikeAll_of_forall₂ (ihvs.imp hpart) hws]
    | _ => simpa only [Value.alike] using hnumber

theorem haveSameNames {fs fs' gs gs' : List (String × Value)}
    (hf : Bindings.Twin (Twin R) fs fs') (hg : Bindings.Twin (Twin R) gs gs') :
    Value.haveSameNames fs gs = Value.haveSameNames fs' gs' := by
  have hfound (name : String) :
      (Value.field? name gs).isSome = (Value.field? name gs').isSome := by
    have hfield := field? hg name
    generalize Value.field? name gs = x at hfield
    generalize Value.field? name gs' = y at hfield
    cases hfield <;> rfl
  have hall : (fs.map (·.1)).all (fun name => (Value.field? name gs).isSome) =
      (fs'.map (·.1)).all (fun name => (Value.field? name gs').isSome) := by
    simp only [hf.names_eq, hfound]
  rw [List.all_map, List.all_map] at hall
  rw [Value.haveSameNames, Value.haveSameNames, hf.length_eq, hg.length_eq]
  exact congrArg _ hall

theorem equalLeaf (hv : v.Twin R v') (hw : w.Twin R w') :
    Outcome.Twin R Eq (v.equalLeaf w) (v'.equalLeaf w') := by
  refine hv.kind.discard.bind fun _ _ _ => hw.kind.discard.bind fun _ _ _ => .ok ?_
  cases hv <;> cases hw <;> rfl

-- What the equality with any twins gives.
def EqualTo (R : Place → Place → Prop) (v v' : Value) : Prop :=
  ∀ {w w' : Value}, w.Twin R w' → Outcome.Twin R Eq (v.equal w) (v'.equal w')

theorem equalAll_of_forall₂ {vs vs' ws ws' : List Value}
    (hv : List.Forall₂ (fun v w => ∃ _ : v.Twin R w, EqualTo R v w) vs vs')
    (hw : List.Forall₂ (Twin R) ws ws') :
    Outcome.Twin R Eq (equalAll vs ws) (equalAll vs' ws') := by
  induction hv generalizing ws ws' with
  | nil => cases hw <;> exact .ok rfl
  | cons head _ ih =>
    cases hw with
    | nil => exact .ok rfl
    | cons headw tailw =>
      rw [equalAll, equalAll]
      refine (head.2 headw).bind ?_
      rintro same _ rfl
      cases same with
      | true => exact ih tailw
      | false => exact .ok rfl

theorem equalFields_of_twin {fs fs' gs gs' : List (String × Value)}
    (hf : Bindings.Twin (fun v w => ∃ _ : v.Twin R w, EqualTo R v w) fs fs')
    (hg : Bindings.Twin (Twin R) gs gs') :
    Outcome.Twin R Eq (equalFields fs gs) (equalFields fs' gs') := by
  induction hf with
  | nil =>
    rw [equalFields, equalFields]
    exact .ok rfl
  | cons name head _ ih =>
    have hfield := field? hg name
    rw [equalFields, equalFields]
    generalize Value.field? name gs = x at hfield
    generalize Value.field? name gs' = y at hfield
    cases hfield with
    | none => exact .ok rfl
    | some hw =>
      refine (head.2 hw).bind ?_
      rintro same _ rfl
      cases same with
      | true => exact ih
      | false => exact .ok rfl

theorem equal (hv : v.Twin R v') (hw : w.Twin R w') :
    Outcome.Twin R Eq (v.equal w) (v'.equal w') := by
  have hleaf := hv.equalLeaf hw
  have hpart (v v' : Value) (h : ∃ _ : v.Twin R v', ∀ {w w' : Value}, w.Twin R w' →
      Outcome.Twin R Eq (v.equalLeaf w) (v'.equalLeaf w') →
      Outcome.Twin R Eq (v.equal w) (v'.equal w')) :
      ∃ _ : v.Twin R v', EqualTo R v v' := ⟨h.1, fun hw => h.2 hw (h.1.equalLeaf hw)⟩
  induction hv using induct generalizing w w' with
  | array hitems ih =>
    cases hw with
    | array each =>
      simp only [Value.equal, hitems.length_eq, each.length_eq]
      split
      · exact equalAll_of_forall₂ (ih.imp hpart) each
      · exact .ok rfl
    | _ => simpa only [Value.equal] using hleaf
  | tuple hitems ih =>
    cases hw with
    | tuple each =>
      simp only [Value.equal, hitems.length_eq, each.length_eq]
      split
      · exact equalAll_of_forall₂ (ih.imp hpart) each
      · exact .ok rfl
    | _ => simpa only [Value.equal] using hleaf
  | object hfields ih =>
    cases hw with
    | object each =>
      simp only [Value.equal, haveSameNames hfields each]
      split
      · exact equalFields_of_twin (ih.mono hpart) each
      · exact .ok rfl
    | _ => simpa only [Value.equal] using hleaf
  | function name hp hr hb _ _ =>
    cases hw with
    | function name' hq hs hc =>
      simp only [Value.equal]
      exact .ok (alike (.function name hp hr hb) (.function name' hq hs hc))
    | _ => simpa only [Value.equal] using hleaf
  | method m hv _ ihv _ =>
    cases hw with
    | method m' hw hws =>
      simp only [Value.equal]
      split
      · exact ihv hw (hv.equalLeaf hw)
      · exact .ok rfl
    | _ => simpa only [Value.equal] using hleaf
  | _ => cases hw <;> simpa only [Value.equal] using hleaf

theorem isLabelOf (hv : v.Twin R v') (hw : w.Twin R w') :
    Outcome.Twin R Eq (Eval.isLabelOf v w) (Eval.isLabelOf v' w') := by
  cases hv with
  | null => exact .ok rfl
  | _ => exact hw.equal (by constructor <;> assumption)

theorem numberAll_of_forall₂ {vs ws : List Value}
    (h : List.Forall₂ (fun v w => ∃ _ : v.Twin R w, ∀ n, (v.number n).1.Twin R (w.number n).1 ∧
      (v.number n).2 = (w.number n).2) vs ws) (n : Nat) :
    List.Forall₂ (Twin R) (numberAll n vs).1 (numberAll n ws).1 ∧
      (numberAll n vs).2 = (numberAll n ws).2 := by
  induction h generalizing n with
  | nil => exact ⟨.nil, rfl⟩
  | cons head _ ih =>
    obtain ⟨-, hnumber⟩ := head
    obtain ⟨hfirst, hnext⟩ := hnumber n
    simp only [numberAll, hnext]
    exact ⟨.cons hfirst (ih _).1, (ih _).2⟩

theorem number (h : v.Twin R w) (n : Nat) :
    (v.number n).1.Twin R (w.number n).1 ∧ (v.number n).2 = (w.number n).2 := by
  induction h using induct generalizing n with
  | real x origin => cases origin <;> exact ⟨.real _ _, rfl⟩
  | tuple _ ih =>
    obtain ⟨heach, hnext⟩ := numberAll_of_forall₂ ih n
    exact ⟨.tuple heach, hnext⟩
  | null => exact ⟨.null, rfl⟩
  | bool b => exact ⟨.bool b, rfl⟩
  | int m => exact ⟨.int m, rfl⟩
  | str s => exact ⟨.str s, rfl⟩
  | array each => exact ⟨.array each, rfl⟩
  | object each => exact ⟨.object each, rfl⟩
  | function name hp hr hb => exact ⟨.function name hp hr hb, rfl⟩
  | builtin b => exact ⟨.builtin b, rfl⟩
  | method m hv hvs => exact ⟨.method m hv hvs, rfl⟩
  | alien t => exact ⟨.alien t, rfl⟩

theorem contents (c : Comparison) {x y : Except Failure Bool} (h : Outcome.Twin R Eq x y)
    (m n : Nat) : Outcome.Twin R Eq (c.contents x m n) (c.contents y m n) := by
  cases c with
  | equal => exact h
  | notEqual =>
    refine h.bind ?_
    rintro same _ rfl
    exact .ok rfl
  | _ => exact .ok rfl

theorem holds (c : Comparison) (hv : v.Twin R v') (hw : w.Twin R w') :
    Outcome.Twin R Eq (c.holds v w) (c.holds v' w') := by
  have hsame := hv.equal hw
  cases hv with
  | array hitems =>
    cases hw with
    | array hothers =>
      simp only [Comparison.holds, hitems.length_eq, hothers.length_eq]
      exact contents c hsame _ _
    | int n =>
      simp only [Comparison.holds, hitems.length_eq]
      exact .ok rfl
    | _ => exact .ok rfl
  | str s =>
    cases hw with
    | str t => exact contents c hsame _ _
    | _ => exact .ok rfl
  | _ => cases hw <;> exact .ok rfl

theorem compare (op : Tree) (hv : v.Twin R v') (hw : w.Twin R w') :
    Outcome.Twin R (Twin R) (v.compare op w) (v'.compare op w') := by
  unfold Value.compare
  split
  · rename_i c _
    refine hv.kind.discard.bind fun _ _ _ => hw.kind.discard.bind fun _ _ _ =>
      (hv.holds c hw).bind ?_
    rintro b _ rfl
    exact .ok (.bool b)
  · exact .fault _

theorem ofFloat (x : Float) : (Value.ofFloat x).Twin R (Value.ofFloat x) := .real _ _

theorem quotient (x y : Float) :
    (Arithmetic.quotient x y).Twin R (Arithmetic.quotient x y) := by
  unfold Arithmetic.quotient
  split
  · exact .real _ _
  · exact ofFloat _

theorem ints (op : Arithmetic) (m n : Int) :
    Outcome.Twin R (Twin R) (op.ints m n) (op.ints m n) := by
  cases op with
  | div => exact .ok (quotient _ _)
  | rem =>
    simp only [Arithmetic.ints]
    split
    · exact .ofCause _
    · exact .ok (.int _)
  | _ => exact .ok (.int _)

theorem reals (op : Arithmetic) (x y : Float) : (op.reals x y).Twin R (op.reals x y) := by
  cases op with
  | div => exact quotient x y
  | rem => exact .null
  | _ => exact ofFloat _

theorem simple (op : Arithmetic) (hv : v.Twin R v') (hw : w.Twin R w') :
    Outcome.Twin R (Twin R) (op.simple v w) (op.simple v' w') := by
  cases hv with
  | int m =>
    cases hw with
    | int n => exact ints op m n
    | real y origin => exact .ok (reals op _ _)
    | _ => exact .ok .null
  | real x origin =>
    cases hw with
    | int n => exact .ok (reals op _ _)
    | real y origin' => exact .ok (reals op _ _)
    | _ => exact .ok .null
  | str s =>
    cases hw with
    | str t =>
      simp only [Arithmetic.simple]
      split
      · exact .ok (.str _)
      · exact .ok .null
    | int n =>
      simp only [Arithmetic.simple]
      split
      · exact .ok (.str _)
      · exact .ok .null
    | _ => exact .ok .null
  | array each =>
    simp only [Arithmetic.simple]
    split
    · exact .ok (.array (List.rel_append each (.cons hw .nil)))
    · exact .ok .null
  | _ => cases hw <;> exact .ok .null

theorem binaryLeaf (op : Tree) (hv : v.Twin R v') (hw : w.Twin R w') :
    Outcome.Twin R (Twin R) (v.binaryLeaf op w) (v'.binaryLeaf op w') := by
  refine hv.kind.discard.bind fun _ _ _ => hw.kind.discard.bind fun _ _ _ => ?_
  split
  · exact simple _ hv hw
  · exact .ok .null

theorem binaryAll_of_forall₂ (op : Tree) {vs vs' ws ws' : List Value}
    (hv : List.Forall₂ (fun v v' => ∃ _ : v.Twin R v', ∀ {w w' : Value}, w.Twin R w' →
      Outcome.Twin R (Twin R) (v.binary op w) (v'.binary op w')) vs vs')
    (hw : List.Forall₂ (Twin R) ws ws') :
    Outcome.Twin R (List.Forall₂ (Twin R)) (binaryAll op vs ws) (binaryAll op vs' ws') := by
  induction hv generalizing ws ws' with
  | nil => cases hw <;> exact .ok .nil
  | cons head _ ih =>
    cases hw with
    | nil => exact .ok .nil
    | cons headw tailw =>
      rw [binaryAll, binaryAll]
      exact (head.2 headw).bind fun _ _ hfirst => (ih tailw).bind fun _ _ hrest =>
        .ok (.cons hfirst hrest)

theorem binary (op : Tree) (hv : v.Twin R v') (hw : w.Twin R w') :
    Outcome.Twin R (Twin R) (v.binary op w) (v'.binary op w') := by
  have hleaf := hv.binaryLeaf op hw
  induction hv using induct generalizing w w' with
  | tuple _ ih =>
    cases hw with
    | tuple each =>
      have hitems := ih.imp fun v v' h => (⟨h.1, fun hw => h.2 hw (h.1.binaryLeaf op hw)⟩ :
        ∃ _ : v.Twin R v', ∀ {w w' : Value}, w.Twin R w' →
          Outcome.Twin R (Twin R) (v.binary op w) (v'.binary op w'))
      simp only [Value.binary]
      exact (binaryAll_of_forall₂ op hitems each).bind fun _ _ h => .ok (.tuple h)
    | _ => simpa only [Value.binary] using hleaf
  | _ => simpa only [Value.binary] using hleaf

theorem unary (op : Tree) (h : v.Twin R w) :
    Outcome.Twin R (Twin R) (v.unary op) (w.unary op) := by
  unfold Value.unary
  split
  · exact .ok h
  have hrefused : Outcome.Twin R (Twin R)
      (v.kind >>= fun kind => .error (.ofCause (.operandKind op.shown kind)))
      (w.kind >>= fun kind => .error (.ofCause (.operandKind op.shown kind))) := by
    refine h.kind.bind ?_
    rintro kind _ rfl
    exact .ofCause _
  cases h with
  | bool b => exact .ok (.bool _)
  | int n => exact .ok (.int _)
  | real x origin => exact .ok (ofFloat _)
  | _ => exact hrefused

theorem property (name : Tree) (h : v.Twin R w) :
    Outcome.Twin R (Twin R) (v.property name) (w.property name) := by
  refine h.kind.bind ?_
  rintro kind _ rfl
  split
  · exact .ok .null
  rename_i methods _
  split
  · generalize (name.text?.bind fun s => methods.find? (·.name = s)) = found
    cases found with
    | some m => exact .ok (.method m h .nil)
    | none =>
      cases h with
      | object each =>
        cases name.text? with
        | none => exact .ofCause _
        | some s =>
          have hfield := field? each s
          simp only [Option.bind_some]
          generalize Value.field? s _ = x at hfield
          generalize Value.field? s _ = y at hfield
          cases hfield with
          | some hw => exact .ok hw
          | none => exact .ofCause _
      | _ => exact .ofCause _
  · exact .fault _

theorem element? {vs ws : List Value} (h : List.Forall₂ (Twin R) vs ws) (i : Int) :
    ((Value.element? vs i).getD .null).Twin R ((Value.element? ws i).getD .null) := by
  unfold Value.element?
  split
  · exact .null
  · generalize i.toNat = k
    induction h generalizing k with
    | nil => exact .null
    | cons head _ ih =>
      cases k with
      | zero => exact head
      | succ k => simpa only [List.getElem?_cons_succ] using ih k

theorem index (hv : v.Twin R v') (hw : w.Twin R w') :
    Outcome.Twin R (Twin R) (v.index w) (v'.index w') := by
  have hother : Outcome.Twin R (Twin R) (do discard w.kind; .ok .null)
      (do discard w'.kind; .ok .null) :=
    hw.kind.discard.bind fun _ _ _ => .ok .null
  cases hw with
  | str name =>
    simp only [Value.index]
    exact hv.property _
  | int i =>
    cases hv with
    | str s => exact .ok (.str _)
    | array each => exact .ok (element? each i)
    | _ => exact hother
  | _ => cases hv <;> exact hother

theorem convert (target : Tree) (h : v.Twin R w) :
    Outcome.Twin R (Twin R) (v.convert target) (w.convert target) := by
  have htext (s : String) : Outcome.Twin R (Twin R) (textToInteger s) (textToInteger s) := by
    unfold textToInteger
    split
    · split
      · exact .ok (.int _)
      · exact .ofCause _
    · exact .fault _
    · exact .ofCause _
  have hreal (s : String) : Outcome.Twin R (Twin R) (textToReal s) (textToReal s) := by
    unfold textToReal
    simp only
    split
    · split
      · exact .ok (ofFloat _)
      · exact .ofCause _
    · exact .ofCause _
  refine h.kind.discard.bind fun _ _ _ => ?_
  split
  · cases h with
    | str s => exact htext s
    | int n => exact .ok (.int n)
    | real x origin => exact .ok (.int _)
    | bool b => exact .ok (.int _)
    | _ => exact .ok .null
  · cases h with
    | str s => exact hreal s
    | int n => exact .ok (.real _ _)
    | real x origin => exact .ok (.real x origin)
    | _ => exact .ok .null
  · cases h with
    | array each => cases each <;> exact .ok (.bool _)
    | tuple each => cases each <;> exact .ok (.bool _)
    | object each => cases each <;> exact .ok (.bool _)
    | bool b => exact .ok (.bool _)
    | int n => exact .ok (.bool _)
    | real x origin => exact .ok (.bool _)
    | str s => exact .ok (.bool _)
    | _ => exact .ok .null
  · cases h with
    | int n => exact .ok (.str _)
    | real x origin => exact .ok (.str _)
    | bool b => exact .ok (.str _)
    | str s => exact .ok (.str _)
    | _ => exact .ok .null
  · exact .ok .null

theorem texts (pieces : List (List Char)) :
    (Method.split.texts pieces).Twin R (Method.split.texts pieces) := by
  refine .array (List.forall₂_map_left_iff.2 (List.forall₂_map_right_iff.2 ?_))
  exact List.forall₂_same.2 fun piece _ => .str _

theorem split (s : String) {vs ws : List Value} (h : List.Forall₂ (Twin R) vs ws) :
    Outcome.Twin R (Twin R) (Method.split s vs) (Method.split s ws) := by
  cases h with
  | nil => exact .ok (texts _)
  | @cons v w vs ws head tail =>
    have hrefused : Outcome.Twin R (Twin R)
        (v.kind >>= fun kind => .error (.ofCause (.separatorKind kind)))
        (w.kind >>= fun kind => .error (.ofCause (.separatorKind kind))) := by
      refine head.kind.bind ?_
      rintro kind _ rfl
      exact .ofCause _
    cases head with
    | null => exact .ok (texts _)
    | str sep =>
      simp only [Method.split]
      split
      · exact .ok (texts _)
      · exact .ok (texts _)
    | _ => exact hrefused

theorem call (m : Method) (h : v.Twin R w) {vs ws : List Value}
    (hvs : List.Forall₂ (Twin R) vs ws) :
    Outcome.Twin R (Twin R) (m.call v vs) (m.call w ws) := by
  cases m with
  | stringSplit =>
    cases h with
    | str s => exact split s hvs
    | _ => exact .ok .null
  | stringLength =>
    cases h with
    | str s => exact .ok (.int _)
    | _ => exact .ok .null
  | stringIsEmpty =>
    cases h with
    | str s => exact .ok (.bool _)
    | _ => exact .ok .null
  | arrayLength =>
    cases h with
    | array each =>
      simp only [Method.call, each.length_eq]
      exact .ok (.int _)
    | _ => exact .ok .null
  | arrayIsEmpty =>
    cases h with
    | array each => cases each <;> exact .ok (.bool _)
    | _ => exact .ok .null
  | objectLength =>
    cases h with
    | object each =>
      simp only [Method.call, each.length_eq]
      exact .ok (.int _)
    | _ => exact .ok .null
  | objectIsEmpty =>
    cases h with
    | object each => cases each <;> exact .ok (.bool _)
    | _ => exact .ok .null

end Twin

end Value

end TernLang
