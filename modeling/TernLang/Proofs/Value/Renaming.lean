import TernLang.Eval.Evaluate
import TernLang.Proofs.Ast.Renaming

-- Values under other names. Only functions have names of variables in them: those of their
-- parameters and those in their bodies. Operations see nothing of these but whether they are the
-- same.

namespace TernLang

namespace Value

mutual

def rename (ρ : Renaming) : Value → Value
  | null => null
  | bool b => bool b
  | int n => int n
  | real x origin => real x origin
  | str s => str s
  | array items => array (renameAll ρ items)
  | tuple items => tuple (renameAll ρ items)
  | object fields => object (renameFields ρ fields)
  | function ⟨name, parameters, result, body⟩ =>
    function ⟨name, renameParameters ρ parameters, renameSome ρ result, body.rename ρ⟩
  | builtin b => builtin b
  | method m receiver bound => method m (rename ρ receiver) (renameAll ρ bound)
  | alien t => alien t

def renameAll (ρ : Renaming) : List Value → List Value
  | [] => []
  | v :: vs => rename ρ v :: renameAll ρ vs

def renameSome (ρ : Renaming) : Option Value → Option Value
  | none => none
  | some v => some (rename ρ v)

def renameFields (ρ : Renaming) : List (String × Value) → List (String × Value)
  | [] => []
  | (name, v) :: fields => (name, rename ρ v) :: renameFields ρ fields

def renameParameters (ρ : Renaming) : List (Tree × Option Value) → List (Tree × Option Value)
  | [] => []
  | (name, sample) :: parameters =>
    (Name.rename ρ name, renameSome ρ sample) :: renameParameters ρ parameters

end

end Value

-- A function keeps its name.
def Procedure.rename (ρ : Renaming) (p : Procedure Value) : Procedure Value where
  name := p.name
  parameters := Value.renameParameters ρ p.parameters
  result := Value.renameSome ρ p.result
  body := p.body.rename ρ

namespace Value

variable (ρ : Renaming)

theorem rename_function (p : Procedure Value) : rename ρ (function p) = function (p.rename ρ) := rfl

theorem renameAll_eq_map (vs : List Value) : renameAll ρ vs = vs.map (rename ρ) := by
  induction vs with
  | nil => rfl
  | cons v vs ih => rw [renameAll, ih, List.map_cons]

theorem renameSome_eq_map (o : Option Value) : renameSome ρ o = o.map (rename ρ) := by
  cases o <;> rfl

theorem renameParameters_eq_map (parameters : List (Tree × Option Value)) :
    renameParameters ρ parameters =
      parameters.map fun q => (Name.rename ρ q.1, renameSome ρ q.2) := by
  induction parameters with
  | nil => rfl
  | cons q parameters ih => rw [renameParameters, ih, List.map_cons]

@[simp]
theorem length_renameAll (vs : List Value) : (renameAll ρ vs).length = vs.length := by
  rw [renameAll_eq_map, List.length_map]

@[simp]
theorem length_renameFields (fields : List (String × Value)) :
    (renameFields ρ fields).length = fields.length := by
  induction fields with
  | nil => rfl
  | cons f fields ih => rw [renameFields, List.length_cons, List.length_cons, ih]

@[simp]
theorem length_renameParameters (parameters : List (Tree × Option Value)) :
    (renameParameters ρ parameters).length = parameters.length := by
  rw [renameParameters_eq_map, List.length_map]

@[simp]
theorem kind_rename (v : Value) : (rename ρ v).kind = v.kind := by
  cases v <;> rfl

theorem given_rename (v : Value) : (rename ρ v).given = v.given.map (rename ρ) := by
  cases v with
  | alien t => cases t <;> rfl
  | _ => rfl

theorem bind_given_renameSome (o : Option Value) :
    (renameSome ρ o).bind given = renameSome ρ (o.bind given) := by
  cases o with
  | none => rfl
  | some v => rw [renameSome, Option.bind_some, given_rename, Option.bind_some, renameSome_eq_map]

section Texts

mutual

@[simp]
theorem hasText_rename : ∀ v : Value, (rename ρ v).hasText = v.hasText
  | array items | tuple items => by simp only [rename, hasText, haveText_rename items]
  | object fields => by simp only [rename, hasText, fieldsHaveText_rename fields]
  | null | bool _ | int _ | real .. | str _ | function _ | builtin _ | method .. | alien _ => rfl

@[simp]
theorem haveText_rename : ∀ vs : List Value, haveText (renameAll ρ vs) = haveText vs
  | [] => rfl
  | v :: vs => by simp only [renameAll, haveText, hasText_rename v, haveText_rename vs]

theorem fieldsHaveText_rename :
    ∀ fields : List (String × Value), fieldsHaveText (renameFields ρ fields) = fieldsHaveText fields
  | [] => rfl
  | (_, v) :: fields => by
    simp only [renameFields, fieldsHaveText, hasText_rename v, fieldsHaveText_rename fields]

end

mutual

theorem debug_rename : ∀ v : Value, (rename ρ v).debug = v.debug
  | array items | tuple items => by simp only [rename, debug, debugAll_rename items]
  | object fields => by simp only [rename, debug, debugFields_rename fields]
  | null | bool _ | int _ | real .. | str _ | function _ | builtin _ | method .. | alien _ => rfl

theorem debugAll_rename : ∀ vs : List Value, debugAll (renameAll ρ vs) = debugAll vs
  | [] => rfl
  | v :: vs => by simp only [renameAll, debugAll, debug_rename v, debugAll_rename vs]

theorem debugFields_rename :
    ∀ fields : List (String × Value), debugFields (renameFields ρ fields) = debugFields fields
  | [] => rfl
  | (_, v) :: fields => by
    simp only [renameFields, debugFields, debug_rename v, debugFields_rename fields]

end

mutual

theorem display_rename : ∀ v : Value, (rename ρ v).display = v.display
  | array items => by simp only [rename, display, displayAll_rename items]
  | str s => rfl
  | tuple items => debug_rename ρ (tuple items)
  | object fields => debug_rename ρ (object fields)
  | null | bool _ | int _ | real .. | function _ | builtin _ | method .. | alien _ => rfl

theorem displayAll_rename : ∀ vs : List Value, displayAll (renameAll ρ vs) = displayAll vs
  | [] => rfl
  | v :: vs => by simp only [renameAll, displayAll, display_rename v, displayAll_rename vs]

end

end Texts

section Equality

theorem sameNumber_rename (v w : Value) :
    (rename ρ v).sameNumber (rename ρ w) = v.sameNumber w := by
  have hquantity (v : Value) :
      (rename ρ v).looseQuantity? = v.looseQuantity? ∧ (rename ρ v).origin? = v.origin? := by
    cases v <;> exact ⟨rfl, rfl⟩
  rw [sameNumber, sameNumber, (hquantity v).1, (hquantity v).2, (hquantity w).1, (hquantity w).2]

theorem field?_rename (name : String) (fields : List (String × Value)) :
    field? name (renameFields ρ fields) = (field? name fields).map (rename ρ) := by
  induction fields with
  | nil => rfl
  | cons f fields ih =>
    unfold field? at *
    rw [renameFields, List.find?_cons, List.find?_cons]
    by_cases hname : f.1 = name
    · simp only [hname, decide_true, Option.map_some]
    · simp only [hname, decide_false, ih]

mutual

-- Values are the same under other names if and only if they are the same.
theorem alike_rename (v w : Value) : (rename ρ v).alike (rename ρ w) = v.alike w := by
  have hnumber := sameNumber_rename ρ v w
  cases v with
  | null | bool | int | real | str | builtin | alien =>
    cases w <;> first | rfl | simpa only [rename, alike] using hnumber
  | array vs =>
    cases w with
    | array ws => simp only [rename, alike, alikeAll_rename vs]
    | _ => simpa only [rename, alike] using hnumber
  | tuple vs =>
    cases w with
    | tuple ws => simp only [rename, alike, alikeAll_rename vs]
    | _ => simpa only [rename, alike] using hnumber
  | object fields =>
    cases w with
    | object others => simp only [rename, alike, length_renameFields, alikeFields_rename fields]
    | _ => simpa only [rename, alike] using hnumber
  | function p =>
    obtain ⟨name, parameters, result, body⟩ := p
    cases w with
    | function q =>
      simp only [rename, alike, alikeParameters_rename parameters, alikeSome_rename result,
        Node.alike_rename]
    | _ => simpa only [rename, alike] using hnumber
  | method m receiver bound =>
    cases w with
    | method => simp only [rename, alike, alike_rename receiver, alikeAll_rename bound]
    | _ => simpa only [rename, alike] using hnumber

theorem alikeAll_rename (vs ws : List Value) :
    alikeAll (renameAll ρ vs) (renameAll ρ ws) = alikeAll vs ws := by
  cases vs with
  | nil => cases ws <;> simp only [renameAll, alikeAll]
  | cons v vs => cases ws <;> simp only [renameAll, alikeAll, alike_rename v, alikeAll_rename vs]

theorem alikeSome_rename (a b : Option Value) :
    alikeSome (renameSome ρ a) (renameSome ρ b) = alikeSome a b := by
  cases a with
  | none => cases b <;> simp only [renameSome, alikeSome]
  | some v => cases b <;> simp only [renameSome, alikeSome, alike_rename v]

theorem alikeFields_rename (fields others : List (String × Value)) :
    alikeFields (renameFields ρ fields) (renameFields ρ others) = alikeFields fields others := by
  cases fields with
  | nil => simp only [renameFields, alikeFields]
  | cons f fields =>
    obtain ⟨name, v⟩ := f
    simp only [renameFields, alikeFields, field?_rename, alikeFields_rename fields]
    cases field? name others with
    | none => rfl
    | some w => simp only [Option.map_some, alike_rename v w]

theorem alikeParameters_rename (ps qs : List (Tree × Option Value)) :
    alikeParameters (renameParameters ρ ps) (renameParameters ρ qs) = alikeParameters ps qs := by
  cases ps with
  | nil => cases qs <;> simp only [renameParameters, alikeParameters]
  | cons p ps =>
    obtain ⟨name, sample⟩ := p
    cases qs with
    | nil => simp only [renameParameters, alikeParameters]
    | cons q qs =>
      obtain ⟨name', sample'⟩ := q
      simp only [renameParameters, alikeParameters, Tree.alike_rename, alikeSome_rename sample,
        alikeParameters_rename ps]

end

theorem haveSameNames_rename (fields others : List (String × Value)) :
    haveSameNames (renameFields ρ fields) (renameFields ρ others) =
      haveSameNames fields others := by
  have hall : (renameFields ρ fields).all (fun f => (field? f.1 (renameFields ρ others)).isSome) =
      fields.all fun f => (field? f.1 others).isSome := by
    induction fields with
    | nil => rfl
    | cons f fields ih =>
      rw [renameFields, List.all_cons, List.all_cons, ih, field?_rename, Option.isSome_map]
  rw [haveSameNames, haveSameNames, hall, length_renameFields, length_renameFields]

theorem equalLeaf_rename (v w : Value) : (rename ρ v).equalLeaf (rename ρ w) = v.equalLeaf w := by
  unfold equalLeaf
  rw [kind_rename, kind_rename]
  cases v <;> cases w <;> rfl

mutual

theorem equal_rename (v w : Value) : (rename ρ v).equal (rename ρ w) = v.equal w := by
  have hleaf := equalLeaf_rename ρ v w
  cases v with
  | array vs =>
    cases w with
    | array ws => simp only [rename, equal, length_renameAll, equalAll_rename vs]
    | _ => exact hleaf
  | tuple vs =>
    cases w with
    | tuple ws => simp only [rename, equal, length_renameAll, equalAll_rename vs]
    | _ => exact hleaf
  | object fields =>
    cases w with
    | object others => simp only [rename, equal, haveSameNames_rename, equalFields_rename fields]
    | _ => exact hleaf
  | function p =>
    cases w with
    | function q =>
      have halike := alike_rename ρ (function p) (function q)
      simpa only [rename, equal, Except.ok.injEq] using halike
    | _ => exact hleaf
  | method m receiver bound =>
    cases w with
    | method => simp only [rename, equal, equal_rename receiver]
    | _ => exact hleaf
  | null | bool | int | real | str | builtin | alien =>
    cases w <;> exact hleaf

theorem equalAll_rename (vs ws : List Value) :
    equalAll (renameAll ρ vs) (renameAll ρ ws) = equalAll vs ws := by
  cases vs with
  | nil => cases ws <;> simp only [renameAll, equalAll]
  | cons v vs => cases ws <;> simp only [renameAll, equalAll, equal_rename v, equalAll_rename vs]

theorem equalFields_rename (fields others : List (String × Value)) :
    equalFields (renameFields ρ fields) (renameFields ρ others) = equalFields fields others := by
  cases fields with
  | nil => simp only [renameFields, equalFields]
  | cons f fields =>
    obtain ⟨name, v⟩ := f
    simp only [renameFields, equalFields, field?_rename, equalFields_rename fields]
    cases field? name others with
    | none => rfl
    | some w => simp only [Option.map_some, equal_rename v w]

end

theorem isLabelOf_rename (label v : Value) :
    Eval.isLabelOf (rename ρ label) (rename ρ v) = Eval.isLabelOf label v := by
  cases label with
  | null => rfl
  | _ => exact equal_rename ρ v _

end Equality

section Operations

mutual

theorem number_rename (n : Nat) :
    ∀ v : Value, (rename ρ v).number n = (rename ρ (v.number n).1, (v.number n).2)
  | real x origin => by cases origin <;> rfl
  | tuple items => by simp only [rename, number, numberAll_rename n items]
  | null | bool _ | int _ | str _ | array _ | object _ | function _ | builtin _ | method ..
  | alien _ => rfl

theorem numberAll_rename (n : Nat) : ∀ vs : List Value,
    numberAll n (renameAll ρ vs) = (renameAll ρ (numberAll n vs).1, (numberAll n vs).2)
  | [] => rfl
  | v :: vs => by simp only [renameAll, numberAll, number_rename n v, numberAll_rename _ vs]

end

theorem holds_rename (c : Comparison) (v w : Value) :
    c.holds (rename ρ v) (rename ρ w) = c.holds v w := by
  have hequal := equal_rename ρ v w
  cases v with
  | array vs =>
    cases w with
    | array ws =>
      rw [rename, rename] at hequal
      simp only [rename, Comparison.holds, length_renameAll, hequal]
    | int n => simp only [rename, Comparison.holds, length_renameAll]
    | _ => rfl
  | _ => cases w <;> rfl

theorem compare_rename (op : Tree) (v w : Value) :
    (rename ρ v).compare op (rename ρ w) = (v.compare op w).map (rename ρ) := by
  unfold compare
  rw [kind_rename, kind_rename]
  cases op.text?.bind Comparison.ofSymbol? with
  | none => rfl
  | some c =>
    simp only [holds_rename]
    cases v.kind with
    | error e => rfl
    | ok k =>
      cases w.kind with
      | error e => rfl
      | ok l => cases c.holds v w <;> rfl

theorem rename_quotient (x y : Float) :
    rename ρ (Arithmetic.quotient x y) = Arithmetic.quotient x y := by
  unfold Arithmetic.quotient
  split <;> rfl

theorem map_rename_ints (op : Arithmetic) (m n : Int) :
    (op.ints m n).map (rename ρ) = op.ints m n := by
  cases op with
  | div => exact congrArg Except.ok (rename_quotient ..)
  | rem =>
    simp only [Arithmetic.ints]
    split <;> rfl
  | _ => rfl

theorem rename_reals (op : Arithmetic) (x y : Float) : rename ρ (op.reals x y) = op.reals x y := by
  cases op with
  | div => exact rename_quotient ..
  | _ => rfl

theorem simple_rename (op : Arithmetic) (v w : Value) :
    op.simple (rename ρ v) (rename ρ w) = (op.simple v w).map (rename ρ) := by
  have hreals (x y : Float) :
      (Except.ok (op.reals x y) : Except Failure Value) = .ok (rename ρ (op.reals x y)) :=
    congrArg Except.ok (rename_reals ρ op x y).symm
  cases v with
  | int m =>
    cases w with
    | int n => exact (map_rename_ints ρ op m n).symm
    | real y origin => exact hreals _ _
    | _ => rfl
  | real x origin =>
    cases w with
    | int n => exact hreals _ _
    | real y origin' => exact hreals _ _
    | _ => rfl
  | str s =>
    cases w with
    | str t | int n =>
      simp only [rename, Arithmetic.simple]
      split <;> rfl
    | _ => rfl
  | array items =>
    simp only [rename, Arithmetic.simple]
    split
    · simp only [Except.map, rename, renameAll_eq_map, List.map_append, List.map_cons, List.map_nil]
    · rfl
  | _ => cases w <;> rfl

theorem binaryLeaf_rename (op : Tree) (v w : Value) :
    (rename ρ v).binaryLeaf op (rename ρ w) = (v.binaryLeaf op w).map (rename ρ) := by
  unfold binaryLeaf
  rw [kind_rename, kind_rename]
  cases v.kind with
  | error e => rfl
  | ok k =>
    cases w.kind with
    | error e => rfl
    | ok l =>
      cases op.text?.bind Arithmetic.ofSymbol? with
      | none => rfl
      | some arithmetic => exact simple_rename ρ arithmetic v w

mutual

theorem binary_rename (op : Tree) (v w : Value) :
    (rename ρ v).binary op (rename ρ w) = (v.binary op w).map (rename ρ) := by
  have hleaf := binaryLeaf_rename ρ op v w
  cases v with
  | tuple vs =>
    cases w with
    | tuple ws =>
      simp only [rename, binary, binaryAll_rename op vs]
      cases binaryAll op vs ws <;> rfl
    | _ => exact hleaf
  | _ => cases w <;> exact hleaf

theorem binaryAll_rename (op : Tree) (vs ws : List Value) :
    binaryAll op (renameAll ρ vs) (renameAll ρ ws) = (binaryAll op vs ws).map (renameAll ρ) := by
  cases vs with
  | nil => cases ws <;> rfl
  | cons v vs =>
    cases ws with
    | nil => rfl
    | cons w ws =>
      simp only [renameAll, binaryAll, binary_rename op v w, binaryAll_rename op vs ws]
      cases v.binary op w with
      | error e => rfl
      | ok u => cases binaryAll op vs ws <;> rfl

end

theorem unary_rename (op : Tree) (v : Value) :
    (rename ρ v).unary op = (v.unary op).map (rename ρ) := by
  unfold unary
  split
  · rfl
  · cases v <;> rfl

theorem property_rename (name : Tree) (v : Value) :
    (rename ρ v).property name = (v.property name).map (rename ρ) := by
  unfold property
  rw [kind_rename]
  cases v.kind with
  | error e => rfl
  | ok k =>
    cases hmethods : Method.ofKind? k with
    | none => simp only [Bind.bind, Except.bind, hmethods, Except.map, rename]
    | some methods =>
      simp only [Bind.bind, Except.bind, hmethods]
      by_cases hkey : name.isKey
      · rw [if_pos hkey, if_pos hkey]
        cases name.text?.bind fun s => methods.find? (·.name = s) with
        | some m => rfl
        | none =>
          cases v with
          | object fields =>
            simp only [rename]
            cases name.text? with
            | none => rfl
            | some s =>
              simp only [Option.bind_some, field?_rename]
              cases field? s fields <;> rfl
          | _ => rfl
      · rw [if_neg hkey, if_neg hkey]
        rfl

theorem element?_rename (items : List Value) (i : Int) :
    element? (renameAll ρ items) i = (element? items i).map (rename ρ) := by
  unfold element?
  split
  · rfl
  · rw [renameAll_eq_map, List.getElem?_map]

theorem index_rename (v w : Value) :
    (rename ρ v).index (rename ρ w) = (v.index w).map (rename ρ) := by
  have hother : (do discard (rename ρ w).kind; .ok null : Except Failure Value) =
      (do discard w.kind; .ok null : Except Failure Value).map (rename ρ) := by
    rw [kind_rename]
    cases w.kind <;> rfl
  cases w with
  | str name => simpa only [rename, index] using property_rename ρ (.str name) v
  | int i =>
    cases v with
    | str s => rfl
    | array items =>
      simp only [rename, index, element?_rename]
      cases element? items i <;> rfl
    | _ => exact hother
  | _ => cases v <;> exact hother

theorem map_rename_textToInteger (s : String) :
    (textToInteger s).map (rename ρ) = textToInteger s := by
  unfold textToInteger
  split
  · split <;> rfl
  · rfl
  · rfl

theorem map_rename_textToReal (s : String) : (textToReal s).map (rename ρ) = textToReal s := by
  unfold textToReal
  simp only
  split
  · split <;> rfl
  · rfl

theorem toBoolean_rename (v : Value) : (rename ρ v).toBoolean = rename ρ v.toBoolean := by
  cases v with
  | array items | tuple items => cases items <;> rfl
  | object fields => cases fields <;> rfl
  | _ => rfl

theorem convert_rename (target : Tree) (v : Value) :
    (rename ρ v).convert target = (v.convert target).map (rename ρ) := by
  unfold convert
  rw [kind_rename]
  cases v.kind with
  | error e => rfl
  | ok k =>
    cases target.text?.bind Target.ofName? with
    | none => rfl
    | some type =>
      cases type with
      | integer =>
        cases v with
        | str s => exact (map_rename_textToInteger ρ s).symm
        | _ => rfl
      | real =>
        cases v with
        | str s => exact (map_rename_textToReal ρ s).symm
        | _ => rfl
      | boolean => exact congrArg Except.ok (toBoolean_rename ρ v)
      | string => cases v <;> rfl

theorem rename_texts (pieces : List (List Char)) :
    rename ρ (Method.split.texts pieces) = Method.split.texts pieces := by
  unfold Method.split.texts
  rw [rename, renameAll_eq_map, List.map_map]
  rfl

theorem split_rename (s : String) (args : List Value) :
    Method.split s (renameAll ρ args) = (Method.split s args).map (rename ρ) := by
  have htexts (pieces : List (List Char)) :
      (Except.ok (Method.split.texts pieces) : Except Failure Value) =
        .ok (rename ρ (Method.split.texts pieces)) :=
    congrArg Except.ok (rename_texts ρ pieces).symm
  cases args with
  | nil => exact htexts _
  | cons v args =>
    cases v with
    | null => exact htexts _
    | str separator =>
      simp only [renameAll, rename, Method.split]
      split <;> exact htexts _
    | _ => rfl

theorem call_rename (m : Method) (v : Value) (args : List Value) :
    m.call (rename ρ v) (renameAll ρ args) = (m.call v args).map (rename ρ) := by
  cases v with
  | str s =>
    cases m with
    | stringSplit => exact split_rename ρ s args
    | _ => rfl
  | array items =>
    cases m with
    | arrayLength => simp only [rename, Method.call, length_renameAll, Except.map]
    | arrayIsEmpty => cases items <;> rfl
    | _ => rfl
  | object fields =>
    cases m with
    | objectLength => simp only [rename, Method.call, length_renameFields, Except.map]
    | objectIsEmpty => cases fields <;> rfl
    | _ => rfl
  | _ => cases m <;> rfl

theorem textOf_rename (args : List Value) :
    Builtin.textOf (renameAll ρ args) = Builtin.textOf args := by
  unfold Builtin.textOf
  rw [haveText_rename, displayAll_rename]

end Operations

end Value

end TernLang
