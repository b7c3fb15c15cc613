import TernLang.Eval.Invoke
import TernLang.Proofs.Syntax.WellFormed

-- Values that are values through and through, and what the operations on them give.

namespace TernLang

-- Digits, after an optional sign, that are more than an integer is read from.
def Reading.IsTooLong (s : String) : Prop :=
  IsDigits (sign s.toList).2 ∧ digitLimit < (sign s.toList).2.length

-- The failures that a program can have: an error of the language, but not that it met something
-- that is no value or no target, and the fault of a text with too many digits to be an integer.
def Failure.IsExpected : Failure → Prop
  | .error e => e.cause ≠ .unassignable ∧ ∀ type, e.cause ≠ .notAValue type
  | .fault f => ∃ s, Reading.IsTooLong s ∧
    (Value.str s).convert (.str "integer") = .error (.fault f)

-- An outcome that `P` holds of, or a failure that a program can have.
def EndsWell {α : Type} (P : α → Prop) : Except Failure α → Prop
  | .ok a => P a
  | .error failure => failure.IsExpected

namespace EndsWell

variable {α β : Type} {P : α → Prop} {Q : β → Prop} {x : Except Failure α}

theorem bind {f : α → Except Failure β} (hx : EndsWell P x) (hf : ∀ a, P a → EndsWell Q (f a)) :
    EndsWell Q (x >>= f) := by
  cases x with
  | ok a => exact hf a hx
  | error failure => exact hx

theorem ofCause {cause : Error.Cause} (hbound : cause ≠ .unassignable)
    (hvalue : ∀ type, cause ≠ .notAValue type) :
    EndsWell P (.error (.ofCause cause) : Except Failure α) :=
  ⟨hbound, hvalue⟩

end EndsWell

namespace Value

-- There is nothing in the value that is none, methods are those of their receiver's kind, and the
-- bodies of functions are blocks.
inductive Proper : Value → Prop where
  | null : Proper .null
  | bool (b : Bool) : Proper (.bool b)
  | int (n : Int) : Proper (.int n)
  | real (x : Float) (origin : Origin) : Proper (.real x origin)
  | str (s : String) : Proper (.str s)
  | array {items : List Value} (each : ∀ v ∈ items, Proper v) : Proper (.array items)
  | tuple {items : List Value} (each : ∀ v ∈ items, Proper v) : Proper (.tuple items)
  | object {fields : List (String × Value)} (each : ∀ f ∈ fields, Proper f.2) :
    Proper (.object fields)
  | function {p : Procedure Value} (names : ∀ q ∈ p.parameters, ∃ s, q.1 = .str s)
    (samples : ∀ q ∈ p.parameters, ∀ v ∈ q.2, Proper v) (result : ∀ v ∈ p.result, Proper v)
    (body : p.body.IsPart .any .block) : Proper (.function p)
  | builtin (b : Builtin) : Proper (.builtin b)
  | method {m : Method} {v : Value} {bound : List Value} (kind : v.kind = .ok m.kind)
    (receiver : Proper v) (each : ∀ w ∈ bound, Proper w) : Proper (.method m v bound)

theorem Proper.exists_kind {v : Value} (h : v.Proper) : ∃ k, v.kind = .ok k := by
  cases h <;> exact ⟨_, rfl⟩

theorem Proper.given {v : Value} (h : v.Proper) : v.given = some v := by
  cases h <;> rfl

theorem haveText_eq_true {vs : List Value} (h : ∀ v ∈ vs, v.hasText) : haveText vs := by
  induction vs with
  | nil => rfl
  | cons v vs ih =>
    rw [List.forall_mem_cons] at h
    simp [haveText, h.1, ih h.2]

theorem fieldsHaveText_eq_true {fields : List (String × Value)}
    (h : ∀ f ∈ fields, f.2.hasText) : fieldsHaveText fields := by
  induction fields with
  | nil => rfl
  | cons f fields ih =>
    rw [List.forall_mem_cons] at h
    simp [fieldsHaveText, h.1, ih h.2]

theorem Proper.hasText {v : Value} (h : v.Proper) : v.hasText := by
  induction h with
  | array _ ih => exact haveText_eq_true ih
  | tuple _ ih => exact haveText_eq_true ih
  | object _ ih => exact fieldsHaveText_eq_true ih
  | _ => rfl

theorem exists_equalLeaf {v w : Value} (hv : v.Proper) (hw : w.Proper) :
    ∃ b, equalLeaf v w = .ok b := by
  obtain ⟨k, hk⟩ := hv.exists_kind
  obtain ⟨k', hk'⟩ := hw.exists_kind
  unfold equalLeaf
  rw [hk, hk']
  exact ⟨_, rfl⟩

theorem exists_equalAll {vs ws : List Value}
    (h : ∀ v ∈ vs, ∀ w, w.Proper → ∃ b, v.equal w = .ok b) (hws : ∀ w ∈ ws, w.Proper) :
    ∃ b, equalAll vs ws = .ok b := by
  induction vs generalizing ws with
  | nil => exact ⟨true, by simp [equalAll]⟩
  | cons v vs ih =>
    cases ws with
    | nil => exact ⟨true, by simp [equalAll]⟩
    | cons w ws =>
      rw [List.forall_mem_cons] at h hws
      obtain ⟨b, hb⟩ := h.1 w hws.1
      obtain ⟨c, hc⟩ := ih h.2 hws.2
      rw [equalAll, hb]
      cases b with
      | true => exact ⟨c, hc⟩
      | false => exact ⟨false, rfl⟩

theorem mem_of_field? {name : String} {fields : List (String × Value)} {v : Value}
    (h : field? name fields = some v) : ∃ f ∈ fields, f.2 = v := by
  unfold field? at h
  obtain ⟨f, hf, hv⟩ := Option.map_eq_some_iff.1 h
  exact ⟨f, List.mem_of_find?_eq_some hf, hv⟩

theorem exists_equalFields {fields others : List (String × Value)}
    (h : ∀ f ∈ fields, ∀ w, w.Proper → ∃ b, f.2.equal w = .ok b)
    (hothers : ∀ f ∈ others, f.2.Proper) : ∃ b, equalFields fields others = .ok b := by
  induction fields with
  | nil => exact ⟨true, by simp [equalFields]⟩
  | cons f fields ih =>
    rw [List.forall_mem_cons] at h
    obtain ⟨name, v⟩ := f
    rw [equalFields]
    cases hw : field? name others with
    | none => exact ⟨false, rfl⟩
    | some w =>
      obtain ⟨g, hg, rfl⟩ := mem_of_field? hw
      obtain ⟨b, hb⟩ : ∃ b, v.equal g.2 = .ok b := h.1 _ (hothers g hg)
      obtain ⟨c, hc⟩ := ih h.2
      simp only [hb]
      cases b with
      | true => exact ⟨c, hc⟩
      | false => exact ⟨false, rfl⟩

-- Proper values can be compared, whatever they are.
theorem Proper.exists_equal {v w : Value} (hv : v.Proper) (hw : w.Proper) :
    ∃ b, v.equal w = .ok b := by
  have hleaf := exists_equalLeaf hv hw
  induction hv generalizing w with
  | array hitems ih =>
    cases hw with
    | array hothers =>
      rw [equal]
      split
      · exact exists_equalAll
          (fun v hv w hw => ih v hv hw (exists_equalLeaf (hitems v hv) hw)) hothers
      · exact ⟨false, rfl⟩
    | _ => simpa only [equal] using hleaf
  | tuple hitems ih =>
    cases hw with
    | tuple hothers =>
      rw [equal]
      split
      · exact exists_equalAll
          (fun v hv w hw => ih v hv hw (exists_equalLeaf (hitems v hv) hw)) hothers
      · exact ⟨false, rfl⟩
    | _ => simpa only [equal] using hleaf
  | object hfields ih =>
    cases hw with
    | object hothers =>
      rw [equal]
      split
      · exact exists_equalFields
          (fun f hf w hw => ih f hf hw (exists_equalLeaf (hfields f hf) hw)) hothers
      · exact ⟨false, rfl⟩
    | _ => simpa only [equal] using hleaf
  | function =>
    cases hw with
    | function => exact ⟨_, by rw [equal]⟩
    | _ => simpa only [equal] using hleaf
  | method _ hreceiver _ ih =>
    cases hw with
    | method _ hother _ =>
      rw [equal]
      split
      · exact ih hother (exists_equalLeaf hreceiver hother)
      · exact ⟨false, rfl⟩
    | _ => simpa only [equal] using hleaf
  | _ => cases hw <;> simpa only [equal] using hleaf

theorem exists_contents (c : Comparison) {same : Except Failure Bool} (h : ∃ b, same = .ok b)
    (m n : Nat) : ∃ b, c.contents same m n = .ok b := by
  obtain ⟨b, rfl⟩ := h
  cases c <;> exact ⟨_, rfl⟩

theorem exists_holds (c : Comparison) {v w : Value} (hv : v.Proper) (hw : w.Proper) :
    ∃ b, c.holds v w = .ok b := by
  unfold Comparison.holds
  split
  case h_7 => exact exists_contents c (hv.exists_equal hw) _ _
  case h_8 => exact exists_contents c (hv.exists_equal hw) _ _
  all_goals exact ⟨_, rfl⟩

theorem ofSymbol?_symbol (c : Comparison) : Comparison.ofSymbol? c.symbol = some c := by
  cases c <;> rfl

theorem endsWell_compare (c : Comparison) {v w : Value} (hv : v.Proper) (hw : w.Proper) :
    EndsWell Proper (v.compare (.str c.symbol) w) := by
  obtain ⟨k, hk⟩ := hv.exists_kind
  obtain ⟨k', hk'⟩ := hw.exists_kind
  obtain ⟨b, hb⟩ := exists_holds c hv hw
  have hc : (Tree.str c.symbol).text?.bind Comparison.ofSymbol? = some c := ofSymbol?_symbol c
  simp only [compare, hc, hk, hk', hb]
  exact Proper.bool b

theorem endsWell_isLabelOf {label value : Value} (hlabel : label.Proper) (hvalue : value.Proper) :
    EndsWell (fun _ => True) (Eval.isLabelOf label value) := by
  unfold Eval.isLabelOf
  split
  · trivial
  · obtain ⟨b, hb⟩ := hvalue.exists_equal hlabel
    rw [hb]
    trivial

theorem proper_ofFloat (x : Float) : (ofFloat x).Proper := .real _ _

theorem proper_quotient (x y : Float) : (Arithmetic.quotient x y).Proper := by
  unfold Arithmetic.quotient
  split
  · exact .real _ _
  · exact proper_ofFloat _

theorem proper_reals (op : Arithmetic) (x y : Float) : (op.reals x y).Proper := by
  cases op with
  | div => exact proper_quotient x y
  | rem => exact .null
  | _ => exact proper_ofFloat _

theorem endsWell_ints (op : Arithmetic) (m n : Int) : EndsWell Proper (op.ints m n) := by
  cases op with
  | div => exact proper_quotient _ _
  | rem =>
    simp only [Arithmetic.ints]
    split
    · exact .ofCause (by simp) (by simp)
    · exact Proper.int _
  | _ => exact Proper.int _

theorem endsWell_simple (op : Arithmetic) {v w : Value} (hv : v.Proper) (hw : w.Proper) :
    EndsWell Proper (op.simple v w) := by
  unfold Arithmetic.simple
  split
  · exact endsWell_ints op _ _
  · exact proper_reals op _ _
  · exact proper_reals op _ _
  · exact proper_reals op _ _
  · split
    · exact Proper.str _
    · exact Proper.null
  · split
    · exact Proper.str _
    · exact Proper.null
  · split
    · cases hv with
      | array hitems =>
        refine Proper.array fun u hu => ?_
        rcases List.mem_append.1 hu with hu | hu
        · exact hitems u hu
        · exact List.mem_singleton.1 hu ▸ hw
    · exact Proper.null
  · exact Proper.null

theorem endsWell_binaryLeaf (op : Tree) {v w : Value} (hv : v.Proper) (hw : w.Proper) :
    EndsWell Proper (binaryLeaf op v w) := by
  obtain ⟨k, hk⟩ := hv.exists_kind
  obtain ⟨k', hk'⟩ := hw.exists_kind
  unfold binaryLeaf
  rw [hk, hk']
  cases hop : op.text?.bind Arithmetic.ofSymbol? with
  | some arithmetic => exact endsWell_simple arithmetic hv hw
  | none => exact Proper.null

theorem endsWell_binaryAll (op : Tree) {vs ws : List Value}
    (h : ∀ v ∈ vs, ∀ w, w.Proper → EndsWell Proper (v.binary op w)) (hws : ∀ w ∈ ws, w.Proper) :
    EndsWell (fun us => ∀ u ∈ us, u.Proper) (binaryAll op vs ws) := by
  induction vs generalizing ws with
  | nil => simp [binaryAll, EndsWell]
  | cons v vs ih =>
    cases ws with
    | nil => simp [binaryAll, EndsWell]
    | cons w ws =>
      rw [List.forall_mem_cons] at h hws
      rw [binaryAll]
      exact (h.1 w hws.1).bind fun first hfirst => (ih h.2 hws.2).bind fun rest hrest =>
        List.forall_mem_cons.2 ⟨hfirst, hrest⟩

theorem endsWell_binary (op : Tree) {v w : Value} (hv : v.Proper) (hw : w.Proper) :
    EndsWell Proper (v.binary op w) := by
  have hleaf := endsWell_binaryLeaf op hv hw
  induction hv generalizing w with
  | tuple hitems ih =>
    cases hw with
    | tuple hothers =>
      rw [binary]
      exact (endsWell_binaryAll op
        (fun v hv w hw => ih v hv hw (endsWell_binaryLeaf op (hitems v hv) hw)) hothers).bind
        fun _ hus => Proper.tuple hus
    | _ => simpa only [binary] using hleaf
  | _ => simpa only [binary] using hleaf

theorem endsWell_unary (op : Tree) {v : Value} (hv : v.Proper) : EndsWell Proper (v.unary op) := by
  obtain ⟨k, hk⟩ := hv.exists_kind
  unfold unary
  split
  · exact hv
  split
  · exact Proper.bool _
  · exact Proper.int _
  · exact proper_ofFloat _
  · rw [hk]
    exact .ofCause (by simp) (by simp)

-- Numbering the new results in a value changes nothing but their origins.
theorem forall_mem_numberAll {P : Value → Prop} {vs : List Value}
    (h : ∀ v ∈ vs, ∀ n, P (v.number n).1) (n : Nat) : ∀ u ∈ (numberAll n vs).1, P u := by
  induction vs generalizing n with
  | nil => simp [numberAll]
  | cons v vs ih =>
    rw [List.forall_mem_cons] at h
    rw [numberAll]
    exact List.forall_mem_cons.2 ⟨h.1 n, ih h.2 _⟩

theorem Proper.number {v : Value} (h : v.Proper) (n : Nat) : (v.number n).1.Proper := by
  induction h generalizing n with
  | real x origin => cases origin <;> exact .real _ _
  | tuple _ ih => exact .tuple (forall_mem_numberAll ih n)
  | null => exact .null
  | bool b => exact .bool b
  | int m => exact .int m
  | str s => exact .str s
  | array hitems => exact .array hitems
  | object hfields => exact .object hfields
  | function hnames hsamples hresult hbody => exact .function hnames hsamples hresult hbody
  | builtin b => exact .builtin b
  | method hkind hreceiver hbound => exact .method hkind hreceiver hbound

theorem kind_of_mem_ofKind? {k : Kind} {methods : List Method} {m : Method}
    (h : Method.ofKind? k = some methods) (hm : m ∈ methods) : m.kind = k := by
  unfold Method.ofKind? at h
  split at h <;> cases h <;> simp only [List.mem_cons, List.not_mem_nil, or_false] at hm
  · rcases hm with rfl | rfl | rfl <;> rfl
  · rcases hm with rfl | rfl <;> rfl
  · rcases hm with rfl | rfl <;> rfl

theorem endsWell_property (name : String) {v : Value} (hv : v.Proper) :
    EndsWell Proper (v.property (.str name)) := by
  obtain ⟨k, hk⟩ := hv.exists_kind
  have hkey : (Tree.str name).isKey = true := rfl
  simp only [property, hk, hkey, if_true, Bind.bind, Except.bind]
  cases hmethods : Method.ofKind? k with
  | none => exact Proper.null
  | some methods =>
    simp only
    split
    · rename_i m hm
      have hmem : m ∈ methods := List.mem_of_find?_eq_some hm
      exact Proper.method (by rw [hk, kind_of_mem_ofKind? hmethods hmem]) hv (by simp)
    · rename_i fields _
      cases hv with
      | object hfields =>
        split
        · rename_i w hw
          obtain ⟨f, hf, rfl⟩ := mem_of_field? hw
          exact hfields f hf
        · exact .ofCause (by simp) (by simp)
    · exact .ofCause (by simp) (by simp)

theorem endsWell_index {v w : Value} (hv : v.Proper) (hw : w.Proper) :
    EndsWell Proper (v.index w) := by
  obtain ⟨k, hk⟩ := hw.exists_kind
  unfold index
  split
  · exact endsWell_property _ hv
  · exact Proper.str _
  · rename_i items i
    cases hv with
    | array hitems =>
      unfold element?
      split
      · exact Proper.null
      · cases hitem : items[i.toNat]? with
        | none => exact Proper.null
        | some u => exact hitems u (List.mem_of_getElem? hitem)
  · rw [hk]
    exact Proper.null

-- A text of too many digits is the one that cannot even be refused.
theorem endsWell_textToInteger (s : String) : EndsWell Proper (textToInteger s) := by
  unfold textToInteger
  split
  · split
    · exact Proper.int _
    · exact .ofCause (by simp) (by simp)
  · rename_i hlong
    refine ⟨s, ?_, ?_⟩
    · unfold Reading.integer at hlong
      simp only at hlong
      split at hlong
      · rename_i hdigits
        split at hlong
        · exact absurd hlong (by simp)
        · exact ⟨hdigits, by omega⟩
      · exact absurd hlong (by simp)
    · have htarget : (Tree.str "integer").text?.bind Target.ofName? = some .integer := rfl
      simp only [convert, htarget]
      change textToInteger s = _
      rw [textToInteger, hlong]
  · exact .ofCause (by simp) (by simp)

theorem endsWell_textToReal (s : String) : EndsWell Proper (textToReal s) := by
  unfold textToReal
  simp only
  split
  · split
    · exact proper_ofFloat _
    · exact .ofCause (by simp) (by simp)
  · exact .ofCause (by simp) (by simp)

theorem endsWell_convert (target : Tree) {v : Value} (hv : v.Proper) :
    EndsWell Proper (v.convert target) := by
  obtain ⟨k, hk⟩ := hv.exists_kind
  unfold convert
  rw [hk]
  cases target.text?.bind Target.ofName? with
  | none => exact Proper.null
  | some name =>
    cases name with
    | integer =>
      cases hv with
      | str s => exact endsWell_textToInteger s
      | int n => exact Proper.int _
      | real x origin => exact Proper.int _
      | bool b => exact Proper.int _
      | _ => exact Proper.null
    | real =>
      cases hv with
      | str s => exact endsWell_textToReal s
      | int n => exact Proper.real _ _
      | real x origin => exact Proper.real _ _
      | _ => exact Proper.null
    | boolean =>
      change v.toBoolean.Proper
      unfold toBoolean
      split <;> first | exact Proper.bool _ | exact Proper.null
    | string =>
      change v.toText.Proper
      unfold toText
      split <;> first | exact Proper.str _ | exact Proper.null

theorem endsWell_split (s : String) {args : List Value} (h : ∀ v ∈ args, v.Proper) :
    EndsWell Proper (Method.split s args) := by
  have htexts (pieces : List (List Char)) : (Method.split.texts pieces).Proper := by
    refine .array fun v hv => ?_
    obtain ⟨piece, -, rfl⟩ := List.mem_map.1 hv
    exact .str _
  unfold Method.split
  split
  · exact htexts _
  · exact htexts _
  · split
    · exact htexts _
    · exact htexts _
  · rename_i v rest _ _
    obtain ⟨k, hk⟩ := (h v (by simp)).exists_kind
    rw [hk]
    exact .ofCause (by simp) (by simp)

theorem endsWell_call (m : Method) (v : Value) {args : List Value} (h : ∀ w ∈ args, w.Proper) :
    EndsWell Proper (m.call v args) := by
  unfold Method.call
  split
  case h_3 => exact endsWell_split _ h
  all_goals first | exact Proper.int _ | exact Proper.bool _ | exact Proper.null

theorem proper_literal {value type : Tree} (h : Node.IsLiteral value type) :
    (if type = .str "Null" then Value.null else .ofTree value).Proper := by
  cases h with
  | null => exact .null
  | integer n => exact .int n
  | real x => exact .real x _
  | string s => exact .str s

end Value

end TernLang
