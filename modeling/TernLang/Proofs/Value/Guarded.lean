import TernLang.Proofs.Syntax.Throughout
import TernLang.Proofs.Value.Proper

-- Values with something asked of all the integers and the function bodies in them, and what the
-- operations make of such values. An operation makes words out of whatever it is given, except that
-- a length may be more than a word can hold.

namespace TernLang

-- What is asked of the integers in a value, and of the bodies of the functions in it.
structure Guard where
  int : Int → Prop
  body : Node → Prop
  -- Whatever a word can hold is let through.
  fits : ∀ n, Word.Fits n → int n

-- An outcome that `P` holds of, if there is one.
def Grants {α : Type} (P : α → Prop) : Except Failure α → Prop
  | .ok a => P a
  | .error _ => True

theorem Grants.bind {α β : Type} {P : α → Prop} {Q : β → Prop} {x : Except Failure α}
    {f : α → Except Failure β} (hx : Grants P x) (hf : ∀ a, P a → Grants Q (f a)) :
    Grants Q (x >>= f) := by
  cases x with
  | ok a => exact hf a hx
  | error failure => trivial

theorem Grants.any {α : Type} (x : Except Failure α) : Grants (fun _ => True) x := by
  cases x <;> trivial

-- What a method counts in its receiver, if its result is a length.
def Method.length? : Method → Value → Option Nat
  | stringLength, .str s => some s.length
  | arrayLength, .array items => some items.length
  | objectLength, .object fields => some fields.length
  | _, _ => none

namespace Value

inductive Guarded (g : Guard) : Value → Prop where
  | null : Guarded g .null
  | bool (b : Bool) : Guarded g (.bool b)
  | int {n : Int} (allowed : g.int n) : Guarded g (.int n)
  | real (x : Float) (origin : Origin) : Guarded g (.real x origin)
  | str (s : String) : Guarded g (.str s)
  | array {items : List Value} (each : ∀ v ∈ items, Guarded g v) : Guarded g (.array items)
  | tuple {items : List Value} (each : ∀ v ∈ items, Guarded g v) : Guarded g (.tuple items)
  | object {fields : List (String × Value)} (each : ∀ f ∈ fields, Guarded g f.2) :
    Guarded g (.object fields)
  | function {p : Procedure Value} (samples : ∀ q ∈ p.parameters, ∀ v ∈ q.2, Guarded g v)
    (result : ∀ v ∈ p.result, Guarded g v) (body : g.body p.body) : Guarded g (.function p)
  | builtin (b : Builtin) : Guarded g (.builtin b)
  | method (m : Method) {v : Value} {bound : List Value} (receiver : Guarded g v)
    (each : ∀ w ∈ bound, Guarded g w) : Guarded g (.method m v bound)
  | alien (t : Tree) : Guarded g (.alien t)

end Value

-- All integers that are let through fit a word, those of the literals in function bodies as well.
def Guard.words : Guard where
  int := Word.Fits
  body := Node.Everywhere Node.LiteralFits
  fits _ h := h

-- Every integer anywhere in the value fits a word: in its items and fields, in the samples and the
-- body of a function, and in the receiver and the arguments of a method.
abbrev Value.Fits (v : Value) : Prop := v.Guarded .words

namespace Value

variable {g : Guard}

theorem guarded_wrap (n : Int) : (Value.int (Word.wrap n)).Guarded g :=
  .int (g.fits _ (Word.fits_wrap n))

theorem guarded_ofTree {t : Tree} (h : ∀ n, t = .int n → g.int n) : (ofTree t).Guarded g := by
  cases t with
  | int n => exact .int (h n rfl)
  | bool b => exact .bool b
  | real x => exact .real x _
  | str s => exact .str s
  | _ => exact .alien _

theorem guarded_ofFloat (x : Float) : (ofFloat x).Guarded g := .real _ _

theorem guarded_quotient (x y : Float) : (Arithmetic.quotient x y).Guarded g := by
  unfold Arithmetic.quotient
  split
  · exact .real _ _
  · exact guarded_ofFloat _

theorem guarded_reals (op : Arithmetic) (x y : Float) : (op.reals x y).Guarded g := by
  cases op with
  | div => exact guarded_quotient x y
  | rem => exact .null
  | _ => exact guarded_ofFloat _

theorem grants_ints (op : Arithmetic) (m n : Int) : Grants (Guarded g) (op.ints m n) := by
  cases op with
  | div => exact guarded_quotient _ _
  | rem =>
    simp only [Arithmetic.ints]
    split
    · trivial
    · exact guarded_wrap _
  | _ => exact guarded_wrap _

theorem grants_simple (op : Arithmetic) {v w : Value} (hv : v.Guarded g) (hw : w.Guarded g) :
    Grants (Guarded g) (op.simple v w) := by
  unfold Arithmetic.simple
  split
  · exact grants_ints op _ _
  · exact guarded_reals op _ _
  · exact guarded_reals op _ _
  · exact guarded_reals op _ _
  · split
    · exact Guarded.str _
    · exact Guarded.null
  · split
    · exact Guarded.str _
    · exact Guarded.null
  · split
    · cases hv with
      | array hitems =>
        refine Guarded.array fun u hu => ?_
        rcases List.mem_append.1 hu with hu | hu
        · exact hitems u hu
        · exact List.mem_singleton.1 hu ▸ hw
    · exact Guarded.null
  · exact Guarded.null

theorem grants_binaryLeaf (op : Tree) {v w : Value} (hv : v.Guarded g) (hw : w.Guarded g) :
    Grants (Guarded g) (binaryLeaf op v w) := by
  unfold binaryLeaf
  refine (Grants.any _).bind fun _ _ => (Grants.any _).bind fun _ _ => ?_
  split
  · exact grants_simple _ hv hw
  · exact Guarded.null

theorem grants_binaryAll (op : Tree) {vs ws : List Value}
    (h : ∀ v ∈ vs, ∀ w, w.Guarded g → Grants (Guarded g) (v.binary op w))
    (hws : ∀ w ∈ ws, w.Guarded g) :
    Grants (fun us => ∀ u ∈ us, u.Guarded g) (binaryAll op vs ws) := by
  induction vs generalizing ws with
  | nil => simp [binaryAll, Grants]
  | cons v vs ih =>
    cases ws with
    | nil => simp [binaryAll, Grants]
    | cons w ws =>
      rw [List.forall_mem_cons] at h hws
      rw [binaryAll]
      exact (h.1 w hws.1).bind fun first hfirst => (ih h.2 hws.2).bind fun rest hrest =>
        List.forall_mem_cons.2 ⟨hfirst, hrest⟩

theorem grants_binary (op : Tree) {v w : Value} (hv : v.Guarded g) (hw : w.Guarded g) :
    Grants (Guarded g) (v.binary op w) := by
  have hleaf := grants_binaryLeaf op hv hw
  induction hv generalizing w with
  | tuple hitems ih =>
    cases hw with
    | tuple hothers =>
      rw [binary]
      exact (grants_binaryAll op
        (fun v hv w hw => ih v hv hw (grants_binaryLeaf op (hitems v hv) hw)) hothers).bind
        fun _ hus => Guarded.tuple hus
    | _ => simpa only [binary] using hleaf
  | _ => simpa only [binary] using hleaf

theorem grants_unary (op : Tree) {v : Value} (hv : v.Guarded g) :
    Grants (Guarded g) (v.unary op) := by
  unfold unary
  split
  · exact hv
  split
  · exact Guarded.bool _
  · exact guarded_wrap _
  · exact guarded_ofFloat _
  · exact (Grants.any _).bind fun _ _ => trivial

theorem grants_compare (op : Tree) (v w : Value) : Grants (Guarded g) (v.compare op w) := by
  unfold compare
  split
  · exact (Grants.any _).bind fun _ _ => (Grants.any _).bind fun _ _ =>
      (Grants.any _).bind fun b _ => Guarded.bool b
  · trivial

theorem Guarded.number {v : Value} (h : v.Guarded g) (n : Nat) : (v.number n).1.Guarded g := by
  induction h generalizing n with
  | real x origin => cases origin <;> exact .real _ _
  | tuple _ ih => exact .tuple (forall_mem_numberAll ih n)
  | null => exact .null
  | bool b => exact .bool b
  | int hm => exact .int hm
  | str s => exact .str s
  | array hitems => exact .array hitems
  | object hfields => exact .object hfields
  | function hsamples hresult hbody => exact .function hsamples hresult hbody
  | builtin b => exact .builtin b
  | method m hreceiver hbound => exact .method m hreceiver hbound
  | alien t => exact .alien t

theorem grants_property (name : Tree) {v : Value} (hv : v.Guarded g) :
    Grants (Guarded g) (v.property name) := by
  unfold property
  refine (Grants.any _).bind fun k _ => ?_
  split
  · exact Guarded.null
  split
  · split
    · exact Guarded.method _ hv (by simp)
    · split
      · rename_i hw
        obtain ⟨key, -, hfield⟩ := Option.bind_eq_some_iff.1 hw
        obtain ⟨f, hf, rfl⟩ := mem_of_field? hfield
        cases hv with
        | object hfields => exact hfields f hf
      · trivial
    · trivial
  · trivial

theorem grants_index {v : Value} (hv : v.Guarded g) (w : Value) :
    Grants (Guarded g) (v.index w) := by
  unfold index
  split
  · exact grants_property _ hv
  · exact Guarded.str _
  · rename_i items i
    cases hv with
    | array hitems =>
      unfold element?
      split
      · exact Guarded.null
      · cases hitem : items[i.toNat]? with
        | none => exact Guarded.null
        | some u => exact hitems u (List.mem_of_getElem? hitem)
  · exact (Grants.any _).bind fun _ _ => Guarded.null

theorem grants_textToInteger (s : String) : Grants (Guarded g) (textToInteger s) := by
  unfold textToInteger
  split
  · rename_i n _
    by_cases hfits : Word.Fits n
    · rw [if_pos hfits]
      exact Guarded.int (g.fits n hfits)
    · rw [if_neg hfits]
      trivial
  · trivial
  · trivial

theorem grants_textToReal (s : String) : Grants (Guarded g) (textToReal s) := by
  unfold textToReal
  simp only
  split
  · split
    · exact guarded_ofFloat _
    · trivial
  · trivial

theorem grants_toInteger {v : Value} (hv : v.Guarded g) : Grants (Guarded g) v.toInteger := by
  cases hv with
  | int hn => exact Guarded.int hn
  | real x origin => exact Guarded.int (g.fits _ (Floating.fits_toWord x))
  | bool b =>
    refine Guarded.int (g.fits _ ?_)
    cases b <;> decide
  | str s => exact grants_textToInteger s
  | _ => exact Guarded.null

theorem grants_toReal (v : Value) : Grants (Guarded g) v.toReal := by
  unfold toReal
  split
  · exact Guarded.real _ _
  · exact Guarded.real _ _
  · exact grants_textToReal _
  · exact Guarded.null

theorem guarded_toBoolean (v : Value) : v.toBoolean.Guarded g := by
  cases v <;> first | exact .bool _ | exact .null

theorem guarded_toText (v : Value) : v.toText.Guarded g := by
  cases v <;> first | exact .str _ | exact .null

theorem grants_convert (target : Tree) {v : Value} (hv : v.Guarded g) :
    Grants (Guarded g) (v.convert target) := by
  unfold convert
  refine (Grants.any _).bind fun _ _ => ?_
  split
  · exact grants_toInteger hv
  · exact grants_toReal v
  · exact guarded_toBoolean v
  · exact guarded_toText v
  · exact Guarded.null

theorem grants_split (s : String) (args : List Value) :
    Grants (Guarded g) (Method.split s args) := by
  have htexts (pieces : List (List Char)) : (Method.split.texts pieces).Guarded g := by
    refine .array fun v hv => ?_
    obtain ⟨piece, -, rfl⟩ := List.mem_map.1 hv
    exact .str _
  unfold Method.split
  split
  · exact htexts _
  · exact htexts _
  · split
    · exact htexts _
    · exact htexts _
  · exact (Grants.any _).bind fun _ _ => trivial

-- Of all operations only a length may be too large.
theorem grants_call {m : Method} {v : Value} (hlength : ∀ n ∈ m.length? v, g.int n)
    (args : List Value) : Grants (Guarded g) (m.call v args) := by
  unfold Method.call
  split
  case h_3 => exact grants_split _ _
  case h_1 | h_4 | h_6 => exact Guarded.int (hlength _ rfl)
  all_goals first | exact Guarded.bool _ | exact Guarded.null

end Value

end TernLang
