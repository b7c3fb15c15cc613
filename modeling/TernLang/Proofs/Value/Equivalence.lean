import Mathlib.Data.List.Perm.Subperm
import TernLang.Proofs.Ast.Image
import TernLang.Proofs.Scope.Reassigned
import TernLang.Proofs.Value.Proper

-- Equality of values is an equivalence. Every value has an image, which says all that equality
-- looks at, and two values are equal if their images are.

namespace TernLang

namespace Value

-- Values all through, in which everything is a number that is one by its kind, and in which no
-- object has a name twice.
inductive Comparable : Value → Prop where
  | null : Comparable .null
  | bool (b : Bool) : Comparable (.bool b)
  | int (n : Int) : Comparable (.int n)
  | real {x : Float} (origin : Origin) (number : Quantity.ofFloat x ≠ .nan) :
    Comparable (.real x origin)
  | str (s : String) : Comparable (.str s)
  | array {items : List Value} (each : ∀ v ∈ items, Comparable v) : Comparable (.array items)
  | tuple {items : List Value} (each : ∀ v ∈ items, Comparable v) : Comparable (.tuple items)
  | object {fields : List (String × Value)} (distinct : (Bindings.names fields).Nodup)
    (each : ∀ f ∈ fields, Comparable f.2) : Comparable (.object fields)
  | function {p : Procedure Value} (samples : ∀ q ∈ p.parameters, ∀ v ∈ q.2, Comparable v)
    (result : ∀ v ∈ p.result, Comparable v) : Comparable (.function p)
  | builtin (b : Builtin) : Comparable (.builtin b)
  | method (m : Method) {v : Value} {bound : List Value} (receiver : Comparable v)
    (each : ∀ w ∈ bound, Comparable w) : Comparable (.method m v bound)

-- Values as equality sees them. Objects are functions from names, and the numbers in declared
-- functions are bare quantities.
inductive Image where
  | null
  | bool (b : Bool)
  | integer (n : Int)
  | real (q : Quantity)
  | number (q : Quantity)
  | str (s : String)
  | array (items : List Image)
  | tuple (items : List Image)
  | object (fields : String → Option Image)
  | function (name : String) (parameters : List (Tree.Image × Option Image))
    (result : Option Image) (body : Node.Image)
  | builtin (b : Builtin)
  | method (m : Method) (receiver : Image) (bound : List Image)
  | alien (t : Tree.Image)

mutual

-- What `alike` sees of a value.
def loose : Value → Image
  | null => .null
  | bool b => .number (.ofInt (if b then 1 else 0))
  | int n => .number (.ofInt n)
  | real x _ => .number (.ofFloat x)
  | str s => .str s
  | array items => .array (looseAll items)
  | tuple items => .tuple (looseAll items)
  | object fields => .object (looseField fields)
  | function ⟨name, parameters, result, body⟩ =>
    .function name (looseParameters parameters) (looseSome result) body.image
  | builtin b => .builtin b
  | method m receiver bound => .method m receiver.loose (looseAll bound)
  | alien t => .alien t.image

def looseAll : List Value → List Image
  | [] => []
  | v :: vs => v.loose :: looseAll vs

def looseSome : Option Value → Option Image
  | none => none
  | some v => some v.loose

def looseField : List (String × Value) → String → Option Image
  | [], _ => none
  | (name, v) :: fields, other => if name = other then some v.loose else looseField fields other

def looseParameters : List (Tree × Option Value) → List (Tree.Image × Option Image)
  | [] => []
  | (name, sample) :: parameters => (name.image, looseSome sample) :: looseParameters parameters

end

mutual

-- What `equal` sees of a value.
def exact : Value → Image
  | bool b => .bool b
  | int n => .integer n
  | real x _ => .real (.ofFloat x)
  | array items => .array (exactAll items)
  | tuple items => .tuple (exactAll items)
  | object fields => .object (exactField fields)
  | method m receiver _ => .method m receiver.exact []
  | v => v.loose

def exactAll : List Value → List Image
  | [] => []
  | v :: vs => v.exact :: exactAll vs

def exactField : List (String × Value) → String → Option Image
  | [], _ => none
  | (name, v) :: fields, other => if name = other then some v.exact else exactField fields other

end

section Fields

variable {fields others : List (String × Value)}

theorem field?_cons (name : String) (v : Value) (fields : List (String × Value)) (other : String) :
    field? other ((name, v) :: fields) = if name = other then some v else field? other fields :=
  Bindings.get?_cons ..

theorem looseField_eq (fields : List (String × Value)) (name : String) :
    looseField fields name = (field? name fields).map loose := by
  induction fields with
  | nil => rfl
  | cons f fields ih =>
    rw [looseField, field?_cons, ih]
    split <;> rfl

theorem exactField_eq (fields : List (String × Value)) (name : String) :
    exactField fields name = (field? name fields).map exact := by
  induction fields with
  | nil => rfl
  | cons f fields ih =>
    rw [exactField, field?_cons, ih]
    split <;> rfl

-- As many names on both sides, and the names of one side among those of the other, are the same
-- names.
theorem names_subset_of_length_eq (hdistinct : (Bindings.names fields).Nodup)
    (hlength : fields.length = others.length)
    (hsubset : Bindings.names fields ⊆ Bindings.names others) :
    Bindings.names others ⊆ Bindings.names fields := by
  have hless : (Bindings.names others).length ≤ (Bindings.names fields).length := by
    simp [Bindings.names, hlength]
  exact ((hdistinct.subperm hsubset).perm_of_length_le hless).symm.subset

-- Objects are compared through the names of one of them, and that is enough.
theorem fields_eq_iff (φ : Value → Image) (hfields : (Bindings.names fields).Nodup)
    (hothers : (Bindings.names others).Nodup) :
    (fields.length = others.length ∧
      ∀ f ∈ fields, (field? f.1 others).map φ = some (φ f.2)) ↔
    ∀ name, (field? name fields).map φ = (field? name others).map φ := by
  constructor
  · rintro ⟨hlength, heach⟩ name
    have hsubset : Bindings.names fields ⊆ Bindings.names others := by
      intro name hname
      obtain ⟨f, hf, rfl⟩ := List.mem_map.1 hname
      have hsome : ((field? f.1 others).map φ).isSome := by rw [heach f hf, Option.isSome_some]
      rw [Option.isSome_map] at hsome
      exact Bindings.isSome_get?_iff.1 hsome
    by_cases hname : name ∈ Bindings.names fields
    · obtain ⟨f, hf, rfl⟩ := List.mem_map.1 hname
      have hget : field? f.1 fields = some f.2 := Bindings.get?_of_mem hfields hf
      rw [heach f hf, hget]
      rfl
    · have hother : name ∉ Bindings.names others :=
        fun hmem => hname (names_subset_of_length_eq hfields hlength hsubset hmem)
      have hnone : field? name fields = none := Bindings.get?_eq_none_iff.2 hname
      have hnone' : field? name others = none := Bindings.get?_eq_none_iff.2 hother
      rw [hnone, hnone']
  · intro h
    have hmem (name : String) : name ∈ Bindings.names fields ↔ name ∈ Bindings.names others := by
      rw [← Bindings.isSome_get?_iff, ← Bindings.isSome_get?_iff]
      have hsome := congrArg Option.isSome (h name)
      rw [Option.isSome_map, Option.isSome_map] at hsome
      exact Bool.eq_iff_iff.1 hsome
    refine ⟨?_, fun f hf => ?_⟩
    · have hperm := (List.perm_ext_iff_of_nodup hfields hothers).2 hmem
      simpa [Bindings.names] using hperm.length_eq
    · have hget : field? f.1 fields = some f.2 := Bindings.get?_of_mem hfields hf
      rw [← h f.1, hget]
      rfl

end Fields

section Alike

variable {vs ws : List Value}

theorem alikeAll_iff
    (h : ∀ v ∈ vs, ∀ w, w.Comparable → (v.alike w = true ↔ v.loose = w.loose))
    (hws : ∀ w ∈ ws, w.Comparable) : alikeAll vs ws = true ↔ looseAll vs = looseAll ws := by
  induction vs generalizing ws with
  | nil => cases ws <;> simp [alikeAll, looseAll]
  | cons v vs ih =>
    cases ws with
    | nil => simp [alikeAll, looseAll]
    | cons w ws =>
      rw [List.forall_mem_cons] at h hws
      simp [alikeAll, looseAll, h.1 w hws.1, ih h.2 hws.2]

theorem alikeSome_iff {v w : Option Value}
    (h : ∀ a ∈ v, ∀ b, b.Comparable → (a.alike b = true ↔ a.loose = b.loose))
    (hw : ∀ b ∈ w, b.Comparable) : alikeSome v w = true ↔ looseSome v = looseSome w := by
  cases v <;> cases w <;> simp [alikeSome, looseSome]
  case some.some a b => exact h a rfl b (hw b rfl)

theorem alikeParameters_iff {ps qs : List (Tree × Option Value)}
    (h : ∀ p ∈ ps, ∀ a ∈ p.2, ∀ b, b.Comparable → (a.alike b = true ↔ a.loose = b.loose))
    (hqs : ∀ q ∈ qs, ∀ b ∈ q.2, b.Comparable) :
    alikeParameters ps qs = true ↔ looseParameters ps = looseParameters qs := by
  induction ps generalizing qs with
  | nil => cases qs <;> simp [alikeParameters, looseParameters]
  | cons p ps ih =>
    cases qs with
    | nil => simp [alikeParameters, looseParameters]
    | cons q qs =>
      rw [List.forall_mem_cons] at h hqs
      obtain ⟨name, sample⟩ := p
      obtain ⟨name', sample'⟩ := q
      simp [alikeParameters, looseParameters, name.alike_iff, alikeSome_iff h.1 hqs.1,
        ih h.2 hqs.2, and_assoc]

theorem alikeFields_iff {fields others : List (String × Value)}
    (h : ∀ f ∈ fields, ∀ w, w.Comparable → (f.2.alike w = true ↔ f.2.loose = w.loose))
    (hothers : ∀ f ∈ others, f.2.Comparable) :
    alikeFields fields others = true ↔
      ∀ f ∈ fields, (field? f.1 others).map loose = some f.2.loose := by
  induction fields with
  | nil => simp [alikeFields]
  | cons f fields ih =>
    rw [List.forall_mem_cons] at h ⊢
    rw [alikeFields, Bool.and_eq_true, ih h.2]
    refine and_congr_left fun _ => ?_
    cases hget : field? f.1 others with
    | none => simp
    | some w =>
      obtain ⟨g, hg, rfl⟩ := mem_of_field? hget
      refine (h.1 g.2 (hothers g hg)).trans ?_
      simp [eq_comm]

theorem ofInt_ne_nan (n : Int) : Quantity.ofInt n ≠ .nan := nofun

-- Two values that can be compared are alike if `alike` sees the same in them.
theorem alike_iff {v w : Value} (hv : v.Comparable) (hw : w.Comparable) :
    v.alike w = true ↔ v.loose = w.loose := by
  induction hv generalizing w with
  | array _ ih =>
    cases hw with
    | array hothers => simp [alike, loose, alikeAll_iff (fun v hv w => ih v hv) hothers]
    | _ => simp [alike, loose, sameNumber, looseQuantity?, quantity?]
  | tuple _ ih =>
    cases hw with
    | tuple hothers => simp [alike, loose, alikeAll_iff (fun v hv w => ih v hv) hothers]
    | _ => simp [alike, loose, sameNumber, looseQuantity?, quantity?]
  | object hdistinct _ ih =>
    cases hw with
    | object hdistinct' hothers =>
      simp only [alike, loose, Bool.and_eq_true, decide_eq_true_eq,
        alikeFields_iff (fun f hf w => ih f hf) hothers, Image.object.injEq, funext_iff,
        looseField_eq]
      exact fields_eq_iff loose hdistinct hdistinct'
    | _ => simp [alike, loose, sameNumber, looseQuantity?, quantity?]
  | @function p _ _ ihsamples ihresult =>
    cases hw with
    | @function q hsamples hresult =>
      have hparameters :=
        alikeParameters_iff (fun p hp a ha b => ihsamples p hp a ha) hsamples
      have hresults := alikeSome_iff (fun a ha b => ihresult a ha) hresult
      obtain ⟨name, parameters, result, body⟩ := p
      simp [alike, loose, hparameters, hresults, body.alike_iff, and_assoc]
    | _ => simp [alike, loose, sameNumber, looseQuantity?, quantity?]
  | method m _ _ ihreceiver ih =>
    cases hw with
    | method m' hreceiver hothers =>
      simp [alike, loose, ihreceiver hreceiver, alikeAll_iff (fun v hv w => ih v hv) hothers,
        and_assoc]
    | _ => simp [alike, loose, sameNumber, looseQuantity?, quantity?]
  | real origin hnumber =>
    cases hw <;> simp [alike, loose, sameNumber, looseQuantity?, quantity?, hnumber]
  | _ => cases hw <;> simp [alike, loose, sameNumber, looseQuantity?, quantity?, ofInt_ne_nan]

end Alike

-- A comparison that comes to an end, and says whether `p` holds.
def Decides (x : Except Failure Bool) (p : Prop) : Prop := ∃ b, x = .ok b ∧ (b = true ↔ p)

namespace Decides

variable {x y : Except Failure Bool} {p q : Prop}

theorem congr (h : Decides x p) (hpq : p ↔ q) : Decides x q :=
  h.imp fun _ hb => ⟨hb.1, hb.2.trans hpq⟩

theorem no (h : ¬p) : Decides (.ok false) p := ⟨false, rfl, iff_of_false Bool.false_ne_true h⟩

theorem yes (h : p) : Decides (.ok true) p := ⟨true, rfl, iff_of_true rfl h⟩

theorem iff (h : Decides x p) : x = .ok true ↔ p := by
  obtain ⟨b, rfl, hb⟩ := h
  rw [← hb]
  exact ⟨Except.ok.inj, congrArg Except.ok⟩

-- One comparison after another, where the first one that fails decides.
theorem and (hx : Decides x p) (hy : Decides y q) :
    Decides (do if ← x then y else return false) (p ∧ q) := by
  obtain ⟨b, rfl, hb⟩ := hx
  cases b with
  | true => exact hy.congr (and_iff_right (hb.1 rfl)).symm
  | false => exact no fun h => Bool.false_ne_true (hb.2 h.1)

end Decides

section Equal

variable {vs ws : List Value}

theorem decides_equalAll
    (h : ∀ v ∈ vs, ∀ w, w.Comparable → Decides (v.equal w) (v.exact = w.exact))
    (hws : ∀ w ∈ ws, w.Comparable) (hlength : vs.length = ws.length) :
    Decides (equalAll vs ws) (exactAll vs = exactAll ws) := by
  induction vs generalizing ws with
  | nil =>
    obtain rfl := List.length_eq_zero_iff.1 hlength.symm
    rw [equalAll]
    · exact .yes rfl
    · simp
  | cons v vs ih =>
    cases ws with
    | nil => cases hlength
    | cons w ws =>
      rw [List.forall_mem_cons] at h hws
      have hrest := ih h.2 hws.2 (Nat.succ.inj hlength)
      rw [equalAll]
      exact ((h.1 w hws.1).and hrest).congr (by simp [exactAll])

theorem length_exactAll (vs : List Value) : (exactAll vs).length = vs.length := by
  induction vs with
  | nil => rfl
  | cons v vs ih => simp [exactAll, ih]

theorem decides_items
    (h : ∀ v ∈ vs, ∀ w, w.Comparable → Decides (v.equal w) (v.exact = w.exact))
    (hws : ∀ w ∈ ws, w.Comparable) :
    Decides (if vs.length = ws.length then equalAll vs ws else .ok false)
      (exactAll vs = exactAll ws) := by
  split
  · rename_i hlength
    exact decides_equalAll h hws hlength
  · rename_i hlength
    refine .no fun heq => hlength ?_
    rw [← length_exactAll, heq, length_exactAll]

theorem decides_equalFields {fields others : List (String × Value)}
    (h : ∀ f ∈ fields, ∀ w, w.Comparable → Decides (f.2.equal w) (f.2.exact = w.exact))
    (hothers : ∀ f ∈ others, f.2.Comparable) :
    Decides (equalFields fields others)
      (∀ f ∈ fields, (field? f.1 others).map exact = some f.2.exact) := by
  induction fields with
  | nil =>
    rw [equalFields]
    exact .yes (by simp)
  | cons f fields ih =>
    rw [List.forall_mem_cons] at h
    rw [equalFields]
    cases hget : field? f.1 others with
    | none => exact .no fun hall => by simpa [hget] using hall f List.mem_cons_self
    | some w =>
      obtain ⟨g, hg, rfl⟩ := mem_of_field? hget
      refine ((h.1 g.2 (hothers g hg)).and (ih h.2)).congr ?_
      rw [List.forall_mem_cons, hget]
      exact and_congr_left fun _ => by simp [eq_comm]

theorem decides_fields {fields others : List (String × Value)}
    (hfields : (Bindings.names fields).Nodup) (hdistinct : (Bindings.names others).Nodup)
    (h : ∀ f ∈ fields, ∀ w, w.Comparable → Decides (f.2.equal w) (f.2.exact = w.exact))
    (hothers : ∀ f ∈ others, f.2.Comparable) :
    Decides (if haveSameNames fields others then equalFields fields others else .ok false)
      (exactField fields = exactField others) := by
  have himages : exactField fields = exactField others ↔
      fields.length = others.length ∧
        ∀ f ∈ fields, (field? f.1 others).map exact = some f.2.exact := by
    simp only [fields_eq_iff exact hfields hdistinct, funext_iff, exactField_eq]
  split
  · rename_i hnames
    rw [haveSameNames, Bool.and_eq_true, decide_eq_true_eq] at hnames
    exact (decides_equalFields h hothers).congr (himages.trans (and_iff_right hnames.1)).symm
  · rename_i hnames
    refine .no fun heq => hnames ?_
    obtain ⟨hlength, heach⟩ := himages.1 heq
    rw [haveSameNames, Bool.and_eq_true, decide_eq_true_eq, List.all_eq_true]
    refine ⟨hlength, fun f hf => ?_⟩
    rw [← Option.isSome_map (f := exact), heach f hf, Option.isSome_some]

end Equal

theorem eq_iff_of_ne_nan {p q : Quantity} (hp : p ≠ .nan) : p.eq q = true ↔ p = q :=
  Quantity.eq_iff.trans (and_iff_right hp)

-- Two values that can be compared are equal if `equal` sees the same in them.
theorem decides_equal {v w : Value} (hv : v.Comparable) (hw : w.Comparable) :
    Decides (v.equal w) (v.exact = w.exact) := by
  induction hv generalizing w with
  | array _ ih =>
    cases hw with
    | array hothers =>
      rw [equal]
      exact (decides_items (fun v hv w => ih v hv) hothers).congr (by simp [exact])
    | _ => exact ⟨false, by simp only [equal]; rfl, by simp [exact, loose]⟩
  | tuple _ ih =>
    cases hw with
    | tuple hothers =>
      rw [equal]
      exact (decides_items (fun v hv w => ih v hv) hothers).congr (by simp [exact])
    | _ => exact ⟨false, by simp only [equal]; rfl, by simp [exact, loose]⟩
  | object hdistinct _ ih =>
    cases hw with
    | object hdistinct' hothers =>
      rw [equal]
      exact (decides_fields hdistinct hdistinct' (fun f hf w => ih f hf) hothers).congr
        (by simp [exact])
    | _ => exact ⟨false, by simp only [equal]; rfl, by simp [exact, loose]⟩
  | @function p hsamples hresult =>
    cases hw with
    | @function q hsamples' hresult' =>
      have halike := alike_iff (.function hsamples hresult) (.function hsamples' hresult')
      exact ⟨_, by rw [equal], by simpa only [exact] using halike⟩
    | _ => exact ⟨false, by simp only [equal]; rfl, by simp [exact, loose]⟩
  | method m _ _ ih =>
    cases hw with
    | method m' hreceiver _ =>
      rw [equal]
      split
      · rename_i hm
        exact (ih hreceiver).congr (by simp [exact, hm])
      · rename_i hm
        exact .no (by simp [exact, hm])
    | _ => exact ⟨false, by simp only [equal]; rfl, by simp [exact, loose]⟩
  | real _ hnumber =>
    cases hw <;>
      exact ⟨_, by simp only [equal]; rfl, by simp [exact, loose, eq_iff_of_ne_nan hnumber]⟩
  | _ => cases hw <;> exact ⟨_, by simp only [equal]; rfl, by simp [exact, loose]⟩

-- The ways into arrays, tuples and objects.
inductive Key where
  | item (i : Nat)
  | field (name : String)

def part? : Key → Value → Option Value
  | .item i, .array items | .item i, .tuple items => items[i]?
  | .field name, .object fields => field? name fields
  | _, _ => none

-- What stands at the end of a path into a value.
def at? (v : Value) : List Key → Option Value
  | [] => some v
  | key :: path => (v.part? key).bind (at? · path)

def Image.part? : Key → Image → Option Image
  | .item i, .array items | .item i, .tuple items => items[i]?
  | .field name, .object fields => fields name
  | _, _ => Option.none

-- The kind of the values with an image.
def Image.kind? : Image → Option Kind
  | .null => some .null
  | .bool _ => some .boolean
  | .integer _ => some .integer
  | .real _ => some .real
  | .str _ => some .string
  | .array _ => some .array
  | .tuple _ => some .tuple
  | .object _ => some .object
  | .function .. => some .function
  | .builtin _ => some .builtin
  | .method .. => some .method
  | .number _ | .alien _ => Option.none

section Positions

variable {v w : Value} {key : Key}

theorem exactAll_eq_map (vs : List Value) : exactAll vs = vs.map exact := by
  induction vs with
  | nil => rfl
  | cons v vs ih => rw [exactAll, ih, List.map_cons]

theorem Comparable.of_part? (hv : v.Comparable) (hw : v.part? key = some w) : w.Comparable := by
  unfold part? at hw
  split at hw
  · cases hv with
    | array each => exact each w (List.mem_of_getElem? hw)
  · cases hv with
    | tuple each => exact each w (List.mem_of_getElem? hw)
  · cases hv with
    | object _ each =>
      obtain ⟨f, hf, rfl⟩ := mem_of_field? hw
      exact each f hf
  · cases hw

theorem part?_exact (hv : v.Comparable) (key : Key) :
    v.exact.part? key = (v.part? key).map exact := by
  cases hv <;> cases key <;>
    simp [exact, loose, part?, Image.part?, exactAll_eq_map, exactField_eq]

theorem kind?_exact (hv : v.Comparable) : v.exact.kind?.map .ok = some v.kind := by
  cases hv <;> rfl

theorem kind_eq_of_exact (hv : v.Comparable) (hw : w.Comparable) (h : v.exact = w.exact) :
    v.kind = w.kind := by
  have hkinds : some v.kind = some w.kind := by rw [← kind?_exact hv, h, kind?_exact hw]
  exact Option.some.inj hkinds

-- What stands at one position of two equal values is of one kind.
theorem kinds_at? (hv : v.Comparable) (hw : w.Comparable) (h : v.exact = w.exact)
    (path : List Key) : Option.Rel (fun a b => a.kind = b.kind) (v.at? path) (w.at? path) := by
  induction path generalizing v w with
  | nil => exact .some (kind_eq_of_exact hv hw h)
  | cons key path ih =>
    have hparts : (v.part? key).map exact = (w.part? key).map exact := by
      rw [← part?_exact hv, h, part?_exact hw]
    rw [at?, at?]
    cases hv' : v.part? key with
    | none =>
      rw [hv', Option.map_none, eq_comm, Option.map_eq_none_iff] at hparts
      rw [hparts]
      exact .none
    | some a =>
      rw [hv', Option.map_some, eq_comm, Option.map_eq_some_iff] at hparts
      obtain ⟨b, hw', hab⟩ := hparts
      rw [hw']
      exact ih (hv.of_part? hv') (hw.of_part? hw') hab.symm

end Positions

-- The operators `==` and `!=` on two values of these kinds.
theorem compare_of_equal {v w : Value} {k : Kind} {b : Bool}
    (hk : k = .string ∨ k = .array ∨ k = .boolean) (hv : v.kind = .ok k) (hw : w.kind = .ok k)
    (h : v.equal w = .ok b) :
    v.compare (.str "==") w = .ok (.bool b) ∧ v.compare (.str "!=") w = .ok (.bool !b) := by
  have hsame : (Tree.str "==").text?.bind Comparison.ofSymbol? = some .equal := rfl
  have hother : (Tree.str "!=").text?.bind Comparison.ofSymbol? = some .notEqual := rfl
  have hholds : Comparison.equal.holds v w = .ok b ∧ Comparison.notEqual.holds v w = .ok !b := by
    rcases hk with rfl | rfl | rfl
    · cases v <;> cases hv
      cases w <;> cases hw
      simp only [Comparison.holds, Comparison.contents, h, true_and]
      rfl
    · cases v <;> cases hv
      cases w <;> cases hw
      simp only [Comparison.holds, Comparison.contents, h, true_and]
      rfl
    · cases v <;> cases hv
      cases w <;> cases hw
      simp only [equal] at h
      cases h
      simp [Comparison.holds, Comparison.truths]
  simp only [compare, hsame, hother, hv, hw, hholds]
  exact ⟨rfl, rfl⟩

-- Equality is an equivalence that keeps kinds apart at all positions, and the one that the
-- operators `==` and `!=` have for strings, arrays and truth values.
theorem equal_equivalence {u v w : Value} (hu : u.Comparable) (hv : v.Comparable)
    (hw : w.Comparable) :
    v.equal v = .ok true ∧
    (∃ b, v.equal w = .ok b ∧ w.equal v = .ok b) ∧
    (u.equal v = .ok true → v.equal w = .ok true → u.equal w = .ok true) ∧
    (v.equal w = .ok true → ∀ path,
      Option.Rel (fun a b => a.kind = b.kind) (v.at? path) (w.at? path)) ∧
    ∀ k ∈ [Kind.string, .array, .boolean], v.kind = .ok k → w.kind = .ok k →
      ∃ b, v.equal w = .ok b ∧ v.compare (.str "==") w = .ok (.bool b) ∧
        v.compare (.str "!=") w = .ok (.bool !b) := by
  refine ⟨(decides_equal hv hv).iff.2 rfl, ?_, fun huv hvw => ?_, fun h => ?_,
    fun k hk hvk hwk => ?_⟩
  · obtain ⟨b, hb, hiff⟩ := decides_equal hv hw
    obtain ⟨c, hc, hiff'⟩ := decides_equal hw hv
    have hsame : b = c := Bool.eq_iff_iff.2 (hiff.trans (eq_comm.trans hiff'.symm))
    exact ⟨b, hb, hsame ▸ hc⟩
  · have hfirst := (decides_equal hu hv).iff.1 huv
    have hsecond := (decides_equal hv hw).iff.1 hvw
    exact (decides_equal hu hw).iff.2 (hfirst.trans hsecond)
  · exact kinds_at? hv hw ((decides_equal hv hw).iff.1 h)
  · obtain ⟨b, hb, -⟩ := decides_equal hv hw
    have hkinds : k = .string ∨ k = .array ∨ k = .boolean := by simpa using hk
    exact ⟨b, hb, compare_of_equal hkinds hvk hwk hb⟩

-- The same fields in another order, with a function among them.
theorem equal_of_reordered :
    let f : Value := .function ⟨"f", [(.str "a", some (.int 1))], none, .block .unknown (.list [])⟩
    let u : Value := .array [.object [("x", .int 1), ("y", f)]]
    let v : Value := .array [.object [("y", f), ("x", .int 1)]]
    v.equal u = .ok true ∧ u.compare (.str "==") v = .ok (.bool true) ∧
      u.compare (.str "!=") v = .ok (.bool false) := by
  intro f u v
  have hf : f.Comparable := by
    refine .function (fun q hq a ha => ?_) (by simp)
    obtain rfl := List.mem_singleton.1 hq
    exact Option.some.inj ha ▸ .int 1
  have hu : u.Comparable := by
    refine .array (List.forall_mem_singleton.2 (.object (by simp [Bindings.names]) ?_))
    exact List.forall_mem_cons.2 ⟨.int 1, List.forall_mem_singleton.2 hf⟩
  have hv : v.Comparable := by
    refine .array (List.forall_mem_singleton.2 (.object (by simp [Bindings.names]) ?_))
    exact List.forall_mem_cons.2 ⟨hf, List.forall_mem_singleton.2 (.int 1)⟩
  have hfields : exactField [("x", .int 1), ("y", f)] = exactField [("y", f), ("x", .int 1)] := by
    funext name
    simp only [exactField]
    by_cases hx : "x" = name
    · subst hx
      simp
    · simp [hx]
  have huv : u.equal v = .ok true :=
    (decides_equal hu hv).iff.2 (by simp [u, v, exact, exactAll, hfields])
  obtain ⟨-, ⟨b, hb, hsymm⟩, -, -, hcompare⟩ := equal_equivalence hu hu hv
  obtain ⟨c, hc, heq, hne⟩ := hcompare .array (by simp) rfl rfl
  rw [huv] at hb hc
  cases hb
  cases hc
  exact ⟨hsymm, heq, hne⟩

end Value

end TernLang
