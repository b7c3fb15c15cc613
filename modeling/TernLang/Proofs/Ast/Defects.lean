import TernLang.Proofs.Ast.Document

-- Which JSON values are documents. A value can be read when all objects that are reached on the way
-- through it are complete; the first defect on the way counts; and what is written again is the
-- value in its normal form, without the members that no type has.

namespace TernLang

namespace Json

-- Values by the values in them.
theorem induct {motive : Json → Prop} (null : motive .null) (bool : ∀ b, motive (.bool b))
    (int : ∀ n, motive (.int n)) (real : ∀ x, motive (.real x)) (str : ∀ s, motive (.str s))
    (list : ∀ items, (∀ j ∈ items, motive j) → motive (.list items))
    (object : ∀ members, (∀ m ∈ members, motive m.2) → motive (.object members)) :
    ∀ j, motive j :=
  @Json.rec motive (fun items => ∀ j ∈ items, motive j) (fun members => ∀ m ∈ members, motive m.2)
    (fun m => motive m.2) null bool int real str list object (by simp)
    (fun _ _ first later => List.forall_mem_cons.2 ⟨first, later⟩) (by simp)
    (fun _ _ first later => List.forall_mem_cons.2 ⟨first, later⟩) (fun _ _ value => value)

variable {α β : Type} {name : String} {members : List (String × α)}

theorem lookup?_map (f : α → β) (name : String) (members : List (String × α)) :
    lookup? name (members.map fun m => (m.1, f m.2)) = (lookup? name members).map f := by
  rw [lookup?, lookup?, ← List.map_reverse, List.find?_map, Option.map_map, Option.map_map]
  rfl

theorem mem_of_lookup? {a : α} (h : lookup? name members = some a) : (name, a) ∈ members := by
  obtain ⟨⟨found, b⟩, hfind, rfl⟩ := Option.map_eq_some_iff.1 h
  obtain rfl : found = name := by simpa using List.find?_some hfind
  exact List.mem_reverse.1 (List.mem_of_find?_eq_some hfind)

-- Members that are put together under different names.
theorem lookup?_filterMap {names : List String} (hnames : names.Nodup) (hmem : name ∈ names)
    (f : String → Option α) :
    lookup? name (names.filterMap fun n => (f n).map (n, ·)) = f name := by
  have hsub : ((names.filterMap fun n => (f n).map (n, ·)).map (·.1)).Sublist names := by
    clear hmem
    induction names with
    | nil => exact List.nil_sublist _
    | cons n ns ih =>
      have hrest := ih (List.nodup_cons.1 hnames).2
      cases hf : f n with
      | some a => simpa [hf] using hrest
      | none => simpa [hf] using hrest.trans (List.sublist_cons_self n ns)
  cases hf : f name with
  | some a =>
    refine lookup?_of_mem (hnames.sublist hsub) (List.mem_filterMap.2 ⟨name, hmem, by simp [hf]⟩)
  | none =>
    rw [Option.eq_none_iff_forall_ne_some]
    intro a ha
    obtain ⟨n, -, hn⟩ := List.mem_filterMap.1 (mem_of_lookup? ha)
    obtain ⟨b, hb, heq⟩ := Option.map_eq_some_iff.1 hn
    cases heq
    exact absurd (hf.symm.trans hb) (by simp)

end Json

namespace NodeType

theorem ofName?_eq_some_iff {s : String} {type : NodeType} :
    ofName? s = some type ↔ s = type.name := by
  constructor
  · intro h
    simpa [eq_comm] using List.find?_some h
  · rintro rfl
    exact ofName?_name type

-- The members of an object that are read after its type, in order.
def partNames (type : NodeType) : List String := "line" :: "column" :: type.fields

-- What is read in place of a member that may be left out.
def default? (name : String) : Option Json :=
  if name = "line" ∨ name = "column" then some (.int 0)
  else if isOptional name then some .null
  else none

theorem default?_of_mem_fields {type : NodeType} {name : String} (h : name ∈ type.fields) :
    default? name = if isOptional name then some .null else none := by
  have hplace : name ≠ "line" ∧ name ≠ "column" := by
    have hnames := Tree.nodup_memberNames type
    simp only [Tree.memberNames, List.nodup_cons, List.mem_cons, not_or] at hnames
    exact ⟨fun heq => hnames.2.1.2 (heq ▸ h), fun heq => hnames.2.2.1 (heq ▸ h)⟩
  rw [default?, if_neg (by simp [hplace])]

end NodeType

namespace Tree

open Json NodeType

variable {members : List (String × Json)} {type : NodeType}

-- The type of an object is the name of a type.
def HasType (members : List (String × Json)) (type : NodeType) : Prop :=
  lookup? "type" members = some (.str type.name)

theorem typeOf_eq_ok_iff : typeOf (lookup? "type" members) = .ok type ↔ HasType members type := by
  rw [HasType]
  generalize lookup? "type" members = given
  cases given with
  | none => simp [typeOf]
  | some j =>
    cases j with
    | str s =>
      rw [typeOf, Option.some.injEq, Json.str.injEq, ← ofName?_eq_some_iff]
      cases ofName? s <;> simp
    | _ => simp [typeOf]

-- The values that are reached through lists and through the members that the types of objects have.
inductive Reaches : Json → Json → Prop where
  | here {j : Json} : Reaches j j
  | item {items : List Json} {j k : Json} (mem : j ∈ items) (next : Reaches j k) :
    Reaches (.list items) k
  | part {members : List (String × Json)} {type : NodeType} {name : String} {j k : Json}
    (known : HasType members type) (mem : name ∈ type.partNames)
    (found : lookup? name members = some j) (next : Reaches j k) : Reaches (.object members) k

-- An object of a known type with all its fields, but for the one that may be left out.
def IsComplete (members : List (String × Json)) : Prop :=
  ∃ type, HasType members type ∧
    ∀ name ∈ type.fields, name ≠ "type_expr" → (lookup? name members).isSome

mutual

-- All that is wrong with a value, in the order in which it is read. Nothing is said of what is in
-- an object whose type is not known, and of members that the type does not have.
def defects : Json → List Defect
  | .list items => defectsOfItems items
  | .object members =>
    match typeOf (lookup? "type" members) with
    | .error d => [d]
    | .ok type =>
      let found := defectsOfMembers members
      type.partNames.flatMap fun name =>
        match lookup? name found, default? name with
        | some ds, _ => ds
        | none, some _ => []
        | none, none => [.missingField type name]
  | _ => []

def defectsOfItems : List Json → List Defect
  | [] => []
  | j :: js => defects j ++ defectsOfItems js

def defectsOfMembers : List (String × Json) → List (String × List Defect)
  | [] => []
  | (name, j) :: members => (name, defects j) :: defectsOfMembers members

end

mutual

-- A value without the members that the types of its objects do not have. The others are put in
-- order, and those that are missing are filled in where `fill` says with what.
def arranged (fill : String → Option Json) : Json → Json
  | .list items => .list (arrangedItems fill items)
  | .object members =>
    match typeOf (lookup? "type" members) with
    | .error _ => .object members
    | .ok type =>
      let found := arrangedMembers fill members
      .object (("type", .str type.name) :: type.partNames.filterMap fun name =>
        ((lookup? name found).or (fill name)).map (name, ·))
  | j => j

def arrangedItems (fill : String → Option Json) : List Json → List Json
  | [] => []
  | j :: js => arranged fill j :: arrangedItems fill js

def arrangedMembers (fill : String → Option Json) : List (String × Json) → List (String × Json)
  | [] => []
  | (name, j) :: members => (name, arranged fill j) :: arrangedMembers fill members

end

-- A value in which nothing is missing.
def normal : Json → Json := arranged default?

theorem defectsOfItems_eq_flatMap (items : List Json) :
    defectsOfItems items = items.flatMap defects := by
  induction items with
  | nil => rfl
  | cons j js ih => rw [defectsOfItems, ih, List.flatMap_cons]

theorem defectsOfMembers_eq_map (members : List (String × Json)) :
    defectsOfMembers members = members.map fun m => (m.1, defects m.2) := by
  induction members with
  | nil => rfl
  | cons m members ih => rw [defectsOfMembers, ih, List.map_cons]

theorem arrangedItems_eq_map (fill : String → Option Json) (items : List Json) :
    arrangedItems fill items = items.map (arranged fill) := by
  induction items with
  | nil => rfl
  | cons j js ih => rw [arrangedItems, ih, List.map_cons]

theorem arrangedMembers_eq_map (fill : String → Option Json) (members : List (String × Json)) :
    arrangedMembers fill members = members.map fun m => (m.1, arranged fill m.2) := by
  induction members with
  | nil => rfl
  | cons m members ih => rw [arrangedMembers, ih, List.map_cons]

theorem ofJsonList_eq_mapM (items : List Json) : ofJsonList items = items.mapM ofJson := by
  induction items with
  | nil => rfl
  | cons j js ih => rw [ofJsonList, ih, List.mapM_cons]

section Each

variable {α β : Type} {bs : List β}

theorem mapM_congr {f g : β → Except Defect α} (h : ∀ b ∈ bs, f b = g b) :
    bs.mapM f = bs.mapM g := by
  induction bs with
  | nil => rfl
  | cons b bs ih =>
    obtain ⟨hb, hbs⟩ := List.forall_mem_cons.1 h
    rw [List.mapM_cons, List.mapM_cons, hb, ih hbs]

theorem forall₂_of_mapM {f : β → Except Defect α} {as : List α} (h : bs.mapM f = .ok as) :
    List.Forall₂ (fun b a => f b = .ok a) bs as := by
  induction bs generalizing as with
  | nil => cases h; exact .nil
  | cons b bs ih =>
    rw [List.mapM_cons] at h
    cases hb : f b with
    | error d => rw [hb] at h; cases h
    | ok a =>
      cases hbs : bs.mapM f with
      | error d => rw [hb, hbs] at h; cases h
      | ok rest =>
        rw [hb, hbs] at h
        cases h
        exact .cons hb (ih hbs)

end Each

-- What is read for one part of an object.
def part (members : List (String × Json)) (type : NodeType) (name : String) : Except Defect Tree :=
  match (lookup? name members).or (default? name) with
  | some j => ofJson j
  | none => .error (.missingField type name)

theorem fieldsOf_eq_mapM {names : List String} (h : ∀ name ∈ names, name ∈ type.fields) :
    fieldsOf (contentsOf members) type names = names.mapM (part members type) := by
  induction names with
  | nil => rfl
  | cons name names ih =>
    obtain ⟨hname, hnames⟩ := List.forall_mem_cons.1 h
    rw [fieldsOf, ih hnames, List.mapM_cons, part, contentsOf_eq_map, lookup?_map,
      default?_of_mem_fields hname]
    cases lookup? name members with
    | some j => rfl
    | none => cases isOptional name <;> rfl

theorem coordinate_eq {name : String} (h : name = "line" ∨ name = "column") :
    coordinate (contentsOf members) name = part members type name := by
  rw [coordinate, part, contentsOf_eq_map, lookup?_map, default?, if_pos h]
  cases lookup? name members <;> rfl

-- The parts of a node, given those of its object.
def ofParts (type : NodeType) : List Tree → Tree
  | line :: column :: fields => .node type line column fields
  | _ => .null

theorem ofJson_object (h : HasType members type) :
    ofJson (.object members) = ofParts type <$> type.partNames.mapM (part members type) := by
  have hassemble : ofJson (.object members) = assemble type (contentsOf members) := by
    rw [ofJson, typeOf_eq_ok_iff.2 h]
    rfl
  rw [hassemble, assemble, coordinate_eq (.inl rfl), coordinate_eq (.inr rfl),
    fieldsOf_eq_mapM fun _ => id, partNames, List.mapM_cons, List.mapM_cons]
  cases part members type "line" with
  | error d => rfl
  | ok line =>
    cases part members type "column" with
    | error d => rfl
    | ok column => cases type.fields.mapM (part members type) <;> rfl

-- What comes of a reading, and all that is wrong with what is read.
def Agrees {α : Type} (r : Except Defect α) (ds : List Defect) : Prop :=
  match r with
  | .ok _ => ds = []
  | .error d => ds.head? = some d

namespace Agrees

variable {α β : Type} {r : Except Defect α} {ds es : List Defect}

theorem exists_ok_iff (h : Agrees r ds) : (∃ a, r = .ok a) ↔ ds = [] := by
  cases r with
  | ok a => exact iff_of_true ⟨a, rfl⟩ h
  | error d =>
    refine iff_of_false (by simp) fun hds => ?_
    rw [Agrees, hds] at h
    exact absurd h (by simp)

theorem eq_error_iff (h : Agrees r ds) {d : Defect} : r = .error d ↔ ds.head? = some d := by
  cases r with
  | ok a =>
    rw [show ds = [] from h]
    simp
  | error e =>
    rw [show ds.head? = some e from h]
    simp

theorem map (h : Agrees r ds) (f : α → β) : Agrees (f <$> r) ds := by
  cases r <;> exact h

-- What comes first is read first, and what is wrong with it counts first.
theorem bind {f : α → Except Defect β} (h : Agrees r ds) (hf : ∀ a, Agrees (f a) es) :
    Agrees (r >>= f) (ds ++ es) := by
  cases r with
  | ok a =>
    rw [show ds = [] from h]
    exact hf a
  | error d =>
    show (ds ++ es).head? = some d
    rw [List.head?_append, show ds.head? = some d from h]
    rfl

theorem mapM {bs : List β} {f : β → Except Defect α} {g : β → List Defect}
    (h : ∀ b ∈ bs, Agrees (f b) (g b)) : Agrees (bs.mapM f) (bs.flatMap g) := by
  induction bs with
  | nil => rfl
  | cons b bs ih =>
    obtain ⟨hb, hbs⟩ := List.forall_mem_cons.1 h
    rw [List.mapM_cons, List.flatMap_cons]
    exact hb.bind fun a => (ih hbs).map (a :: ·)

end Agrees

theorem eq_of_default? {name : String} {j : Json} (h : default? name = some j) :
    j = .int 0 ∨ j = .null := by
  unfold default? at h
  split at h
  · exact .inl (Option.some.inj h).symm
  split at h
  · exact .inr (Option.some.inj h).symm
  · exact absurd h (by simp)

-- A value is read unless there is something wrong with it, and what is wrong first is the error.
theorem agrees_ofJson (j : Json) : Agrees (ofJson j) (defects j) := by
  induction j using Json.induct with
  | null | bool | int | real | str => rfl
  | list items ih =>
    have hitems := Agrees.mapM ih
    rw [← ofJsonList_eq_mapM, ← defectsOfItems_eq_flatMap] at hitems
    exact hitems.map Tree.list
  | object members ih =>
    rw [defects]
    cases htype : typeOf (lookup? "type" members) with
    | error d =>
      rw [ofJson, htype]
      rfl
    | ok type =>
      rw [ofJson_object (typeOf_eq_ok_iff.1 htype)]
      refine (Agrees.mapM fun name _ => ?_).map (ofParts type)
      rw [defectsOfMembers_eq_map, lookup?_map, part]
      cases hfound : lookup? name members with
      | some j => exact ih _ (mem_of_lookup? hfound)
      | none =>
        cases hdefault : default? name with
        | some j => rcases eq_of_default? hdefault with rfl | rfl <;> rfl
        | none => rfl

theorem forall_reaches_object_iff {P : List (String × Json) → Prop} :
    (∀ inner, Reaches (.object members) (.object inner) → P inner) ↔
      P members ∧ ∀ type, HasType members type → ∀ name ∈ type.partNames, ∀ j,
        lookup? name members = some j → ∀ inner, Reaches j (.object inner) → P inner := by
  constructor
  · intro h
    exact ⟨h members .here, fun type htype name hname j hj inner hinner =>
      h inner (.part htype hname hj hinner)⟩
  · rintro ⟨hhere, hparts⟩ inner hinner
    cases hinner with
    | here => exact hhere
    | part known mem found next => exact hparts _ known _ mem _ found inner next

theorem forall_reaches_list_iff {items : List Json} {P : List (String × Json) → Prop} :
    (∀ inner, Reaches (.list items) (.object inner) → P inner) ↔
      ∀ j ∈ items, ∀ inner, Reaches j (.object inner) → P inner := by
  constructor
  · exact fun h j hj inner hinner => h inner (.item hj hinner)
  · intro h inner hinner
    cases hinner with
    | item mem next => exact h _ mem inner next

theorem HasType.unique {type' : NodeType} (h : HasType members type) (h' : HasType members type') :
    type = type' := by
  have hname := Option.some.inj (h.symm.trans h')
  exact Option.some.inj ((ofName?_name type).symm.trans (by
    rw [Json.str.inj hname, ofName?_name]))

theorem isComplete_iff (h : HasType members type) : IsComplete members ↔
    ∀ name ∈ type.partNames, default? name = none → (lookup? name members).isSome := by
  constructor
  · rintro ⟨type', h', hfields⟩ name hname hdefault
    obtain rfl := h.unique h'
    have hplace : name ∈ type.fields := by
      rw [partNames, List.mem_cons, List.mem_cons] at hname
      rcases hname with rfl | rfl | hname
      · exact absurd hdefault (by simp [default?])
      · exact absurd hdefault (by simp [default?])
      · exact hname
    refine hfields name hplace fun heq => ?_
    exact absurd hdefault (by simp [heq, default?, isOptional])
  · intro hparts
    refine ⟨type, h, fun name hname hne => hparts name ?_ ?_⟩
    · exact List.mem_cons_of_mem _ (List.mem_cons_of_mem _ hname)
    · simp [default?_of_mem_fields hname, isOptional, hne]

theorem defects_eq_nil_iff (j : Json) :
    defects j = [] ↔ ∀ members, Reaches j (.object members) → IsComplete members := by
  induction j using Json.induct with
  | null | bool | int | real | str =>
    refine iff_of_true rfl fun members h => ?_
    cases h
  | list items ih =>
    rw [defects, defectsOfItems_eq_flatMap, List.flatMap_eq_nil_iff, forall_reaches_list_iff]
    exact forall₂_congr ih
  | object members ih =>
    rw [defects, forall_reaches_object_iff]
    cases htype : typeOf (lookup? "type" members) with
    | error d =>
      refine iff_of_false (by simp) fun ⟨⟨type, hhas, _⟩, _⟩ => ?_
      rw [typeOf_eq_ok_iff.2 hhas] at htype
      exact absurd htype (by simp)
    | ok type =>
      have hhas := typeOf_eq_ok_iff.1 htype
      have hinside : (∀ type', HasType members type' → ∀ name ∈ type'.partNames, ∀ j,
          lookup? name members = some j → ∀ inner, Reaches j (.object inner) → IsComplete inner) ↔
          ∀ name ∈ type.partNames, ∀ j, lookup? name members = some j → defects j = [] := by
        refine ⟨fun h name hname j hj => ?_, fun h type' htype' name hname j hj => ?_⟩
        · exact (ih _ (mem_of_lookup? hj)).2 (h type hhas name hname j hj)
        · obtain rfl := hhas.unique htype'
          exact (ih _ (mem_of_lookup? hj)).1 (h name hname j hj)
      rw [isComplete_iff hhas, hinside, ← forall₂_and, defectsOfMembers_eq_map]
      simp only [List.flatMap_eq_nil_iff, lookup?_map]
      refine forall₂_congr fun name _ => ?_
      cases lookup? name members with
      | some j => simp
      | none => cases default? name <;> simp

-- The members of an object that is put in order: its type, and each part that it has or is given.
theorem lookup?_arranged (fill : String → Option Json) (h : HasType members type) :
    ∃ found, arranged fill (.object members) = .object found ∧ HasType found type ∧
      ∀ name ∈ type.partNames, lookup? name found =
        ((lookup? name members).map (arranged fill)).or (fill name) := by
  let entry (name : String) : Option Json :=
    if name = "type" then some (.str type.name)
    else ((lookup? name members).map (arranged fill)).or (fill name)
  have hnames := nodup_memberNames type
  have hpart {name : String} (hname : name ∈ type.partNames) : name ≠ "type" := fun heq =>
    (List.nodup_cons.1 hnames).1 (heq ▸ hname)
  refine ⟨(memberNames type).filterMap fun name => (entry name).map (name, ·), ?_, ?_, ?_⟩
  · have hparts : type.partNames.filterMap (fun name =>
          (((lookup? name members).map (arranged fill)).or (fill name)).map (name, ·)) =
        type.partNames.filterMap fun name => (entry name).map (name, ·) :=
      List.filterMap_congr fun name hname => by rw [show entry name = _ from if_neg (hpart hname)]
    rw [arranged, typeOf_eq_ok_iff.2 h]
    simp only [arrangedMembers_eq_map, lookup?_map]
    rw [hparts]
    rfl
  · exact (lookup?_filterMap hnames List.mem_cons_self entry).trans (if_pos rfl)
  · intro name hname
    refine (lookup?_filterMap hnames (List.mem_cons_of_mem _ hname) entry).trans ?_
    exact if_neg (hpart hname)

-- Nothing else is read than what is left when a value is put in order.
theorem ofJson_arranged {fill : String → Option Json}
    (hfill : ∀ name j, fill name = some j → default? name = some j) (j : Json) :
    ofJson (arranged fill j) = ofJson j := by
  induction j using Json.induct with
  | null | bool | int | real | str => rfl
  | list items ih =>
    have hitems : (items.map (arranged fill)).mapM ofJson = items.mapM ofJson := by
      rw [List.mapM_map]
      exact mapM_congr ih
    rw [arranged, arrangedItems_eq_map, ofJson, ofJson, ofJsonList_eq_mapM, ofJsonList_eq_mapM,
      hitems]
  | object members ih =>
    cases htype : typeOf (lookup? "type" members) with
    | error d => rw [arranged, htype]
    | ok type =>
      have h := typeOf_eq_ok_iff.1 htype
      obtain ⟨found, harranged, hfound, hparts⟩ := lookup?_arranged fill h
      rw [harranged, ofJson_object hfound, ofJson_object h]
      refine congrArg _ (mapM_congr fun name hname => ?_)
      rw [part, part, hparts name hname]
      cases hlookup : lookup? name members with
      | some j => exact ih _ (mem_of_lookup? hlookup)
      | none =>
        cases hgiven : fill name with
        | some j => rw [hfill name j hgiven]; rfl
        | none => rfl

theorem toJson_ofParts {parts : List Tree} (h : parts.length = type.partNames.length) :
    (ofParts type parts).toJson =
      .object (("type", .str type.name) :: type.partNames.zip (parts.map toJson)) := by
  match parts with
  | [] => exact absurd h (by simp [partNames])
  | [_] => exact absurd h (by simp [partNames])
  | line :: column :: fields => rw [ofParts, toJson, toJsonList_eq_map]; rfl

theorem filterMap_eq_zip {names : List String} {parts : List Tree} {entry : String → Option Json}
    (h : List.Forall₂ (fun name t => entry name = some t.toJson) names parts) :
    names.filterMap (fun name => (entry name).map (name, ·)) = names.zip (parts.map toJson) := by
  induction h with
  | nil => rfl
  | cons hfirst _ ih => simp [hfirst, ih]

-- What was read is written in the normal form.
theorem toJson_of_ofJson {j : Json} {t : Tree} (h : ofJson j = .ok t) : t.toJson = normal j := by
  induction j using Json.induct generalizing t with
  | null | bool | int | real | str => cases h; rfl
  | list items ih =>
    rw [ofJson, ofJsonList_eq_mapM] at h
    cases hitems : items.mapM ofJson with
    | error d => rw [hitems] at h; cases h
    | ok ts =>
      rw [hitems] at h
      cases h
      have hread := List.forall₂_and_left _ _ |>.2 ⟨ih, forall₂_of_mapM hitems⟩
      have hall : List.Forall₂ (· = ·) (ts.map toJson) (items.map normal) := by
        rw [List.forall₂_map_left_iff, List.forall₂_map_right_iff]
        exact (hread.imp fun _ _ h => h.1 h.2).flip
      rw [List.forall₂_eq_eq_eq] at hall
      rw [normal, arranged, arrangedItems_eq_map, toJson, toJsonList_eq_map, hall, normal]
  | object members ih =>
    cases htype : typeOf (lookup? "type" members) with
    | error d =>
      rw [ofJson, htype] at h
      cases h
    | ok type =>
      rw [ofJson_object (typeOf_eq_ok_iff.1 htype)] at h
      cases hmapM : type.partNames.mapM (part members type) with
      | error d => rw [hmapM] at h; cases h
      | ok parts =>
        rw [hmapM] at h
        cases h
        have hparts := forall₂_of_mapM hmapM
        rw [toJson_ofParts hparts.length_eq.symm, normal, arranged, htype]
        simp only [arrangedMembers_eq_map, lookup?_map]
        rw [filterMap_eq_zip (hparts.imp fun name t hpart => ?_)]
        rw [part] at hpart
        cases hfound : lookup? name members with
        | some j =>
          rw [hfound] at hpart
          exact congrArg some (ih _ (mem_of_lookup? hfound) hpart).symm
        | none =>
          rw [hfound] at hpart
          cases hdefault : default? name with
          | none => rw [hdefault] at hpart; cases hpart
          | some j =>
            rw [hdefault] at hpart
            rcases eq_of_default? hdefault with rfl | rfl <;> cases hpart <;> rfl

-- Documents and JSON values. A value is a document when every object that is reached in it is
-- complete, and otherwise the first defect is told; members that no type has are not looked at;
-- what is written again is the normal form, from which the same document is read; and parsed
-- programs are read back from what is written of them.
theorem ofJson_and_toJson [Machine] (j : Json) :
    ((∃ t, ofJson j = .ok t) ↔ ∀ members, Reaches j (.object members) → IsComplete members) ∧
    (∀ d, ofJson j = .error d ↔ (defects j).head? = some d) ∧
    ofJson (arranged (fun _ => none) j) = ofJson j ∧
    (∀ t, ofJson j = .ok t → t.toJson = normal j ∧ ofJson t.toJson = .ok t) ∧
    ∀ source program, Node.parse source = .ok program →
      ofJson program.toTree.toJson = .ok program.toTree ∧ program.toTree.toNode = program := by
  have hread := agrees_ofJson j
  refine ⟨hread.exists_ok_iff.trans (defects_eq_nil_iff j), fun d => hread.eq_error_iff,
    ofJson_arranged (by simp) j, fun t ht => ?_, fun source program hparse => ?_⟩
  · have hnormal := toJson_of_ofJson ht
    refine ⟨hnormal, ?_⟩
    rw [hnormal, normal, ofJson_arranged (fun _ _ => id), ht]
  · have hstored := Node.isStored_of_parse hparse
    exact ⟨ofJson_toJson hstored.tree, hstored.toNode⟩

end Tree

end TernLang
