import Mathlib.Data.List.Nodup
import Mathlib.Tactic.Common
import TernLang.Ast.Codec

-- A document is read back from its JSON value.

namespace TernLang

namespace Json

-- Where no two members have one name, every member is found.
theorem lookup?_of_mem {α : Type} {members : List (String × α)} {name : String} {a : α}
    (hnames : (members.map (·.1)).Nodup) (hmem : (name, a) ∈ members) :
    lookup? name members = some a := by
  have hfound : (members.reverse.find? (·.1 = name)).isSome := by
    rw [List.find?_isSome]
    exact ⟨(name, a), List.mem_reverse.2 hmem, by simp⟩
  obtain ⟨⟨found, b⟩, hfind⟩ := Option.isSome_iff_exists.1 hfound
  have hname : found = name := by simpa using List.find?_some hfind
  have hother : (found, b) ∈ members := List.mem_reverse.1 (List.mem_of_find?_eq_some hfind)
  have hsame := List.inj_on_of_nodup_map hnames hother hmem hname
  rw [lookup?, hfind, hsame]
  rfl

end Json

namespace Tree

-- A document in which all nodes have the fields of their types.
inductive IsWhole : Tree → Prop where
  | null : IsWhole .null
  | bool (b : Bool) : IsWhole (.bool b)
  | int (n : Int) : IsWhole (.int n)
  | real (x : Float) : IsWhole (.real x)
  | str (s : String) : IsWhole (.str s)
  | list {ts : List Tree} (items : ∀ t ∈ ts, IsWhole t) : IsWhole (.list ts)
  | node {type : NodeType} {line column : Tree} {fields : List Tree} (first : IsWhole line)
    (second : IsWhole column) (count : fields.length = type.fields.length)
    (inside : ∀ t ∈ fields, IsWhole t) : IsWhole (.node type line column fields)

theorem toJsonList_eq_map (ts : List Tree) : toJsonList ts = ts.map toJson := by
  induction ts with
  | nil => rfl
  | cons t ts ih => rw [toJsonList, ih, List.map_cons]

theorem contentsOf_eq_map (members : List (String × Json)) :
    contentsOf members = members.map fun m => (m.1, ofJson m.2) := by
  induction members with
  | nil => rfl
  | cons m members ih =>
    obtain ⟨name, j⟩ := m
    rw [contentsOf, ih, List.map_cons]

theorem ofJsonList_toJson {ts : List Tree} (h : ∀ t ∈ ts, ofJson t.toJson = .ok t) :
    ofJsonList (ts.map toJson) = .ok ts := by
  induction ts with
  | nil => rfl
  | cons t ts ih =>
    obtain ⟨hfirst, hlater⟩ := List.forall_mem_cons.1 h
    rw [List.map_cons, ofJsonList, hfirst, ih hlater]
    rfl

-- The names of the members of a node, those of its position included.
def memberNames (type : NodeType) : List String := "type" :: "line" :: "column" :: type.fields

theorem nodup_memberNames (type : NodeType) : (memberNames type).Nodup := by
  cases type <;> decide

theorem fieldsOf_of_lookup? {contents : Contents} {type : NodeType} {names : List String}
    {fields : List Tree} (hcount : fields.length = names.length)
    (hfound : ∀ entry ∈ names.zip fields, Json.lookup? entry.1 contents = some (.ok entry.2)) :
    fieldsOf contents type names = .ok fields := by
  induction names generalizing fields with
  | nil =>
    rw [List.length_eq_zero_iff.1 hcount]
    rfl
  | cons name names ih =>
    cases fields with
    | nil => exact absurd hcount (by simp)
    | cons t fields =>
      obtain ⟨hfirst, hlater⟩ := List.forall_mem_cons.1 hfound
      rw [fieldsOf, ih (by simpa using hcount) hlater]
      simp only [hfirst]
      rfl

theorem ofJson_toJson {t : Tree} (h : t.IsWhole) : ofJson t.toJson = .ok t := by
  induction h with
  | null | bool | int | real | str => rfl
  | list _ ih =>
    rw [toJson, toJsonList_eq_map, ofJson, ofJsonList_toJson ih]
    rfl
  | @node type line column fields _ _ count _ hline hcolumn hfields =>
    generalize hmembers : ("type", Json.str type.name) :: ("line", line.toJson) ::
      ("column", column.toJson) :: type.fields.zip (fields.map toJson) = members
    have hnames : members.map (·.1) = memberNames type := by
      have hzip : (type.fields.zip (fields.map toJson)).map (·.1) = type.fields :=
        List.map_fst_zip (by simp [count])
      rw [← hmembers, List.map_cons, List.map_cons, List.map_cons, hzip, memberNames]
    have hcontents : ((contentsOf members).map (·.1)).Nodup := by
      have hsame : (contentsOf members).map (·.1) = memberNames type := by
        rw [contentsOf_eq_map, List.map_map, ← hnames]
        rfl
      exact hsame ▸ nodup_memberNames type
    -- Each part is found under its name, with the tree it was written for in it.
    have hfound (name : String) (u : Tree) (hmem : (name, u.toJson) ∈ members)
        (hread : ofJson u.toJson = .ok u) :
        Json.lookup? name (contentsOf members) = some (.ok u) := by
      refine Json.lookup?_of_mem hcontents ?_
      rw [contentsOf_eq_map, List.mem_map]
      exact ⟨_, hmem, by rw [hread]⟩
    have htype : Json.lookup? "type" members = some (.str type.name) :=
      Json.lookup?_of_mem (hnames ▸ nodup_memberNames type) (by simp [← hmembers])
    have hall : fieldsOf (contentsOf members) type type.fields = .ok fields := by
      refine fieldsOf_of_lookup? count fun entry hentry => ?_
      refine hfound entry.1 entry.2 ?_ (hfields entry.2 (List.of_mem_zip hentry).2)
      have hzip : (entry.1, entry.2.toJson) ∈ type.fields.zip (fields.map toJson) := by
        rw [List.zip_map_right, List.mem_map]
        exact ⟨entry, hentry, rfl⟩
      simp [← hmembers, hzip]
    rw [toJson, toJsonList_eq_map, hmembers, ofJson, htype]
    simp only [typeOf, NodeType.ofName?_name, assemble, coordinate,
      hfound "line" line (by simp [← hmembers]) hline,
      hfound "column" column (by simp [← hmembers]) hcolumn, Option.getD_some, bind, Except.bind,
      hall]
    rfl

end Tree

end TernLang
