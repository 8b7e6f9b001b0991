import IngressTls.Proofs.Json.Written
import IngressTls.Proofs.Resource.Shape
import IngressTls.Resource.Metadata

set_option autoImplicit false

/-! # Metadata is read back

Metadata that was read is in normal form. It is written with its own members first and the other
ones, which have different names, behind them, and is read back as the same metadata.

Main statement: `Metadata.ofJson?_toJson`.
-/

namespace IngressTls

open Json (Inverse)

/-! ## Maps of texts -/

/-- The entries of a table, put into another table, are found first. -/
theorem Table.find?_foldl_insert {β : Type} {es : List (String × β)}
    (h : es.Pairwise fun a b => a.1 < b.1) (t : Table β) (k : String) :
    (es.foldl (fun t e => t.insert e.1 e.2) t).find? k = (es.lookup k).or (t.find? k) := by
  induction es generalizing t with
  | nil => rfl
  | cons e es ih =>
      obtain ⟨hfirst, hrest⟩ := List.pairwise_cons.1 h
      rw [List.foldl_cons, ih hrest, Table.find?_insert]
      by_cases hk : k = e.1
      · subst hk
        rw [lookup_eq_none_of_lt hfirst, if_pos rfl, Option.none_or]
        exact (congrArg (Option.or · _) (lookup_cons_self es e.1 e.2)).symm
      · rw [if_neg hk]
        exact (congrArg (Option.or · _) (lookup_cons_ne es e.2 hk)).symm

theorem Table.ofList_entries {β : Type} (t : Table β) : Table.ofList t.entries = t := by
  refine Table.ext_find? fun k => ?_
  rw [Table.ofList, Table.find?_foldl_insert t.increasing, Table.find?_empty, Option.or_none]
  rfl

theorem inverse_textMap : Inverse textMap? textMapJson := by
  refine ⟨fun t => ?_, fun _ => rfl⟩
  refine Option.map_eq_some_iff.2 ⟨t.entries, Json.mapM_eq_some_iff.2 ?_, t.ofList_entries⟩
  rw [List.map_map]
  rfl

/-! ## Metadata -/

namespace Metadata

/-- The members with a field of their own. -/
def members (m : Metadata) : List (String × Option Json) :=
  [("name", m.name.map .string), ("generateName", m.generateName.map .string),
   ("namespace", m.ns.map .string), ("resourceVersion", m.resourceVersion.map .string),
   ("labels", m.labels.map textMapJson), ("annotations", m.annotations.map textMapJson)]

theorem toJson_eq (m : Metadata) :
    m.toJson = .object ((m.members.map fun p => p.2.map fun v => (p.1, v)).filterMap id ++
      m.others) := by
  rw [toJson]
  simp only [Json.present_eq]
  rfl

theorem occurrences_toJson (m : Metadata) (name : String) : m.toJson.occurrences name =
    (Json.written m.members).occurrences name ++ (Json.object m.others).occurrences name := by
  rw [toJson_eq, Json.occurrences_append]
  rfl

variable {m : Metadata} {j : Json} {name : String}

/-- No other member has the name of one with a field of its own. -/
theorem notMem_members (h : name ∈ otherShapes.map Prod.fst) :
    name ∉ m.members.map Prod.fst := by
  have hnames : ∀ n ∈ otherShapes.map Prod.fst, n ∉ ["name", "generateName", "namespace",
      "resourceVersion", "labels", "annotations"] := by decide
  exact hnames name h

theorem occurrences_other (h : name ∈ otherShapes.map Prod.fst) :
    m.toJson.occurrences name = (Json.object m.others).occurrences name := by
  rw [occurrences_toJson, Json.occurrences_written_of_notMem (notMem_members h), List.nil_append]

theorem occurrences_member (hothers : ∀ o ∈ m.others, o.1 ∈ otherShapes.map Prod.fst)
    {v : Option Json} (h : (name, v) ∈ m.members) : m.toJson.occurrences name = v.toList := by
  have hnodup : (m.members.map Prod.fst).Nodup := by
    show ["name", "generateName", "namespace", "resourceVersion", "labels", "annotations"].Nodup
    decide
  rw [occurrences_toJson, Json.occurrences_written hnodup h, Json.occurrences_of_notMem,
    List.append_nil]
  intro hmem
  obtain ⟨o, ho, rfl⟩ := List.mem_map.1 hmem
  exact notMem_members (hothers o ho) (List.mem_map_of_mem (f := Prod.fst) h)

/-- Metadata that was read is read back as it was. -/
theorem ofJson?_toJson (h : ofJson? j = some m) : ofJson? m.toJson = some m := by
  obtain ⟨j, -, h⟩ := Option.bind_eq_some_iff.1 h
  obtain ⟨name, -, h⟩ := Option.bind_eq_some_iff.1 h
  obtain ⟨generateName, -, h⟩ := Option.bind_eq_some_iff.1 h
  obtain ⟨ns, -, h⟩ := Option.bind_eq_some_iff.1 h
  obtain ⟨resourceVersion, -, h⟩ := Option.bind_eq_some_iff.1 h
  obtain ⟨labels, -, h⟩ := Option.bind_eq_some_iff.1 h
  obtain ⟨annotations, -, h⟩ := Option.bind_eq_some_iff.1 h
  obtain ⟨others, hothers, h⟩ := Option.bind_eq_some_iff.1 h
  -- of the fields, only the normal form of the other members depends on what was read
  have hnormal : Shape.readMembers otherShapes j = some m.others := by
    cases h
    exact hothers
  have hmember {n : String} {v : Option Json} (hv : (n, v) ∈ m.members) :
      m.toJson.occurrences n = v.toList :=
    occurrences_member (fun _ ho => Shape.fst_mem_of_readMembers hnormal ho) hv
  refine Option.bind_eq_some_iff.2
    ⟨m.name, Json.inverse_string.optional (hmember (by simp [members])), ?_⟩
  refine Option.bind_eq_some_iff.2
    ⟨m.generateName, Json.inverse_string.optional (hmember (by simp [members])), ?_⟩
  refine Option.bind_eq_some_iff.2
    ⟨m.ns, Json.inverse_string.optional (hmember (by simp [members])), ?_⟩
  refine Option.bind_eq_some_iff.2
    ⟨m.resourceVersion, Json.inverse_string.optional (hmember (by simp [members])), ?_⟩
  refine Option.bind_eq_some_iff.2
    ⟨m.labels, inverse_textMap.optional (hmember (by simp [members])), ?_⟩
  refine Option.bind_eq_some_iff.2
    ⟨m.annotations, inverse_textMap.optional (hmember (by simp [members])), ?_⟩
  exact Option.bind_eq_some_iff.2 ⟨m.others, Shape.readMembers_of_occurrences otherShapes
    (by decide) hnormal fun _ hn => occurrences_other hn, rfl⟩

end Metadata

end IngressTls
