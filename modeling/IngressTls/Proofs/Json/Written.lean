import IngressTls.Proofs.Json.Members

set_option autoImplicit false

/-! # What is written is read back

A record is written member by member, under names that differ. Members without a value and empty
lists are left out, and they are what a missing member stands for. So each member has one
occurrence at most, and is read back as the value that was written.

Main statements: `WrittenAs.occurrences`, `WrittenAs.asRecord` and the lemmas of `Inverse`.
-/

namespace IngressTls.Json

variable {α : Type} {read : Json → Option α} {write : α → Json} {name : String} {j : Json}

/-- A reader takes back whatever a writer writes, which is never null. -/
structure Inverse (read : Json → Option α) (write : α → Json) : Prop where
  /-- What was written is read back. -/
  read_write : ∀ v, read (write v) = some v
  /-- Nothing is written as null. -/
  isNull_write : ∀ v, (write v).isNull = false

theorem inverse_string : Inverse string? .string := ⟨fun _ => rfl, fun _ => rfl⟩

theorem Inverse.listOf (h : Inverse read write) :
    Inverse (listOf? read) fun vs => .array (vs.map write) := by
  refine ⟨fun vs => ?_, fun _ => rfl⟩
  refine Option.bind_eq_some_iff.2 ⟨vs.map write, rfl, mapM_eq_some_iff.2 ?_⟩
  rw [List.map_map]
  exact List.map_congr_left fun v _ => h.read_write v

/-! ## Records -/

/-- The record of some members, without those that have no value. -/
def written (members : List (String × Option Json)) : Json :=
  record (members.map fun m => m.2.map fun v => (m.1, v))

/-- What is written of a list: nothing if it is empty. -/
def listed (write : α → Json) (vs : List α) : Option Json :=
  if vs.isEmpty then none else some (.array (vs.map write))

theorem present_eq (name : String) (write : α → Json) (v : Option α) :
    present name write v = (v.map write).map fun v => (name, v) := by
  rw [present, Option.map_map]
  rfl

theorem nonempty_eq (name : String) (write : α → Json) (vs : List α) :
    nonempty name write vs = (listed write vs).map fun v => (name, v) := by
  unfold nonempty listed
  split
  · rfl
  · rfl

theorem occurrences_written_cons (m : String × Option Json) (ms : List (String × Option Json)) :
    (written (m :: ms)).occurrences name =
      (if m.1 = name then m.2.toList else []) ++ (written ms).occurrences name := by
  obtain ⟨n, v⟩ := m
  have hmembers : written ((n, v) :: ms) = .object (v.toList.map (fun w => (n, w)) ++
      (ms.map fun m => m.2.map fun w => (m.1, w)).filterMap id) := by
    cases v with
    | none => rfl
    | some v => rfl
  rw [hmembers, occurrences_append]
  by_cases hn : n = name
  · subst hn
    rw [occurrences_named, if_pos rfl]
    rfl
  · rw [occurrences_named_ne _ (Ne.symm hn), if_neg hn]
    rfl

theorem occurrences_written_of_notMem {ms : List (String × Option Json)}
    (h : name ∉ ms.map Prod.fst) : (written ms).occurrences name = [] := by
  induction ms with
  | nil => rfl
  | cons m ms ih =>
      rw [List.map_cons, List.mem_cons, not_or] at h
      rw [occurrences_written_cons, if_neg (Ne.symm h.1), ih h.2, List.nil_append]

/-- A member has one occurrence if it has a value, and none if it has no value. -/
theorem occurrences_written {ms : List (String × Option Json)} {v : Option Json}
    (hnames : (ms.map Prod.fst).Nodup) (h : (name, v) ∈ ms) :
    (written ms).occurrences name = v.toList := by
  induction ms with
  | nil => cases h
  | cons m ms ih =>
      rw [List.map_cons, List.nodup_cons] at hnames
      rw [occurrences_written_cons]
      -- the names differ, so that the first member is not written again
      rcases List.mem_cons.1 h with rfl | h
      · rw [if_pos rfl, occurrences_written_of_notMem hnames.1, List.append_nil]
      · have hne : m.1 ≠ name := by
          intro heq
          exact hnames.1 (List.mem_map.2 ⟨_, h, heq.symm⟩)
        rw [if_neg hne, ih hnames.2 h, List.nil_append]

/-- A value that is written member by member, under names that differ. -/
structure WrittenAs (j : Json) (members : List (String × Option Json)) : Prop where
  /-- The members are what is written. -/
  eq_written : j = written members
  /-- No name is repeated. -/
  nodup : (members.map Prod.fst).Nodup

namespace WrittenAs

variable {members : List (String × Option Json)} (h : j.WrittenAs members)
include h

theorem occurrences {v : Option Json} (hmem : (name, v) ∈ members) :
    j.occurrences name = v.toList := by
  rw [h.eq_written, occurrences_written h.nodup hmem]

theorem asRecord (names : List String) : j.asRecord names = some j := by
  have honce (n : String) : (j.occurrences n).length ≤ 1 := by
    by_cases hn : n ∈ members.map Prod.fst
    · obtain ⟨⟨m, v⟩, hm, rfl⟩ := List.mem_map.1 hn
      rw [h.occurrences hm]
      cases v with
      | none => exact Nat.zero_le 1
      | some v => exact Nat.le_refl 1
    · rw [h.eq_written, occurrences_written_of_notMem hn]
      exact Nat.zero_le 1
  rw [h.eq_written] at honce ⊢
  refine if_pos (List.all_eq_true.2 fun n _ => decide_eq_true ?_)
  have hlength := honce n
  rwa [written, record, Json.occurrences, List.length_map] at hlength

end WrittenAs

/-! ## Reading a written member -/

/-- A member that stands there once and can be read is there. -/
theorem required_of_toList {v : α} {w : Json} (hread : read w = some v)
    (h : j.occurrences name = (some w).toList) : j.required name read = some v := by
  have hlast : j.last? name read = some (some v) := by
    refine last?_eq_some_iff.2 ?_
    rw [h]
    refine ⟨fun u hu => ?_, hread.symm⟩
    rw [List.mem_singleton.1 hu, hread]
    rfl
  rw [required, hlast]
  rfl

namespace Inverse

variable (h : Inverse read write)
include h

theorem required {v : α} (hj : j.occurrences name = (some (write v)).toList) :
    j.required name read = some v :=
  required_of_toList (h.read_write v) hj

theorem optional {v : Option α} (hj : j.occurrences name = (v.map write).toList) :
    j.optional name read = some v :=
  optional_of_toList (fun x _ => ⟨h.read_write x, h.isNull_write x⟩) hj

theorem defaulted {v default : α} (hj : j.occurrences name = (some (write v)).toList) :
    j.defaulted name read default = some v := by
  obtain ⟨o, ho, hv⟩ := Option.bind_eq_some_iff.1 (h.required hj)
  cases hv
  rw [Json.defaulted, ho]
  rfl

/-- A list that was left out is read as the empty list. -/
theorem defaulted_listed {vs : List α} (hj : j.occurrences name = (listed write vs).toList) :
    j.defaulted name (listOf? read) [] = some vs := by
  unfold listed at hj
  split at hj
  · next hempty =>
    have hnone : j.last? name (listOf? read) = some none := by
      refine last?_eq_some_iff.2 ?_
      rw [hj]
      exact ⟨fun _ hv => absurd hv List.not_mem_nil, rfl⟩
    rw [Json.defaulted, hnone, List.isEmpty_iff.1 hempty]
    rfl
  · exact h.listOf.defaulted hj

end Inverse

end IngressTls.Json
