import IngressTls.Proofs.Instant.Rfc3339
import IngressTls.Proofs.Json.Members
import IngressTls.Resource.Shape

set_option autoImplicit false

/-! # Normal forms of Kubernetes values

What a value of a shape is read as has the same shape, and it is read as itself: unknown members and
nulls are gone, and times are in universal time already.

Main statements: `read_read` and `readMembers_of_occurrences`.
-/

namespace IngressTls.Shape

open Json (optional_eq_some_iff)

mutual

/-- Whether no record of a shape has two members of one name. -/
def distinct : Shape → Bool
  | list item => distinct item
  | map value => distinct value
  | record members => distinctMembers members
  | _ => true

/-- Whether some members have different names, and so on within their shapes. -/
def distinctMembers : List (String × Shape) → Bool
  | [] => true
  | (name, shape) :: rest =>
    !(rest.map Prod.fst).contains name && distinct shape && distinctMembers rest

end

variable {shape : Shape} {name : String} {rest members : List (String × Shape)} {j v w : Json}
  {ms : List (String × Json)}

/-! ## Members -/

theorem readMembers_cons_iff : readMembers ((name, shape) :: rest) j = some ms ↔
    ∃ o ms', j.optional name shape.read = some o ∧ readMembers rest j = some ms' ∧
      ms = (o.or shape.absent).toList.map (fun v => (name, v)) ++ ms' := by
  rw [readMembers, Json.optional]
  constructor
  · intro h
    split at h
    · next v ms' hv hms' =>
      cases h
      exact ⟨v.bind id, ms', by rw [hv]; rfl, hms', rfl⟩
    · cases h
  · rintro ⟨o, ms', ho, hms', rfl⟩
    obtain ⟨v, hv, rfl⟩ := Option.map_eq_some_iff.1 ho
    rw [hv, hms']

/-- Only the members of a record are left in its normal form. -/
theorem fst_mem_of_readMembers (h : readMembers members j = some ms) {m : String × Json}
    (hm : m ∈ ms) : m.1 ∈ members.map Prod.fst := by
  induction members generalizing ms with
  | nil =>
      cases h
      cases hm
  | cons entry rest ih =>
      obtain ⟨name, shape⟩ := entry
      obtain ⟨o, ms', -, hms', rfl⟩ := readMembers_cons_iff.1 h
      rcases List.mem_append.1 hm with hm | hm
      · obtain ⟨v, -, rfl⟩ := List.mem_map.1 hm
        exact List.mem_cons_self
      · exact List.mem_cons_of_mem _ (ih hms' hm)

/-! ## Values -/

theorem read_absent (h : shape.absent = some w) : shape.read w = some w ∧ w.isNull = false := by
  cases shape with
  | plainText =>
      cases h
      exact ⟨rfl, rfl⟩
  | _ => cases h

/-- The normal form of something is not nothing. -/
theorem isNull_read (h : shape.read v = some w) (hv : v.isNull = false) : w.isNull = false := by
  unfold read at h
  split at h
  · cases h; rfl
  · cases h; rfl
  · cases h; rfl
  · obtain ⟨-, h⟩ := Option.ite_none_right_eq_some.1 h
    cases h
    rfl
  · obtain ⟨t, -, rfl⟩ := Option.map_eq_some_iff.1 h
    rfl
  · obtain ⟨-, h⟩ := Option.ite_none_right_eq_some.1 h
    cases h
    exact hv
  · obtain ⟨xs, -, rfl⟩ := Option.map_eq_some_iff.1 h
    rfl
  · obtain ⟨xs, -, rfl⟩ := Option.map_eq_some_iff.1 h
    rfl
  · obtain ⟨xs, -, rfl⟩ := Option.map_eq_some_iff.1 h
    rfl
  · cases h

mutual

/-- What a value is read as is read as itself. -/
theorem read_read : ∀ (shape : Shape) {v w : Json}, shape.distinct = true →
    shape.read v = some w → shape.read w = some w
  | text, v, w, _, h | plainText, v, w, _, h => by
      cases v with
      | string s =>
          cases h
          rfl
      | _ => cases h
  | flag, v, w, _, h => by
      cases v with
      | bool b =>
          cases h
          rfl
      | _ => cases h
  | integer range, v, w, _, h => by
      cases v with
      | number d =>
          obtain ⟨hrange, hw⟩ := Option.ite_none_right_eq_some.1 h
          cases hw
          exact h
      | _ => cases h
  | time, v, w, _, h => by
      cases v with
      | string s =>
          -- the text that was written names the same second, not the same instant
          obtain ⟨t, ht, rfl⟩ := Option.map_eq_some_iff.1 h
          obtain ⟨t', ht', htext⟩ := Option.map_eq_some_iff.1 (Instant.map_toRfc3339_ofRfc3339? ht)
          exact Option.map_eq_some_iff.2 ⟨t', ht', congrArg Json.string htext⟩
      | _ => cases h
  | anything, v, w, _, h => by
      rw [read] at h
      obtain ⟨hwhole, hw⟩ := Option.ite_none_right_eq_some.1 h
      cases hw
      rw [read]
      exact h
  | list item, v, w, hdistinct, h => by
      cases v with
      | array xs =>
          rw [read] at h
          obtain ⟨ys, hys, rfl⟩ := Option.map_eq_some_iff.1 h
          rw [read, Json.mapM_self (fun _ _ => read_read item hdistinct) hys]
          rfl
      | _ => cases h
  | map value, v, w, hdistinct, h => by
      cases v with
      | object ms =>
          rw [read] at h
          obtain ⟨ns, hns, rfl⟩ := Option.map_eq_some_iff.1 h
          rw [read, Json.mapM_self ?_ hns]
          · rfl
          · intro m n hn
            obtain ⟨u, hu, rfl⟩ := Option.map_eq_some_iff.1 hn
            exact Option.map_eq_some_iff.2 ⟨u, read_read value hdistinct hu, rfl⟩
      | _ => cases h
  | record members, v, w, hdistinct, h => by
      cases v with
      | object ms =>
          rw [read] at h
          obtain ⟨ns, hns, rfl⟩ := Option.map_eq_some_iff.1 h
          rw [read, readMembers_of_occurrences members hdistinct hns fun _ _ => rfl]
          rfl
      | _ => cases h

/-- The members of a normal form are read as themselves, whatever else stands beside them. -/
theorem readMembers_of_occurrences : ∀ (members : List (String × Shape)) {j j' : Json}
    {ms : List (String × Json)}, distinctMembers members = true →
    readMembers members j = some ms →
    (∀ name ∈ members.map Prod.fst,
      j'.occurrences name = (Json.object ms).occurrences name) →
    readMembers members j' = some ms
  | [], j, j', ms, hdistinct, h, hsame => h
  | (name, shape) :: rest, j, j', ms, hdistinct, h, hsame => by
      rw [distinctMembers, Bool.and_eq_true, Bool.and_eq_true] at hdistinct
      obtain ⟨⟨hname, hshape⟩, hrest⟩ := hdistinct
      obtain ⟨o, ms', ho, hms', rfl⟩ := readMembers_cons_iff.1 h
      have hnotMem : name ∉ rest.map Prod.fst := by simpa using hname
      -- the rest is read from the whole normal form, in which this member stands as well; that is
      -- why the induction is about any object with the same occurrences
      refine readMembers_cons_iff.2 ⟨o.or shape.absent, ms', ?_, ?_, ?_⟩
      · have hrest' : (Json.object ms').occurrences name = [] := by
          refine Json.occurrences_of_notMem fun hmem => hnotMem ?_
          obtain ⟨m, hm, rfl⟩ := List.mem_map.1 hmem
          exact fst_mem_of_readMembers hms' hm
        have hvalue : j'.occurrences name = ((o.or shape.absent).map id).toList := by
          rw [hsame name List.mem_cons_self, Json.occurrences_append, Json.occurrences_named,
            hrest', List.append_nil, Option.map_id_apply]
        refine Json.optional_of_toList (fun w hw => ?_) hvalue
        rcases Option.or_eq_some_iff.1 hw with rfl | ⟨-, hw⟩
        · -- the value that was found is the normal form of some value
          obtain ⟨v, hv, hread⟩ := Json.exists_of_optional ho
          exact ⟨read_read shape hshape hread, isNull_read hread hv⟩
        · exact read_absent hw
      · refine readMembers_of_occurrences rest hrest hms' fun n hn => ?_
        have hne : n ≠ name := fun heq => hnotMem (heq ▸ hn)
        rw [hsame n (List.mem_cons_of_mem _ hn), Json.occurrences_append,
          Json.occurrences_named_ne _ hne, List.nil_append]
      · cases o with
        | some v => rfl
        | none =>
            cases shape.absent with
            | none => rfl
            | some v => rfl

end

end IngressTls.Shape
