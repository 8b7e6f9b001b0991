import IngressTls.Snapshot

set_option autoImplicit false

/-! # Objects under their keys

Membership among the objects of a snapshot as a look-up, and snapshots in which every object
stands under its own key. An object that is written under its own key replaces the only object
that could have had it.

Main statements: `mem_objects` and `Keyed.insert`.
-/

namespace IngressTls.Snapshot

variable {α : Type}

theorem lookup_of_mem {κ : Type} [BEq κ] [LawfulBEq κ] {es : List (κ × α)} {k : κ} {o : α}
    (hnodup : (es.map Prod.fst).Nodup) (h : (k, o) ∈ es) : es.lookup k = some o := by
  induction es with
  | nil => cases h
  | cons e es ih =>
      rw [List.map_cons, List.nodup_cons] at hnodup
      rcases List.mem_cons.1 h with rfl | hrest
      · exact List.lookup_cons_self
      · have hne : k ≠ e.1 := by
          rintro rfl
          exact hnodup.1 (List.mem_map.2 ⟨_, hrest, rfl⟩)
        rw [List.lookup_cons, beq_false_of_ne hne]
        exact ih hnodup.2 hrest

theorem mem_of_lookup {κ : Type} [BEq κ] [LawfulBEq κ] {es : List (κ × α)} {k : κ} {o : α}
    (h : es.lookup k = some o) : (k, o) ∈ es := by
  obtain ⟨before, after, rfl, -⟩ := List.lookup_eq_some_iff.1 h
  exact List.mem_append_right before List.mem_cons_self

/-- The objects are what can be looked up. -/
theorem mem_objects {s : Snapshot α} {o : α} : o ∈ s.objects ↔ ∃ k, s.lookup k = some o := by
  constructor
  · intro h
    obtain ⟨⟨k, o'⟩, hmem, rfl⟩ := List.mem_map.1 h
    exact ⟨k, lookup_of_mem s.keys_nodup hmem⟩
  · rintro ⟨k, hk⟩
    exact List.mem_map.2 ⟨(k, o), mem_of_lookup hk, rfl⟩

/-- Every object stands under its own key. -/
def Keyed (key : α → ObjectKey) (s : Snapshot α) : Prop :=
  ∀ k o, s.lookup k = some o → key o = k

variable {key : α → ObjectKey} {s : Snapshot α}

/-- If every key is in a namespace, or none is, then a look-up finds only what stands under the
key. -/
theorem find?_eq_lookup {namespaced : Bool} {k : ObjectKey}
    (h : ∀ j o, s.lookup j = some o → j.ns.isSome = namespaced) (hk : k.ns.isSome = namespaced) :
    s.find? k = s.lookup k := by
  obtain ⟨ns, name⟩ := k
  rw [find?]
  cases ns with
  | none => exact Option.or_self
  | some ns =>
      cases hnone : s.lookup ⟨none, name⟩ with
      | none => rw [Option.or_none]
      | some o => cases (h _ o hnone).trans hk.symm

theorem Keyed.empty : Keyed key (Snapshot.empty : Snapshot α) := by
  intro k o h
  cases h

theorem Keyed.insert (h : Keyed key s) (o : α) : Keyed key (s.insert (key o) o) := by
  intro k o' ho'
  rw [lookup_insert] at ho'
  split at ho'
  · next hk =>
      cases ho'
      exact hk.symm
  · exact h k o' ho'

theorem Keyed.erase (h : Keyed key s) (k : ObjectKey) : Keyed key (s.erase k) := by
  intro k' o ho
  rw [lookup_erase] at ho
  split at ho
  · cases ho
  · exact h k' o ho

end IngressTls.Snapshot
