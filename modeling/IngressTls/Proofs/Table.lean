import IngressTls.Table
import Mathlib.Algebra.BigOperators.Group.Finset.Basic
import Mathlib.Algebra.BigOperators.Intervals
import Mathlib.Algebra.Order.BigOperators.Group.Finset

set_option autoImplicit false

/-! # Tables of numbers

The values of a table of numbers, summed up, are the sum of what it holds for each name, a
name without an entry counting zero. The sum may run over any finite set of names that has
all names of the table, so that two tables can be summed over the same names.

Main statement: `total_eq_sum`.
-/

namespace IngressTls.Table

variable {β : Type}

/-! ## Names -/

theorem has_eq_false_iff {t : Table β} {k : String} : t.has k = false ↔ t.find? k = none := by
  rw [has, Option.isSome_eq_false_iff, Option.isNone_iff_eq_none]

@[simp] theorem has_insert (t : Table β) (k j : String) (v : β) :
    (t.insert k v).has j = (decide (j = k) || t.has j) := by
  rw [has, find?_insert]
  by_cases h : j = k
  · simp [h]
  · simp [h, has]

@[simp] theorem has_erase (t : Table β) (k j : String) :
    (t.erase k).has j = (!decide (j = k) && t.has j) := by
  rw [has, find?_erase]
  by_cases h : j = k
  · simp [h]
  · simp [h, has]

/-- What is found after a name was erased is under another name, and was there before. -/
theorem find?_erase_eq_some {t : Table β} {k j : String} {v : β} :
    (t.erase k).find? j = some v ↔ j ≠ k ∧ t.find? j = some v := by
  rw [find?_erase]
  by_cases h : j = k
  · simp [h]
  · simp [h]

theorem mem_keys_of_find? {t : Table β} {k : String} {v : β} (h : t.find? k = some v) :
    k ∈ t.keys := by
  by_contra hk
  have hne : ∀ e ∈ t.entries, (k != e.1) = true := by
    intro e he
    have : k ≠ e.1 := fun hke => hk (hke ▸ List.mem_map_of_mem he)
    simpa using this
  have hnone : t.find? k = none := List.lookup_eq_none_iff.2 hne
  rw [hnone] at h
  cases h

/-! ## Sums -/

/-- The number under a name, or zero. -/
def amount (t : Table Int) (k : String) : Int := (t.find? k).getD 0

@[simp] theorem amount_insert (t : Table Int) (k j : String) (v : Int) :
    (t.insert k v).amount j = if j = k then v else t.amount j := by
  rw [amount, find?_insert]
  split
  · rfl
  · rfl

@[simp] theorem amount_erase (t : Table Int) (k j : String) :
    (t.erase k).amount j = if j = k then 0 else t.amount j := by
  rw [amount, find?_erase]
  split
  · rfl
  · rfl

theorem amount_eq_zero {t : Table Int} {k : String} (h : k ∉ t.keys) : t.amount k = 0 := by
  cases hk : t.find? k with
  | none =>
      rw [amount, hk]
      rfl
  | some v => exact absurd (mem_keys_of_find? hk) h

/-- Entries in increasing order, summed up: every name finds the number it stands with. -/
theorem sum_entries {es : List (String × Int)} (h : es.Pairwise fun a b => a.1 < b.1) :
    (es.map Prod.snd).foldr (· + ·) 0 = ∑ k ∈ (es.map Prod.fst).toFinset, (es.lookup k).getD 0 := by
  induction es with
  | nil => rfl
  | cons e es ih =>
      have he := List.pairwise_cons.1 h
      -- the first name is below all others, so it is not one of them
      have hnot : e.1 ∉ (es.map Prod.fst).toFinset := by
        intro hmem
        obtain ⟨d, hd, hde⟩ := List.mem_map.1 (List.mem_toFinset.1 hmem)
        exact String.lt_irrefl e.1 (by simpa [hde] using he.1 d hd)
      rw [List.map_cons, List.foldr_cons, List.map_cons, List.toFinset_cons,
        Finset.sum_insert hnot, ih he.2]
      congr 1
      · rw [show (e :: es).lookup e.1 = some e.2 from lookup_cons_self es e.1 e.2]
        rfl
      · refine Finset.sum_congr rfl fun k hk => ?_
        have hne : k ≠ e.1 := fun hke => hnot (hke ▸ hk)
        rw [show (e :: es).lookup k = es.lookup k from lookup_cons_ne es e.2 hne]

/-- The values of a table, summed up over any names that include its own. -/
theorem total_eq_sum (t : Table Int) {names : Finset String} (h : ∀ k ∈ t.keys, k ∈ names) :
    t.total = ∑ k ∈ names, t.amount k := by
  have hsub : t.keys.toFinset ⊆ names := fun k hk => h k (List.mem_toFinset.1 hk)
  calc t.total = ∑ k ∈ t.keys.toFinset, t.amount k := sum_entries t.increasing
    _ = ∑ k ∈ names, t.amount k :=
      Finset.sum_subset hsub fun k _ hk =>
        amount_eq_zero fun hmem => hk (List.mem_toFinset.2 hmem)

/-- A table that differs under one name differs in its sum by what it differs there. -/
theorem total_eq_add {t t' : Table Int} {k : String} {v : Int}
    (h : ∀ j, t'.amount j = if j = k then v else t.amount j) :
    t'.total = t.total + (v - t.amount k) := by
  let names := {k} ∪ (t.keys.toFinset ∪ t'.keys.toFinset)
  have hk : k ∈ names := Finset.mem_union_left _ (Finset.mem_singleton_self k)
  have hkeys : ∀ j ∈ t.keys, j ∈ names := fun j hj =>
    Finset.mem_union_right _ (Finset.mem_union_left _ (List.mem_toFinset.2 hj))
  have hkeys' : ∀ j ∈ t'.keys, j ∈ names := fun j hj =>
    Finset.mem_union_right _ (Finset.mem_union_right _ (List.mem_toFinset.2 hj))
  have hrest : ∑ j ∈ names.erase k, t'.amount j = ∑ j ∈ names.erase k, t.amount j :=
    Finset.sum_congr rfl fun j hj => (h j).trans (if_neg (Finset.ne_of_mem_erase hj))
  rw [total_eq_sum t hkeys, total_eq_sum t' hkeys', ← Finset.add_sum_erase names _ hk,
    ← Finset.add_sum_erase names _ hk, hrest, h k, if_pos rfl]
  omega

/-! ## Shares -/

/-- The second table is the share of a name in the first. -/
def Share (k : String) (t t' : Table β) : Prop :=
  ∀ j, t'.find? j = if j = k then t.find? j else none

namespace Share

variable {k : String} {t t' : Table β}

theorem empty (k : String) : Share k (Table.empty : Table β) Table.empty := by
  intro j
  split
  · rfl
  · rfl

theorem find?_self (h : Share k t t') : t'.find? k = t.find? k := by
  rw [h k, if_pos rfl]

theorem has_self (h : Share k t t') : t'.has k = t.has k := by
  rw [has, h.find?_self, has]

theorem insert_self (h : Share k t t') (v : β) : Share k (t.insert k v) (t'.insert k v) := by
  intro j
  rw [find?_insert, find?_insert, h j]
  by_cases hj : j = k
  · simp [hj]
  · simp [hj]

theorem erase_self (h : Share k t t') : Share k (t.erase k) (t'.erase k) := by
  intro j
  rw [find?_erase, find?_erase, h j]
  by_cases hj : j = k
  · simp [hj]
  · simp [hj]

theorem insert_other (h : Share k t t') {i : String} (hi : i ≠ k) (v : β) :
    Share k (t.insert i v) t' := by
  intro j
  rw [h j, find?_insert]
  by_cases hj : j = k
  · subst hj
    simp [hi.symm]
  · simp [hj]

theorem erase_other (h : Share k t t') {i : String} (hi : i ≠ k) : Share k (t.erase i) t' := by
  intro j
  rw [h j, find?_erase]
  by_cases hj : j = k
  · subst hj
    simp [hi.symm]
  · simp [hj]

/-- The share of a name in a table without negative numbers does not sum up to more. -/
theorem total_le {t t' : Table Int} (h : Share k t t') (hnonneg : ∀ j, 0 ≤ t.amount j) :
    t'.total ≤ t.total := by
  let names := t.keys.toFinset ∪ t'.keys.toFinset
  have hmem : ∀ j ∈ t.keys, j ∈ names := fun j hj =>
    Finset.mem_union_left _ (List.mem_toFinset.2 hj)
  have hmem' : ∀ j ∈ t'.keys, j ∈ names := fun j hj =>
    Finset.mem_union_right _ (List.mem_toFinset.2 hj)
  have hle : ∀ j, t'.amount j ≤ t.amount j := by
    intro j
    rw [amount, h j]
    split
    · exact le_refl _
    · exact hnonneg j
  calc t'.total = ∑ j ∈ names, t'.amount j := total_eq_sum t' hmem'
    _ ≤ ∑ j ∈ names, t.amount j := Finset.sum_le_sum fun j _ => hle j
    _ = t.total := (total_eq_sum t hmem).symm

end Share

end IngressTls.Table
