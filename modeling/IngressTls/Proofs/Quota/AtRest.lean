import IngressTls.Proofs.Quota.Admission
import IngressTls.Proofs.Quota.Share
import IngressTls.Proofs.Snapshot
import Mathlib.Algebra.Order.Ring.Int

set_option autoImplicit false

/-! # The quota at rest

Between two operations nothing is pending, and no amount of zero is kept. Such quotas are equal if
their ceilings are and every resource has acquired the same in both. No amount in them is negative,
so what is used can be computed in 64 bits as soon as the whole sum fits there.

Main statements: `AtRest.ext`, `commit_reserved` and `AtRest.inUseFits`.
-/

namespace IngressTls.Quota

/-- An enabled quota between two operations. -/
structure AtRest (q : Quota) : Prop where
  /-- The quota is enabled. -/
  enabled : 0 < q.max
  /-- The claims stay below the ceiling. -/
  sound : q.Sound
  /-- Nothing is pending. -/
  pending : q.pending = .empty
  /-- A resource without hosts has no entry. -/
  nonzero : ∀ k, q.acquired.find? k ≠ some 0

/-- The quota in which a resource has acquired an amount. -/
def hold (q : Quota) (resource : String) (amount : Int) : Quota :=
  { q with
    acquired :=
      if amount = 0 then q.acquired.erase resource else q.acquired.insert resource amount }

variable {q q' : Quota}

theorem acquired_amount_hold (q : Quota) (k : String) (n : Int) (r : String) :
    (q.hold k n).acquired.amount r = if r = k then n else q.acquired.amount r := by
  rw [hold]
  split
  · next hzero => rw [Table.amount_erase, hzero]
  · rw [Table.amount_insert]

theorem acquiredBy_hold (q : Quota) (k : String) (n : Int) (r : String) :
    (q.hold k n).acquiredBy r = if r = k then n else q.acquiredBy r :=
  acquired_amount_hold q k n r

theorem used_hold (q : Quota) (k : String) (n : Int) :
    (q.hold k n).used = q.used + (n - q.acquiredBy k) :=
  Table.total_eq_add (acquired_amount_hold q k n)

/-- Reserving an amount and committing it at once. -/
theorem commit_reserved (hpending : q.pending = .empty) (k : String) (n : Int) :
    Quota.commit { q with pending := q.pending.insert k n } k = q.hold k n := by
  have hopen : (q.pending.insert k n).find? k = some n := by
    rw [Table.find?_insert, if_pos rfl]
  have hclosed : (q.pending.insert k n).erase k = q.pending := by
    refine Table.ext_find? fun j => ?_
    rw [Table.find?_erase, Table.find?_insert, hpending]
    split
    · rfl
    · rfl
  simp only [commit, hopen, hclosed, hold]

/-- A reservation that succeeds has found room. -/
theorem room_of_reserve {k : String} {n : Int} (h : q.reserve k n = .ok q') :
    n = 0 ∨ q.inUse + (n - q.acquiredBy k) ≤ q.max := by
  rw [reserve] at h
  split at h
  · cases h
  · exact (register_eq_ok h).2.1

namespace AtRest

theorem new {max : Int} (h : 0 < max) : (Quota.new max).AtRest where
  enabled := h
  sound := .new h
  pending := rfl
  nonzero _ hk := nomatch hk

theorem inUse_eq (h : q.AtRest) : q.inUse = q.used := by
  rw [inUse, h.pending]
  exact add_zero _

theorem used_le (h : q.AtRest) : q.used ≤ q.max := (used_le_exposure q).trans h.sound.exposure_le

theorem acquiredBy_nonneg (h : q.AtRest) (k : String) : 0 ≤ q.acquiredBy k :=
  h.sound.acquired_nonneg k

/-- What one resource has acquired is part of what is used. -/
theorem acquiredBy_le_used (h : q.AtRest) (k : String) : q.acquiredBy k ≤ q.used := by
  have hopen : q.pending.has k = false := by
    rw [h.pending]
    rfl
  have hbeside : 0 ≤ q.inUseBeside k := Finset.sum_nonneg fun r _ =>
    add_nonneg (h.sound.acquired_nonneg r) (h.sound.pending_nonneg r)
  rw [← h.inUse_eq, inUse_eq_beside hopen]
  omega

/-- Quotas at rest are known by their ceilings and by what the resources have acquired. -/
theorem ext (h : q.AtRest) (h' : q'.AtRest) (hmax : q'.max = q.max)
    (hacquired : ∀ k, q'.acquiredBy k = q.acquiredBy k) : q' = q := by
  have hfind : ∀ k, q'.acquired.find? k = q.acquired.find? k := by
    intro k
    have hk := hacquired k
    have hnonzero := h.nonzero k
    have hnonzero' := h'.nonzero k
    rw [acquiredBy, acquiredBy] at hk
    cases hfind : q.acquired.find? k with
    | none =>
        cases hfind' : q'.acquired.find? k with
        | none => rfl
        | some n =>
            rw [hfind, hfind'] at hk
            exact absurd (hfind'.trans (congrArg some hk)) hnonzero'
    | some n =>
        cases hfind' : q'.acquired.find? k with
        | none =>
            rw [hfind, hfind'] at hk
            exact absurd (hfind.trans (congrArg some hk.symm)) hnonzero
        | some n' =>
            rw [hfind, hfind'] at hk
            exact congrArg some hk
  obtain ⟨max, acquired, pending⟩ := q
  obtain ⟨max', acquired', pending'⟩ := q'
  obtain rfl : max' = max := hmax
  obtain rfl : acquired' = acquired := Table.ext_find? hfind
  obtain rfl : pending' = pending := h'.pending.trans h.pending.symm
  rfl

end AtRest

/-! ## In 64 bits -/

theorem fits_iff {n : Int} :
    fits n = true ↔ -9223372036854775808 ≤ n ∧ n ≤ 9223372036854775807 := by
  rw [fits, Text.IntRange.has, Bool.and_eq_true, decide_eq_true_iff, decide_eq_true_iff]
  exact Iff.rfl

/-- A sum without negative terms can be computed if it fits as a whole. -/
theorem sumFits_of_le {ns : List Int} {soFar : Int} (hns : ∀ n ∈ ns, 0 ≤ n) (hsoFar : 0 ≤ soFar)
    (hle : soFar + ns.sum ≤ 9223372036854775807) : sumFits soFar ns = true := by
  induction ns generalizing soFar with
  | nil => rfl
  | cons n ns ih =>
      have hn := hns n List.mem_cons_self
      have hns' : ∀ m ∈ ns, 0 ≤ m := fun m hm => hns m (List.mem_cons_of_mem n hm)
      have hrest := List.sum_nonneg hns'
      rw [List.sum_cons] at hle
      rw [sumFits, Bool.and_eq_true, fits_iff]
      exact ⟨⟨by omega, by omega⟩, ih hns' (by omega) (by omega)⟩

/-- No amount of a table is negative if none is that stands under a name. -/
theorem nonneg_of_mem_values {t : Table Int} (h : ∀ k, 0 ≤ t.amount k) {n : Int}
    (hn : n ∈ t.values) : 0 ≤ n := by
  obtain ⟨⟨k, v⟩, hmem, rfl⟩ := List.mem_map.1 hn
  have hnodup : (t.entries.map Prod.fst).Nodup :=
    List.pairwise_map.2 (t.increasing.imp fun hlt heq => String.ne_of_lt hlt heq)
  have hfind : t.find? k = some v := Snapshot.lookup_of_mem hnodup hmem
  have hnonneg := h k
  rwa [Table.amount, hfind] at hnonneg

/-- The amounts of a table can be added up in any order if none is negative and all together fit. -/
theorem totalFits {t : Table Int} {ns : List Int} (hperm : ns.Perm t.values)
    (hnonneg : ∀ k, 0 ≤ t.amount k) (hle : t.total ≤ 9223372036854775807) :
    sumFits 0 ns = true := by
  refine sumFits_of_le (fun n hn => nonneg_of_mem_values hnonneg (hperm.mem_iff.1 hn)) (le_refl _) ?_
  rw [zero_add, hperm.sum_eq]
  exact hle

namespace AtRest

theorem usedFits (h : q.AtRest) (hle : q.used ≤ 9223372036854775807) : q.usedFits = true :=
  totalFits (.refl _) h.sound.acquired_nonneg hle

theorem inUseFits (h : q.AtRest) (hle : q.used ≤ 9223372036854775807) : q.inUseFits = true := by
  have hused := h.acquiredBy_nonneg ""
  have hpart := h.acquiredBy_le_used ""
  rw [Quota.inUseFits, h.usedFits hle, h.pending, h.inUse_eq, fits_iff.2 ⟨by omega, hle⟩]
  rfl

end AtRest

end IngressTls.Quota
