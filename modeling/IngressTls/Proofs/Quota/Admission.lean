import IngressTls.Proofs.Quota.Ceiling

set_option autoImplicit false

/-! # Renewals and the ceiling

A renewal asks for no more than its resource holds. The amount replaces what the resource
holds, so it needs no room of its own. The test counts the other resources with everything
they have acquired and everything they have pending, though: while another renewal is open,
its resource counts twice. So a renewal is admitted exactly when it fits beside both amounts of all the
others, and it can be refused although the claims leave room for it.

Main statements: `renewal_admitted_iff`, and `renewals_can_be_refused` with the smallest
order of calls that leads there.
-/

namespace IngressTls

namespace Quota

/-- What the test counts for all resources but one. -/
def inUseBeside (q : Quota) (resource : String) : Int :=
  ∑ r ∈ q.resources.erase resource, (q.acquired.amount r + q.pending.amount r)

theorem inUse_eq_beside {q : Quota} {resource : String}
    (h : q.pending.has resource = false) :
    q.inUse = q.acquiredBy resource + q.inUseBeside resource := by
  have hzero := pending_amount_eq_zero h
  rw [acquiredBy_eq]
  by_cases hmem : resource ∈ q.resources
  · have hsum := Finset.add_sum_erase q.resources
      (fun r => q.acquired.amount r + q.pending.amount r) hmem
    rw [inUse_eq_sum (Finset.Subset.refl _), ← hsum, inUseBeside]
    omega
  · -- a resource without entries has nothing that could be taken off
    have hacquired : q.acquired.amount resource = 0 :=
      Table.amount_eq_zero fun hkey => hmem (mem_resources_of_acquired hkey)
    rw [inUse_eq_sum (Finset.Subset.refl _), inUseBeside, Finset.erase_eq_of_notMem hmem,
      hacquired, zero_add]

/-- The test of a resource without an open transaction: what it holds is taken off, and so
only the amount itself and the other resources count. -/
theorem check_eq {q : Quota} {resource : String} (amount : Int)
    (h : q.pending.has resource = false) :
    q.check resource amount =
      if q.inUseBeside resource + amount ≤ q.max then .ok ()
      else .error (.exceeded resource amount q.inUse q.max) := by
  have hinUse := inUse_eq_beside h
  rw [check, if_neg (by simp [h])]
  by_cases hfits : q.inUseBeside resource + amount ≤ q.max
  · rw [if_pos hfits, if_neg (by omega)]
  · rw [if_neg hfits, if_pos (by omega)]

/-- No resource has acquired more than the ceiling. -/
theorem Sound.acquired_le {q : Quota} (h : q.Sound) (resource : String) :
    q.acquired.amount resource ≤ q.max := by
  let names := insert resource q.resources
  have hclaims : ∀ r ∈ names, 0 ≤ q.claimOf r := fun r _ =>
    le_trans (h.acquired_nonneg r) (le_max_left _ _)
  calc q.acquired.amount resource ≤ q.claimOf resource := le_max_left _ _
    _ ≤ ∑ r ∈ names, q.claimOf r :=
        Finset.single_le_sum hclaims (Finset.mem_insert_self _ _)
    _ = q.exposure := (exposure_eq_sum (Finset.subset_insert _ _)).symm
    _ ≤ q.max := h.exposure_le

/-- Whether an amount is admitted beside everything that the other resources have acquired
and pending. An amount of zero always is. -/
def Fits (q : Quota) (resource : String) (amount : Int) : Prop :=
  amount = 0 ∨ q.inUseBeside resource + amount ≤ q.max

/-- The first test of a renewal. -/
theorem precheck_renewal {q : Quota} (hs : q.Sound) (henabled : 0 < q.max) {resource : String}
    {amount : Int} (hopen : q.pending.has resource = false)
    (hle : amount ≤ q.acquiredBy resource) :
    (q.Fits resource amount → q.precheck resource amount = .ok ()) ∧
    (¬ q.Fits resource amount →
      q.precheck resource amount = .error (.exceeded resource amount q.inUse q.max)) := by
  -- the resource has acquired as much, and that is below the ceiling
  have hmax : ¬ amount > q.max := by
    have := hs.acquired_le resource
    rw [acquiredBy_eq] at hle
    omega
  have hon : (!q.enabled) = false := by simp [enabled, henabled]
  rw [precheck, hon, check_eq amount hopen, if_neg (by decide), if_neg hmax]
  constructor
  · rintro (hzero | hfits)
    · rw [if_pos hzero]
    · rw [if_pos hfits, ite_self]
  · intro hnot
    rw [Fits, not_or] at hnot
    rw [if_neg hnot.1, if_neg hnot.2]

/-- The second test of a renewal. -/
theorem register_renewal {q : Quota} {resource : String} {amount : Int}
    (hopen : q.pending.has resource = false) :
    (q.Fits resource amount →
      q.register resource amount =
        .ok { q with pending := q.pending.insert resource amount }) ∧
    (¬ q.Fits resource amount →
      q.register resource amount = .error (.exceeded resource amount q.inUse q.max)) := by
  rw [register, check_eq amount hopen]
  constructor
  · rintro (hzero | hfits)
    · rw [if_pos hzero, if_neg (by simp [hopen])]
    · rw [if_pos hfits]
      split
      · rw [if_neg (by simp [hopen])]
      · rfl
  · intro hnot
    rw [Fits, not_or] at hnot
    rw [if_neg hnot.1, if_neg hnot.2]
    rfl

/-- Both tests of a renewal. -/
theorem reserve_renewal {q : Quota} (hs : q.Sound) (henabled : 0 < q.max) {resource : String}
    {amount : Int} (hopen : q.pending.has resource = false)
    (hle : amount ≤ q.acquiredBy resource) :
    (q.Fits resource amount →
      q.reserve resource amount =
        .ok { q with pending := q.pending.insert resource amount }) ∧
    (¬ q.Fits resource amount →
      q.reserve resource amount = .error (.exceeded resource amount q.inUse q.max)) := by
  obtain ⟨hpass, hrefuse⟩ := precheck_renewal hs henabled hopen hle
  constructor
  · intro hfits
    rw [reserve, hpass hfits]
    exact (register_renewal hopen).1 hfits
  · intro hnot
    rw [reserve, hrefuse hnot]

/-- Beside resources without open transactions every renewal fits. -/
theorem Sound.fits_of_nothing_pending {q : Quota} (hs : q.Sound) {resource : String}
    {amount : Int} (hnone : q.pending = .empty) (hle : amount ≤ q.acquiredBy resource) :
    q.Fits resource amount := by
  -- what is in use is then what is acquired, and that is below the ceiling
  right
  have hopen : q.pending.has resource = false := by
    rw [hnone]
    rfl
  have hused : q.inUse = q.used := by
    rw [inUse, hnone]
    exact add_zero _
  have hbeside := inUse_eq_beside hopen
  have hle' := le_trans (used_le_exposure q) hs.exposure_le
  omega

end Quota

namespace QuotaInUse

/-! ## The statements -/

/-- Whatever the order of the sections of all callers: a renewal, made by a resource without an
open transaction, is admitted exactly if it fits beside everything that the other resources
have acquired and pending, by each of its two tests and by both together. Else it is refused
as exceeding. While nothing is pending it is always admitted. -/
theorem renewal_admitted_iff {max : Int} (hmax : 0 < max) (ss : List QuotaSection)
    {resource : String} {amount : Nat}
    (hopen : ((start max).run ss).quota.pending.has resource = false)
    (hle : amount ≤ ((start max).run ss).quota.acquiredBy resource) :
    let q := ((start max).run ss).quota
    let fits := amount = 0 ∨ q.inUseBeside resource + amount ≤ max
    let refusal := QuotaRefusal.exceeded resource amount q.inUse max
    (q.precheck resource amount = .ok () ↔ fits) ∧
    ((∃ q', q.register resource amount = .ok q') ↔ fits) ∧
    ((∃ q', q.reserve resource amount = .ok q') ↔ fits) ∧
    (¬ fits → q.precheck resource amount = .error refusal ∧
      q.register resource amount = .error refusal ∧ q.reserve resource amount = .error refusal) ∧
    (q.pending = .empty → fits) := by
  intro q fits refusal
  have hs : q.Sound := sound_of_enabled hmax ss
  have hqmax : q.max = max := max_run (start max) ss
  have hfits : q.Fits resource amount ↔ fits := by
    rw [Quota.Fits, hqmax]
    exact or_congr_left Int.natCast_eq_zero
  have henabled : 0 < q.max := hqmax ▸ hmax
  obtain ⟨hpre, hpre'⟩ := Quota.precheck_renewal hs henabled hopen hle
  obtain ⟨hreg, hreg'⟩ : (q.Fits resource amount → _) ∧ (¬ q.Fits resource amount → _) :=
    Quota.register_renewal hopen
  obtain ⟨hres, hres'⟩ := Quota.reserve_renewal hs henabled hopen hle
  rw [hfits] at hpre hpre' hreg hreg' hres hres'
  rw [hqmax] at hpre' hreg' hres'
  refine ⟨⟨fun hok => ?_, hpre⟩, ⟨fun ⟨q', hok⟩ => ?_, fun h => ⟨_, hreg h⟩⟩,
    ⟨fun ⟨q', hok⟩ => ?_, fun h => ⟨_, hres h⟩⟩, fun h => ⟨hpre' h, hreg' h, hres' h⟩,
    fun hnone => hfits.1 (hs.fits_of_nothing_pending hnone hle)⟩
  · by_contra hnot
    rw [hpre' hnot] at hok
    cases hok
  · by_contra hnot
    rw [hreg' hnot] at hok
    cases hok
  · by_contra hnot
    rw [hres' hnot] at hok
    cases hok

/-- The sections of calls that are made one after the other: `a` gets two of three and `b` one, then
`a` is renewed and its renewal stays open. -/
def renewalBeside : List QuotaSection :=
  [.inspect "a" 2, .register 0, .commit 0, .inspect "b" 1, .register 0, .commit 1,
    .inspect "a" 2, .register 0]

/-- Beside the open renewal of `a` the renewal of `b` is refused: `a` counts with four. -/
theorem renewal_admitted_iff_beside :
    ((start 3).run renewalBeside).quota.precheck "b" 1 = .error (.exceeded "b" 1 5 3) ∧
    ((start 3).run renewalBeside).quota.register "b" 1 = .error (.exceeded "b" 1 5 3) ∧
    ((start 3).run renewalBeside).quota.reserve "b" 1 = .error (.exceeded "b" 1 5 3) :=
  (renewal_admitted_iff (by decide) renewalBeside (by decide) (by decide)).2.2.2.1 (by decide)

/-- It is not true that a renewal is admitted whatever is open for other resources. -/
theorem renewals_can_be_refused :
    ¬ ∀ (max : Int) (ss : List QuotaSection) (resource : String) (amount : Nat),
      0 < max → ((start max).run ss).quota.pending.has resource = false →
      amount ≤ ((start max).run ss).quota.acquiredBy resource →
      ∃ q', ((start max).run ss).quota.reserve resource amount = .ok q' := by
  intro hall
  obtain ⟨q', hq'⟩ := hall 3 renewalBeside "b" 1 (by decide) (by decide) (by decide)
  have hrefused : ((start 3).run renewalBeside).quota.reserve "b" 1 =
      .error (.exceeded "b" 1 5 3) := rfl
  cases hrefused.symm.trans hq'

end QuotaInUse

end IngressTls
