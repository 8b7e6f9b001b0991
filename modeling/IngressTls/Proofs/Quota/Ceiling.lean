import IngressTls.Proofs.Quota.InUse
import IngressTls.Proofs.Table
import Mathlib.Algebra.Order.BigOperators.Group.Finset

set_option autoImplicit false

/-! # The ceiling of the quota

The admission test adds up everything that is acquired or pending and takes off what the
resource itself has acquired. That sum is no invariant: a commit replaces one amount by
another, and a transaction may ask for less than its resource holds. What stays below the
ceiling is the sum of the larger of the two amounts of every resource, its *claim*: whatever
transactions are committed or rolled back later, no resource will hold more than that
without another test.

Main statement: `exposure_le_max`.
-/

namespace IngressTls

namespace Quota

/-! ## Claims -/

/-- The most that a resource can hold without another test. -/
def claimOf (q : Quota) (resource : String) : Int :=
  Max.max (q.acquired.amount resource) (q.pending.amount resource)

/-- The resources that have an amount acquired or pending. -/
def resources (q : Quota) : Finset String := q.acquired.keys.toFinset ∪ q.pending.keys.toFinset

/-- The claims of all resources together. -/
def exposure (q : Quota) : Int := ∑ resource ∈ q.resources, q.claimOf resource

theorem mem_resources_of_acquired {q : Quota} {r : String} (h : r ∈ q.acquired.keys) :
    r ∈ q.resources :=
  Finset.mem_union_left _ (List.mem_toFinset.2 h)

theorem mem_resources_of_pending {q : Quota} {r : String} (h : r ∈ q.pending.keys) :
    r ∈ q.resources :=
  Finset.mem_union_right _ (List.mem_toFinset.2 h)

theorem claimOf_eq_zero {q : Quota} {r : String} (h : r ∉ q.resources) : q.claimOf r = 0 := by
  have ha : q.acquired.amount r = 0 :=
    Table.amount_eq_zero fun hmem => h (mem_resources_of_acquired hmem)
  have hp : q.pending.amount r = 0 :=
    Table.amount_eq_zero fun hmem => h (mem_resources_of_pending hmem)
  rw [claimOf, ha, hp, max_self]

/-- The claims may be added up over any names that include all resources. -/
theorem exposure_eq_sum {q : Quota} {names : Finset String} (h : q.resources ⊆ names) :
    q.exposure = ∑ r ∈ names, q.claimOf r :=
  Finset.sum_subset h fun _ _ hr => claimOf_eq_zero hr

/-- And so may what is in use. -/
theorem inUse_eq_sum {q : Quota} {names : Finset String} (h : q.resources ⊆ names) :
    q.inUse = ∑ r ∈ names, (q.acquired.amount r + q.pending.amount r) := by
  rw [inUse, Table.total_eq_sum q.acquired fun k hk => h (mem_resources_of_acquired hk),
    Table.total_eq_sum q.pending fun k hk => h (mem_resources_of_pending hk),
    Finset.sum_add_distrib]

theorem acquiredBy_eq (q : Quota) (r : String) : q.acquiredBy r = q.acquired.amount r := rfl

theorem pending_amount_eq_zero {q : Quota} {r : String} (h : q.pending.has r = false) :
    q.pending.amount r = 0 := by
  rw [Table.amount, Table.has_eq_false_iff.1 h]
  rfl

/-- Claims that do not grow leave no larger exposure. -/
theorem exposure_mono {q q' : Quota} (h : ∀ r, q'.claimOf r ≤ q.claimOf r) :
    q'.exposure ≤ q.exposure := by
  calc q'.exposure = ∑ r ∈ q.resources ∪ q'.resources, q'.claimOf r :=
        exposure_eq_sum Finset.subset_union_right
    _ ≤ ∑ r ∈ q.resources ∪ q'.resources, q.claimOf r := Finset.sum_le_sum fun r _ => h r
    _ = q.exposure := (exposure_eq_sum Finset.subset_union_left).symm

/-! ## The invariant

No amount is negative, and the claims stay below the ceiling. -/

/-- What every section preserves while the quota is enabled. -/
structure Sound (q : Quota) : Prop where
  /-- Nothing acquired is negative. -/
  acquired_nonneg : ∀ r, 0 ≤ q.acquired.amount r
  /-- Nothing pending is negative. -/
  pending_nonneg : ∀ r, 0 ≤ q.pending.amount r
  /-- The claims stay below the ceiling. -/
  exposure_le : q.exposure ≤ q.max

theorem Sound.new {max : Int} (h : 0 < max) : (Quota.new max).Sound where
  acquired_nonneg := fun _ => le_refl _
  pending_nonneg := fun _ => le_refl _
  exposure_le := by
    show (0 : Int) ≤ max
    omega

/-- What has been acquired never exceeds the claims. -/
theorem used_le_exposure (q : Quota) : q.used ≤ q.exposure := by
  calc q.used = ∑ r ∈ q.resources, q.acquired.amount r :=
        Table.total_eq_sum q.acquired fun _ hk => mem_resources_of_acquired hk
    _ ≤ q.exposure := Finset.sum_le_sum fun r _ => le_max_left _ _

theorem Sound.rollback {q : Quota} (h : q.Sound) (resource : String) :
    (q.rollback resource).Sound := by
  have hpending : ∀ r, 0 ≤ (q.rollback resource).pending.amount r ∧
      (q.rollback resource).pending.amount r ≤ q.pending.amount r := by
    intro r
    have hr := h.pending_nonneg r
    simp only [Quota.rollback, Table.amount_erase]
    split
    · omega
    · omega
  refine ⟨h.acquired_nonneg, fun r => (hpending r).1, le_trans (exposure_mono fun r => ?_)
    h.exposure_le⟩
  exact max_le_max (le_refl _) (hpending r).2

theorem amount_of_find? {t : Table Int} {k : String} {v : Int} (h : t.find? k = some v) :
    t.amount k = v := by
  rw [Table.amount, h]
  rfl

theorem acquired_amount_commit {q : Quota} {resource : String} {amount : Int}
    (h : q.pending.find? resource = some amount) (r : String) :
    (q.commit resource).acquired.amount r =
      if r = resource then amount else q.acquired.amount r := by
  rw [Table.amount, find?_commit h]
  split
  · split
    · next hzero => rw [hzero, Option.getD_none]
    · rw [Option.getD_some]
  · rfl

theorem pending_amount_commit (q : Quota) (resource r : String) :
    (q.commit resource).pending.amount r = if r = resource then 0 else q.pending.amount r := by
  rw [Table.amount, pending_find?_commit]
  split
  · rfl
  · rfl

theorem Sound.commit {q : Quota} (h : q.Sound) (resource : String) :
    (q.commit resource).Sound := by
  cases hfind : q.pending.find? resource with
  | none =>
      rw [commit_of_none hfind]
      exact h
  | some amount =>
      -- what is pending takes the place of what is acquired
      have ha := acquired_amount_commit hfind
      have hp := pending_amount_commit q resource
      have hamount : q.pending.amount resource = amount := amount_of_find? hfind
      have hnonneg := h.pending_nonneg resource
      refine ⟨fun r => ?_, fun r => ?_, ?_⟩
      · rw [ha]
        split
        · omega
        · exact h.acquired_nonneg r
      · rw [hp]
        split
        · exact le_refl _
        · exact h.pending_nonneg r
      · -- the claim was the larger of the two amounts and is now one of them
        rw [max_commit]
        refine le_trans (exposure_mono fun r => ?_) h.exposure_le
        rw [claimOf, claimOf, ha, hp]
        split
        · next hr =>
            subst hr
            omega
        · exact le_refl _

/-- A registered amount that is larger than what its resource holds was tested against
everything in use, and that counts the others at least with their claims. -/
theorem exposure_register_of_lt {q : Quota} (h : q.Sound) {resource : String} {amount : Int}
    (hpending : q.pending.has resource = false)
    (hfits : q.inUse + (amount - q.acquiredBy resource) ≤ q.max)
    (hgrows : q.acquired.amount resource < amount) :
    exposure { q with pending := q.pending.insert resource amount } ≤ q.max := by
  let q' : Quota := { q with pending := q.pending.insert resource amount }
  let names := insert resource (q.resources ∪ q'.resources)
  have hsub : q.resources ⊆ names := fun r hr =>
    Finset.mem_insert_of_mem (Finset.mem_union_left _ hr)
  have hsub' : q'.resources ⊆ names := fun r hr =>
    Finset.mem_insert_of_mem (Finset.mem_union_right _ hr)
  have hmem : resource ∈ names := Finset.mem_insert_self _ _
  have hzero := pending_amount_eq_zero hpending
  -- the resource now claims the amount, and the others no more than they have in use
  have hself : q'.claimOf resource = amount := by
    simp only [claimOf, q', Table.amount_insert, if_pos]
    omega
  have hothers : ∀ r ∈ names.erase resource,
      q'.claimOf r ≤ q.acquired.amount r + q.pending.amount r := by
    intro r hr
    have hne := (Finset.mem_erase.1 hr).1
    have h1 := h.acquired_nonneg r
    have h2 := h.pending_nonneg r
    simp only [claimOf, q', Table.amount_insert, if_neg hne]
    omega
  have hinUse : q.inUse = (q.acquired.amount resource + q.pending.amount resource) +
      ∑ r ∈ names.erase resource, (q.acquired.amount r + q.pending.amount r) := by
    rw [inUse_eq_sum hsub]
    exact (Finset.add_sum_erase names _ hmem).symm
  calc exposure q' = q'.claimOf resource + ∑ r ∈ names.erase resource, q'.claimOf r := by
        rw [exposure_eq_sum hsub', Finset.add_sum_erase names _ hmem]
    _ ≤ amount + ∑ r ∈ names.erase resource, (q.acquired.amount r + q.pending.amount r) := by
        rw [hself]
        exact add_le_add (le_refl _) (Finset.sum_le_sum hothers)
    _ ≤ q.max := by
        rw [acquiredBy_eq] at hfits
        omega

theorem Sound.register {q q' : Quota} (h : q.Sound) {resource : String} {amount : Nat}
    (hok : q.register resource amount = .ok q') : q'.Sound := by
  obtain ⟨hpending, htest, rfl⟩ := register_eq_ok hok
  refine ⟨h.acquired_nonneg, fun r => ?_, ?_⟩
  · simp only [Table.amount_insert]
    split
    · omega
    · exact h.pending_nonneg r
  · by_cases hgrows : q.acquired.amount resource < amount
    · have hfits : q.inUse + (amount - q.acquiredBy resource) ≤ q.max := by
        rcases htest with hzero | hfits
        · -- an amount of zero is no more than anything that was acquired
          have := h.acquired_nonneg resource
          omega
        · exact hfits
      exact exposure_register_of_lt h hpending hfits hgrows
    · -- the resource holds as much already: no claim grows
      refine le_trans (exposure_mono fun r => ?_) h.exposure_le
      have hzero := pending_amount_eq_zero hpending
      simp only [claimOf, Table.amount_insert]
      split
      · next hr =>
          subst hr
          omega
      · exact le_refl _

end Quota

namespace QuotaInUse

/-! ## Runs -/

theorem Effect.sound {u : QuotaInUse} {q : Quota} (he : Effect u q) (h : u.quota.Sound) :
    q.Sound := by
  cases he with
  | none => exact h
  | registered _ ok => exact h.register ok
  | committed resource => exact h.commit resource
  | rolledBack resource => exact h.rollback resource

theorem sound_run {u : QuotaInUse} (h : u.quota.Sound) (ss : List QuotaSection) :
    (u.run ss).quota.Sound := by
  induction ss generalizing u with
  | nil => exact h
  | cons s ss ih => exact ih ((effect_step u s).sound h)

theorem sound_of_enabled {max : Int} (h : 0 < max) (ss : List QuotaSection) :
    ((start max).run ss).quota.Sound :=
  sound_run (u := start max) (Quota.Sound.new h) ss

/-- What a disabled quota keeps: nothing is acquired, nothing is pending, and no call has
passed its first test. -/
structure Idle (u : QuotaInUse) : Prop where
  /-- The quota is disabled. -/
  disabled : u.quota.max ≤ 0
  /-- Nothing is acquired. -/
  acquired : u.quota.acquired = .empty
  /-- Nothing is pending. -/
  pending : u.quota.pending = .empty
  /-- No call has passed. -/
  admitted : u.admitted = []

theorem Idle.effect {u : QuotaInUse} {q : Quota} (h : u.Idle) (he : Effect u q) :
    q.acquired = .empty ∧ q.pending = .empty := by
  cases he with
  | none => exact ⟨h.acquired, h.pending⟩
  | registered passed _ =>
      -- only a call that has passed registers, and none has
      rw [h.admitted] at passed
      cases passed
  | committed resource =>
      have hnone : u.quota.pending.find? resource = none := by
        rw [h.pending]
        rfl
      rw [Quota.commit_of_none hnone]
      exact ⟨h.acquired, h.pending⟩
  | rolledBack resource =>
      refine ⟨h.acquired, ?_⟩
      rw [Quota.rollback, h.pending]
      rfl

theorem Idle.step {u : QuotaInUse} (h : u.Idle) (s : QuotaSection) : (u.step s).Idle := by
  obtain ⟨hacquired, hpending⟩ := h.effect (effect_step u s)
  refine ⟨?_, hacquired, hpending, ?_⟩
  · rw [max_step]
    exact h.disabled
  · -- a call would have to have passed before, or to pass while the quota is enabled
    refine List.eq_nil_iff_forall_not_mem.2 fun c hc => ?_
    rcases mem_admitted_step hc with hold | hpassed
    · rw [h.admitted] at hold
      cases hold
    · have hpos := Quota.enabled_of_precheck hpassed
      have := h.disabled
      omega

theorem idle_run {u : QuotaInUse} (h : u.Idle) (ss : List QuotaSection) : (u.run ss).Idle := by
  induction ss generalizing u with
  | nil => exact h
  | cons s ss ih => exact ih (h.step s)

/-- Whatever the order of the sections of all callers: the claims never exceed the ceiling,
and so neither does what has been acquired, also if any open transactions are committed later in any
order. A ceiling of zero or less admits nothing ever. -/
theorem exposure_le_max (max : Int) (ss : List QuotaSection) :
    let u := (start max).run ss
    (0 < max →
      u.quota.exposure ≤ max ∧ u.quota.used ≤ max ∧
        ∀ handles : List Nat, (u.run (handles.map .commit)).quota.used ≤ max) ∧
    (max ≤ 0 → u.quota.acquired = .empty ∧ u.quota.pending = .empty) := by
  intro u
  have used_le : ∀ ss', 0 < max → ((start max).run ss').quota.used ≤ max := by
    intro ss' hmax
    have hs := sound_of_enabled hmax ss'
    have hle := hs.exposure_le
    rw [max_run] at hle
    exact le_trans (Quota.used_le_exposure _) hle
  constructor
  · intro hmax
    have hle := (sound_of_enabled hmax ss).exposure_le
    rw [max_run] at hle
    refine ⟨hle, used_le ss hmax, fun handles => ?_⟩
    rw [← run_append]
    exact used_le _ hmax
  · intro hmax
    have hidle : u.Idle := idle_run ⟨hmax, rfl, rfl, rfl⟩ ss
    exact ⟨hidle.acquired, hidle.pending⟩

/-- Two callers pass the first test before either registers, and only one of them gets in; what it
has committed it may then ask for again. A quota that is switched off refuses them both. -/
theorem exposure_le_max_of_two_callers :
    let sections : List QuotaSection :=
      [.inspect "a" 2, .inspect "b" 2, .register 0, .register 0, .commit 0, .inspect "a" 3,
        .register 0]
    (0 < (3 : Int) ∧ ((start 3).run sections).quota.exposure ≤ 3 ∧
      ((start 3).run sections).quota.used ≤ 3 ∧
        (((start 3).run sections).run ([1].map .commit)).quota.used ≤ 3) ∧
    ((0 : Int) ≤ 0 ∧ ((start 0).run sections).quota.acquired = .empty ∧
      ((start 0).run sections).quota.pending = .empty) := by
  intro sections
  obtain ⟨hexposure, hused, hlater⟩ := (exposure_le_max 3 sections).1 (by decide)
  exact ⟨⟨by decide, hexposure, hused, hlater [1]⟩,
    ⟨by decide, (exposure_le_max 0 sections).2 (by decide)⟩⟩

end QuotaInUse

end IngressTls
