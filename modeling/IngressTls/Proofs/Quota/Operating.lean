import IngressTls.Proofs.Quota.Ceiling

set_option autoImplicit false

/-! # Working with the quota

Reservations, commits, rollbacks and releases, one after the other, in whatever order and for
whatever resources: from a quota whose claims stay below the ceiling they only lead to such quotas.
What is pending for several resources at one time is part of the claims.

A reservation is one step here. Its two tests may as well be made one after the other: what happens
in between makes no difference.

Main statements: `Worked.sound`, `reserve_eq_register` and `Sound.sum_pending_le`.
-/

namespace IngressTls.Quota

/-! ## Operations of the quota, one after the other -/

/-- A state of the quota comes from another one by operations. -/
inductive Worked (q : Quota) : Quota → Prop where
  | refl : Worked q q
  | reserve {q₁ q₂ : Quota} {resource : String} {amount : Nat} (before : Worked q q₁)
      (ok : q₁.reserve resource amount = .ok q₂) : Worked q q₂
  | commit {q₁ : Quota} (before : Worked q q₁) (resource : String) :
      Worked q (q₁.commit resource)
  | rollback {q₁ : Quota} (before : Worked q q₁) (resource : String) :
      Worked q (q₁.rollback resource)

theorem Worked.release {q q₁ : Quota} (h : q.Worked q₁) (resource : String) :
    q.Worked (q₁.release resource) := by
  rw [Quota.release]
  split
  · next q₂ hq₂ =>
      have hzero : q₁.reserve resource (0 : Nat) = .ok q₂ := hq₂
      exact (h.reserve hzero).commit resource
  · exact h

theorem Worked.trans {q q₁ q₂ : Quota} (h : q.Worked q₁) (h' : q₁.Worked q₂) : q.Worked q₂ := by
  induction h' with
  | refl => exact h
  | reserve _ ok ih => exact ih.reserve ok
  | commit _ resource ih => exact ih.commit resource
  | rollback _ resource ih => exact ih.rollback resource

theorem Sound.reserve {q q' : Quota} (h : q.Sound) {resource : String} {amount : Nat}
    (hok : q.reserve resource amount = .ok q') : q'.Sound := by
  rw [Quota.reserve] at hok
  split at hok
  · cases hok
  · exact h.register hok

theorem Worked.sound {q q' : Quota} (h : q.Worked q') (hs : q.Sound) : q'.Sound := by
  induction h with
  | refl => exact hs
  | reserve _ ok ih => exact ih.reserve ok
  | commit _ resource ih => exact ih.commit resource
  | rollback _ resource ih => exact ih.rollback resource

/-- An amount above the ceiling does not pass the first test. -/
theorem le_max_of_precheck {q : Quota} {resource : String} {amount : Int}
    (h : q.precheck resource amount = .ok ()) : amount = 0 ∨ amount ≤ q.max := by
  rw [precheck] at h
  split_ifs at h with hoff hzero hgt
  · exact Or.inl hzero
  · exact Or.inr (by omega)

/-- A call that has passed the first test, at any earlier time, is decided by the second test as if
both were made at once. -/
theorem reserve_eq_register {q₀ q : Quota} {resource : String} {amount : Int}
    (hmax : q.max = q₀.max) (hpassed : q₀.precheck resource amount = .ok ()) :
    q.reserve resource amount = q.register resource amount := by
  have hon : q.enabled = true := by
    rw [enabled, hmax]
    exact decide_eq_true (enabled_of_precheck hpassed)
  by_cases hzero : amount = 0
  · rw [reserve, precheck, hon, if_neg (by decide), if_pos hzero]
  · have hle := (le_max_of_precheck hpassed).resolve_left hzero
    rw [reserve, precheck, hon, if_neg (by decide), if_neg hzero, if_neg (by omega)]
    rw [register, if_neg hzero]
    cases q.check resource amount with
    | error e => rfl
    | ok _ => rfl

/-- Amounts that are pending for different resources are claims. -/
theorem Sound.sum_pending_le {q : Quota} (h : q.Sound) {resources : List String}
    (hapart : resources.Nodup) :
    (resources.map q.pending.amount).foldr (· + ·) 0 ≤ q.exposure := by
  let names := q.resources ∪ resources.toFinset
  calc (resources.map q.pending.amount).foldr (· + ·) 0
      = ∑ r ∈ resources.toFinset, q.pending.amount r := (List.sum_toFinset _ hapart).symm
    _ ≤ ∑ r ∈ names, q.pending.amount r :=
        Finset.sum_le_sum_of_subset_of_nonneg Finset.subset_union_right
          fun r _ _ => h.pending_nonneg r
    _ ≤ ∑ r ∈ names, q.claimOf r := Finset.sum_le_sum fun r _ => le_max_right _ _
    _ = q.exposure := (exposure_eq_sum Finset.subset_union_left).symm

end IngressTls.Quota
