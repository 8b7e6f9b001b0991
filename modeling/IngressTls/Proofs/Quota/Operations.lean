import IngressTls.Proofs.Table
import IngressTls.Quota

set_option autoImplicit false

/-! # What the operations of the quota do

The ceiling never changes. A reservation that succeeds has found the quota enabled and no
open transaction of its resource, and makes the amount pending. A commit moves the pending
amount, a rollback drops it, and a release drops what is acquired unless a transaction is open.

Main statements: `register_eq_ok`, `reserve_eq_ok`, `find?_commit`, `find?_release`,
`find?_release_ne` and `find?_release_self`.
-/

namespace IngressTls.Quota

/-! ## Admission -/

theorem enabled_of_precheck {q : Quota} {resource : String} {amount : Int}
    (h : q.precheck resource amount = .ok ()) : 0 < q.max := by
  by_cases hmax : 0 < q.max
  · exact hmax
  · simp [precheck, enabled, hmax] at h

/-- What a registration that succeeds has tested, and what it leaves. -/
theorem register_eq_ok {q q' : Quota} {resource : String} {amount : Int}
    (h : q.register resource amount = .ok q') :
    q.pending.has resource = false ∧
      (amount = 0 ∨ q.inUse + (amount - q.acquiredBy resource) ≤ q.max) ∧
      q' = { q with pending := q.pending.insert resource amount } := by
  rw [register] at h
  split at h
  · next hzero =>
      split at h
      · cases h
      · next hpending =>
          cases h
          exact ⟨by simpa using hpending, Or.inl hzero, rfl⟩
  · rw [check] at h
    split at h
    · cases h
    · next hpending =>
        split at h
        · cases h
        · next hfits =>
            cases h
            exact ⟨by simpa using hpending, Or.inr (by omega), rfl⟩

/-- What a reservation that succeeds has found, and what it leaves. -/
theorem reserve_eq_ok {q q' : Quota} {resource : String} {amount : Int}
    (h : q.reserve resource amount = .ok q') :
    0 < q.max ∧ q.pending.has resource = false ∧
      q' = { q with pending := q.pending.insert resource amount } := by
  rw [reserve] at h
  split at h
  · cases h
  · next hpre =>
      obtain ⟨hpending, -, hq'⟩ := register_eq_ok h
      exact ⟨enabled_of_precheck hpre, hpending, hq'⟩

/-- An amount of zero can be reserved unless the quota is disabled or a transaction is open. -/
theorem reserve_zero {q : Quota} {resource : String} (henabled : 0 < q.max)
    (hopen : q.pending.has resource = false) :
    q.reserve resource 0 = .ok { q with pending := q.pending.insert resource 0 } := by
  have hpre : q.precheck resource 0 = .ok () := by simp [precheck, enabled, henabled]
  rw [reserve, hpre]
  simp [register, hopen]

/-! ## Commit and rollback -/

theorem commit_of_none {q : Quota} {resource : String} (h : q.pending.find? resource = none) :
    q.commit resource = q := by
  rw [commit, h]

@[simp] theorem max_commit (q : Quota) (resource : String) :
    (q.commit resource).max = q.max := by
  rw [commit]
  split
  · rfl
  · rfl

/-- A commit moves the pending amount; nothing is put in place of an amount of zero. -/
theorem find?_commit {q : Quota} {resource : String} {amount : Int}
    (h : q.pending.find? resource = some amount) (r : String) :
    (q.commit resource).acquired.find? r =
      if r = resource then (if amount = 0 then none else some amount)
      else q.acquired.find? r := by
  simp only [commit, h]
  split
  · rw [Table.find?_erase]
  · rw [Table.find?_insert]

/-- A commit puts what was pending for the resource in the place of what it had acquired. -/
theorem acquiredBy_commit {q : Quota} {resource : String} {amount : Int}
    (h : q.pending.find? resource = some amount) (r : String) :
    (q.commit resource).acquiredBy r = if r = resource then amount else q.acquiredBy r := by
  rw [acquiredBy, find?_commit h]
  split
  · split
    · next hzero => exact hzero.symm
    · rfl
  · rfl

@[simp] theorem pending_find?_commit (q : Quota) (resource r : String) :
    (q.commit resource).pending.find? r =
      if r = resource then none else q.pending.find? r := by
  cases h : q.pending.find? resource with
  | none =>
      rw [commit_of_none h]
      split
      · next hr => rw [hr, h]
      · rfl
  | some amount => simp only [commit, h, Table.find?_erase]

@[simp] theorem pending_find?_rollback (q : Quota) (resource r : String) :
    (q.rollback resource).pending.find? r =
      if r = resource then none else q.pending.find? r :=
  Table.find?_erase _ _ _

/-! ## Release -/

@[simp] theorem max_release (q : Quota) (resource : String) :
    (q.release resource).max = q.max := by
  rw [release]
  split
  · next q' hq' =>
      obtain ⟨-, -, rfl⟩ := reserve_eq_ok hq'
      rw [max_commit]
  · rfl

/-- A release leaves everything pending as it is. -/
@[simp] theorem pending_find?_release (q : Quota) (resource r : String) :
    (q.release resource).pending.find? r = q.pending.find? r := by
  rw [release]
  split
  · next q' hq' =>
      obtain ⟨-, hopen, rfl⟩ := reserve_eq_ok hq'
      rw [pending_find?_commit]
      split
      · next hr => rw [hr, Table.has_eq_false_iff.1 hopen]
      · next hr => rw [Table.find?_insert, if_neg hr]
  · rfl

/-- A release drops what the resource has acquired, unless the quota is disabled or a
transaction is open. -/
theorem find?_release {q : Quota} {resource : String} (henabled : 0 < q.max)
    (hopen : q.pending.has resource = false) (r : String) :
    (q.release resource).acquired.find? r =
      if r = resource then none else q.acquired.find? r := by
  have hfind : ({ q with pending := q.pending.insert resource 0 } : Quota).pending.find?
      resource = some 0 := by
    rw [Table.find?_insert, if_pos rfl]
  rw [release, reserve_zero henabled hopen]
  dsimp only
  rw [find?_commit hfind, if_pos rfl]

/-- A release leaves nothing acquired for the resource, and all else as it was. -/
theorem acquiredBy_release {q : Quota} {resource : String} (henabled : 0 < q.max)
    (hopen : q.pending.find? resource = none) (r : String) :
    (q.release resource).acquiredBy r = if r = resource then 0 else q.acquiredBy r := by
  rw [acquiredBy, find?_release henabled (Table.has_eq_false_iff.2 hopen)]
  split
  · rfl
  · rfl

theorem release_of_disabled {q : Quota} (h : q.max ≤ 0) (resource : String) :
    q.release resource = q := by
  have hoff : q.reserve resource 0 = .error .disabled := by
    have hmax : ¬ 0 < q.max := by omega
    simp [reserve, precheck, enabled, hmax]
  rw [release, hoff]

/-- A release leaves what other resources have acquired. -/
theorem find?_release_ne (q : Quota) {resource r : String} (h : r ≠ resource) :
    (q.release resource).acquired.find? r = q.acquired.find? r := by
  rw [release]
  split
  · next q' hq' =>
      obtain ⟨-, -, rfl⟩ := reserve_eq_ok hq'
      have hfind : ({ q with pending := q.pending.insert resource 0 } : Quota).pending.find?
          resource = some 0 := by
        rw [Table.find?_insert, if_pos rfl]
      rw [find?_commit hfind, if_neg h]
  · rfl

/-- After its release nothing is acquired for a resource without an open transaction. -/
theorem find?_release_self {q : Quota} {resource : String}
    (hdisabled : q.max ≤ 0 → q.acquired.find? resource = none)
    (hopen : q.pending.find? resource = none) :
    (q.release resource).acquired.find? resource = none := by
  by_cases henabled : 0 < q.max
  · rw [find?_release henabled (Table.has_eq_false_iff.2 hopen), if_pos rfl]
  · have hmax : q.max ≤ 0 := by omega
    rw [release_of_disabled hmax]
    exact hdisabled hmax

end IngressTls.Quota
