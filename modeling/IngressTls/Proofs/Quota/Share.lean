import IngressTls.Proofs.Quota.Ceiling

set_option autoImplicit false

/-! # The share of a resource in the quota

A resource's *share* of a quota is the quota with the same ceiling in which nobody else holds
anything. What happens to other resources leaves the share as it is. What happens to the resource
happens to the share as well: a commit, a rollback and a release always, and a reservation unless it
is refused because of the ceiling. In the share there is more room, so what is refused for want of
it may be admitted there.

Main statements: `reserve_cases`, `Share.reserve_self` and `Share.reserve_other`.
-/

namespace IngressTls.Quota

/-! ## All that a reservation can lead to -/

theorem reserve_of_disabled {q : Quota} (h : q.max ≤ 0) (resource : String) (amount : Int) :
    q.reserve resource amount = .error .disabled := by
  have hoff : q.enabled = false := decide_eq_false (by omega)
  rw [reserve, precheck, hoff, if_pos (by decide)]

/-- A resource with an open transaction is refused unless the amount alone is too large. -/
theorem reserve_of_open {q : Quota} {resource : String} {amount : Int} (henabled : 0 < q.max)
    (hle : amount = 0 ∨ amount ≤ q.max) (hopen : q.pending.has resource = true) :
    q.reserve resource amount = .error (.pending resource) := by
  have hon : q.enabled = true := decide_eq_true henabled
  rw [reserve, precheck, hon, if_neg (by decide)]
  by_cases hzero : amount = 0
  · rw [if_pos hzero, register, if_pos hzero, if_pos hopen]
  · rw [if_neg hzero, if_neg (by omega), check, if_pos hopen]

/-- What fits is reserved. -/
theorem reserve_of_fits {q : Quota} {resource : String} {amount : Int} (henabled : 0 < q.max)
    (hopen : q.pending.has resource = false)
    (hfits : amount = 0 ∨
      amount ≤ q.max ∧ q.inUse + (amount - q.acquiredBy resource) ≤ q.max) :
    q.reserve resource amount =
      .ok { q with pending := q.pending.insert resource amount } := by
  have hon : q.enabled = true := decide_eq_true henabled
  by_cases hzero : amount = 0
  · subst hzero
    exact reserve_zero henabled hopen
  · obtain ⟨hle, hroom⟩ := hfits.resolve_left hzero
    have hcheck : q.check resource amount = .ok () := by
      rw [check, if_neg (by simp [hopen]), if_neg (by omega)]
    rw [reserve, precheck, hon, if_neg (by decide), if_neg hzero, if_neg (by omega), hcheck]
    simp only
    rw [register, if_neg hzero, hcheck]
    rfl

/-- Whether a reservation is not refused because of the ceiling. -/
def hasRoom (q : Quota) (resource : String) (amount : Int) : Bool :=
  match q.reserve resource amount with
  | .error (.exceeded _ _ _ _) => false
  | .error .disabled | .error (.pending _) | .ok _ => true

/-- A reservation that is not refused because of the ceiling finds the quota disabled, or a
transaction open, or it fits. -/
theorem reserve_cases {q : Quota} {resource : String} {amount : Int}
    (hroom : q.hasRoom resource amount = true) :
    q.max ≤ 0 ∨
    (0 < q.max ∧ q.pending.has resource = true ∧ (amount = 0 ∨ amount ≤ q.max)) ∨
    (0 < q.max ∧ q.pending.has resource = false ∧ (amount = 0 ∨
      amount ≤ q.max ∧ q.inUse + (amount - q.acquiredBy resource) ≤ q.max)) := by
  by_cases henabled : 0 < q.max
  swap
  · exact Or.inl (by omega)
  right
  have hon : q.enabled = true := decide_eq_true henabled
  have hopen : q.pending.has resource = true ∨ q.pending.has resource = false := by
    cases q.pending.has resource with
    | true => exact Or.inl rfl
    | false => exact Or.inr rfl
  by_cases hzero : amount = 0
  · exact hopen.imp (fun h => ⟨henabled, h, Or.inl hzero⟩) fun h => ⟨henabled, h, Or.inl hzero⟩
  · have hle : amount ≤ q.max := by
      by_contra hgt
      rw [hasRoom, reserve, precheck, hon, if_neg (by decide), if_neg hzero,
        if_pos (by omega)] at hroom
      cases hroom
    refine hopen.imp (fun h => ⟨henabled, h, Or.inr hle⟩) fun h => ⟨henabled, h, Or.inr ⟨hle, ?_⟩⟩
    by_contra hover
    rw [hasRoom, reserve, precheck, hon, if_neg (by decide), if_neg hzero, if_neg (by omega), check,
      if_neg (by simp [h]), if_pos (by omega)] at hroom
    cases hroom

/-! ## Shares -/

/-- The second quota is the share of a resource in the first. -/
structure Share (k : String) (q q' : Quota) : Prop where
  /-- The ceiling is the same. -/
  max : q'.max = q.max
  /-- What the resource has acquired. -/
  acquired : Table.Share k q.acquired q'.acquired
  /-- What is pending for the resource. -/
  pending : Table.Share k q.pending q'.pending

namespace Share

variable {k j : String} {q q' q₁ : Quota}

theorem new (k : String) (max : Int) : Share k (Quota.new max) (Quota.new max) :=
  ⟨rfl, .empty k, .empty k⟩

theorem acquiredBy_self (h : Share k q q') : q'.acquiredBy k = q.acquiredBy k := by
  rw [acquiredBy, h.acquired.find?_self, acquiredBy]

/-- In the share no more is in use. -/
theorem inUse_le (h : Share k q q') (hs : q.Sound) : q'.inUse ≤ q.inUse :=
  add_le_add (h.acquired.total_le hs.acquired_nonneg) (h.pending.total_le hs.pending_nonneg)

theorem opened (h : Share k q q') (amount : Int) :
    Share k { q with pending := q.pending.insert k amount }
      { q' with pending := q'.pending.insert k amount } :=
  ⟨h.max, h.acquired, h.pending.insert_self amount⟩

/-- A reservation that is not refused because of the ceiling ends the same way in the share. -/
theorem reserve_self (h : Share k q q') (hs : 0 < q.max → q.Sound) {amount : Int}
    (hroom : q.hasRoom k amount = true) :
    (∃ e, q.reserve k amount = .error e ∧ q'.reserve k amount = .error e) ∨
      ∃ q₁ q₁', q.reserve k amount = .ok q₁ ∧ q'.reserve k amount = .ok q₁' ∧ Share k q₁ q₁' := by
  have hmax := h.max
  obtain hoff | ⟨hon, hopen, hle⟩ | ⟨hon, hopen, hfits⟩ := reserve_cases hroom
  · exact Or.inl ⟨_, reserve_of_disabled hoff k amount, reserve_of_disabled (by omega) k amount⟩
  · have hopen' : q'.pending.has k = true := h.pending.has_self.trans hopen
    exact Or.inl ⟨_, reserve_of_open hon hle hopen,
      reserve_of_open (by omega) (hle.imp_right fun hle => by omega) hopen'⟩
  · have hopen' : q'.pending.has k = false := h.pending.has_self.trans hopen
    have hinUse := h.inUse_le (hs hon)
    have hacquired := h.acquiredBy_self
    refine Or.inr ⟨_, _, reserve_of_fits hon hopen hfits,
      reserve_of_fits (by omega) hopen' (hfits.imp_right ?_), h.opened amount⟩
    rintro ⟨hle, hroom⟩
    exact ⟨by omega, by omega⟩

theorem reserve_other (h : Share k q q') (hj : j ≠ k) {amount : Int}
    (hok : q.reserve j amount = .ok q₁) : Share k q₁ q' := by
  obtain ⟨-, -, rfl⟩ := reserve_eq_ok hok
  exact ⟨h.max, h.acquired, h.pending.insert_other hj amount⟩

theorem commit_self (h : Share k q q') : Share k (q.commit k) (q'.commit k) := by
  rw [commit, commit, h.pending.find?_self]
  cases q.pending.find? k with
  | none => exact h
  | some amount =>
      refine ⟨h.max, ?_, h.pending.erase_self⟩
      dsimp only
      split
      · exact h.acquired.erase_self
      · exact h.acquired.insert_self amount

theorem commit_other (h : Share k q q') (hj : j ≠ k) : Share k (q.commit j) q' := by
  rw [commit]
  split
  · exact h
  · refine ⟨h.max, ?_, h.pending.erase_other hj⟩
    dsimp only
    split
    · exact h.acquired.erase_other hj
    · exact h.acquired.insert_other hj _

theorem rollback_self (h : Share k q q') : Share k (q.rollback k) (q'.rollback k) :=
  ⟨h.max, h.acquired, h.pending.erase_self⟩

theorem rollback_other (h : Share k q q') (hj : j ≠ k) : Share k (q.rollback j) q' :=
  ⟨h.max, h.acquired, h.pending.erase_other hj⟩

/-- A release needs no room. -/
theorem release_self (h : Share k q q') : Share k (q.release k) (q'.release k) := by
  have hmax := h.max
  by_cases hon : 0 < q.max
  · cases hopen : q.pending.has k with
    | true =>
        have hopen' : q'.pending.has k = true := h.pending.has_self.trans hopen
        rw [release, release, reserve_of_open hon (Or.inl rfl) hopen,
          reserve_of_open (by omega) (Or.inl rfl) hopen']
        exact h
    | false =>
        have hopen' : q'.pending.has k = false := h.pending.has_self.trans hopen
        rw [release, release, reserve_zero hon hopen, reserve_zero (by omega) hopen']
        exact (h.opened 0).commit_self
  · rw [release_of_disabled (by omega), release_of_disabled (by omega)]
    exact h

theorem release_other (h : Share k q q') (hj : j ≠ k) : Share k (q.release j) q' := by
  rw [release]
  split
  · next hok => exact (h.reserve_other hj hok).commit_other hj
  · exact h

end Share

end IngressTls.Quota
