import IngressTls.Proofs.Manager.Consistency
import IngressTls.Proofs.Quota.Operating

set_option autoImplicit false

/-! # The floor at the start

The manager restores its quota from the secrets that it lists, one after the other; each of them
is reserved and committed at once, so that nothing stays pending. Nothing is stored or queued,
and no worker has a key. This is consistent. Quota is held for nothing but what was listed.

Main statements: `sound_start` and `listed_of_restored`.
-/

namespace IngressTls.Floor

/-- Restoring admits nothing that stays pending. -/
theorem pending_admitListed {q : Quota} (h : ∀ k, q.pending.find? k = none) (s : Secret) :
    ∀ k, (Manager.admitListed q s).pending.find? k = none := by
  intro k
  rw [Manager.admitListed]
  split
  · exact h k
  · split
    · exact h k
    · next q' hq' =>
        obtain ⟨-, -, rfl⟩ := Quota.reserve_eq_ok hq'
        rw [Quota.pending_find?_commit]
        split
        · rfl
        · next hk =>
            rw [Table.find?_insert, if_neg hk]
            exact h k

theorem max_admitListed (q : Quota) (s : Secret) : (Manager.admitListed q s).max = q.max := by
  rw [Manager.admitListed]
  split
  · rfl
  · split
    · rfl
    · next q' hq' =>
        obtain ⟨-, -, rfl⟩ := Quota.reserve_eq_ok hq'
        exact Quota.max_commit _ _

theorem foldl_admitListed (listing : List Secret) {q : Quota}
    (h : ∀ k, q.pending.find? k = none) :
    (∀ k, (listing.foldl Manager.admitListed q).pending.find? k = none) ∧
      (listing.foldl Manager.admitListed q).max = q.max := by
  induction listing generalizing q with
  | nil => exact ⟨h, rfl⟩
  | cons s rest ih =>
      obtain ⟨hpending, hmax⟩ := ih (pending_admitListed h s)
      exact ⟨hpending, hmax.trans (max_admitListed q s)⟩

theorem worked_admitListed {q q₁ : Quota} (h : q.Worked q₁) (s : Secret) :
    q.Worked (Manager.admitListed q₁ s) := by
  rw [Manager.admitListed]
  split
  · exact h
  · split
    · exact h
    · next hok => exact (h.reserve hok).commit _

theorem worked_foldl {q q₁ : Quota} (h : q.Worked q₁) (listing : List Secret) :
    q.Worked (listing.foldl Manager.admitListed q₁) := by
  induction listing generalizing q₁ with
  | nil => exact h
  | cons s rest ih => exact ih (worked_admitListed h s)

/-- What is held at the start was reserved and committed. -/
theorem worked_start (settings : ManagerSettings) (max : Int)
    (listing : Except Error (List Secret)) (shelf : Snapshot Secret) :
    (Quota.new max).Worked (start settings max listing shelf).manager.quota := by
  show (Quota.new max).Worked (restored settings max listing).quota
  rw [restored]
  split
  · cases listing with
    | error e => exact .refl
    | ok secrets => exact worked_foldl .refl secrets
  · exact .refl

/-- Only the quota of a restored manager is not as new. -/
theorem restored_eq (settings : ManagerSettings) (max : Int)
    (listing : Except Error (List Secret)) :
    ∃ q : Quota, (∀ k, q.pending.find? k = none) ∧ q.max = max ∧
      (max ≤ 0 → ∀ k, q.acquired.find? k = none) ∧
      restored settings max listing =
        ⟨settings, .empty, .empty, .empty, true, q⟩ := by
  have hnew : ∀ k, (Quota.new max).pending.find? k = none := fun _ => rfl
  rw [restored]
  by_cases henabled : 0 < max
  · have hon : (Manager.new settings (.new max)).quota.enabled = true := by
      simp [Manager.new, Quota.new, Quota.enabled, henabled]
    cases listing with
    | error e =>
        refine ⟨.new max, hnew, rfl, fun hmax => by omega, ?_⟩
        rw [if_pos hon]
        rfl
    | ok listing =>
        obtain ⟨hpending, hmax⟩ := foldl_admitListed listing hnew
        refine ⟨_, hpending, hmax, fun hmax => by omega, ?_⟩
        rw [if_pos hon]
        rfl
  · -- without a quota the listing is not even asked for
    have hoff : ¬ (Manager.new settings (.new max)).quota.enabled = true := by
      simp [Manager.new, Quota.new, Quota.enabled, henabled]
    refine ⟨.new max, hnew, rfl, fun _ _ => rfl, ?_⟩
    rw [if_neg hoff]
    rfl

/-- Restoring admits quota for the secret that it reads, and for nothing else. -/
theorem acquired_admitListed (q : Quota) (s : Secret) (k : String) :
    (Manager.admitListed q s).acquired.find? k = q.acquired.find? k ∨
      ∃ b, Bookkeeping.read s = .ok b ∧ b.secret.key = k := by
  rw [Manager.admitListed]
  split
  · exact Or.inl rfl
  · next b hread =>
      split
      · exact Or.inl rfl
      · next q' hq' =>
          obtain ⟨-, -, rfl⟩ := Quota.reserve_eq_ok hq'
          by_cases hk : k = b.secret.key
          · exact Or.inr ⟨b, hread, hk.symm⟩
          · left
            have hopen : (q.pending.insert b.secret.key b.domains.size).find? b.secret.key =
                some (b.domains.size : Int) := by
              rw [Table.find?_insert, if_pos rfl]
            rw [Quota.find?_commit hopen, if_neg hk]

theorem listed_of_acquired {listing : List Secret} {q : Quota} {k : String}
    (hnone : q.acquired.find? k = none)
    (h : (listing.foldl Manager.admitListed q).acquired.find? k ≠ none) :
    ∃ o ∈ listing, ∃ b, Bookkeeping.read o = .ok b ∧ b.secret.key = k := by
  induction listing generalizing q with
  | nil => exact absurd hnone h
  | cons s rest ih =>
      rcases acquired_admitListed q s k with hsame | hread
      · obtain ⟨o, ho, hread⟩ := ih (hsame.trans hnone) h
        exact ⟨o, List.mem_cons_of_mem _ ho, hread⟩
      · exact ⟨s, List.mem_cons_self, hread⟩

/-- What is held at the start is held for a secret that was listed. -/
theorem listed_of_restored {settings : ManagerSettings} {max : Int}
    {listing : Except Error (List Secret)} {k : String}
    (h : (restored settings max listing).quota.acquired.find? k ≠ none) :
    ∃ secrets, listing = .ok secrets ∧
      ∃ o ∈ secrets, ∃ b, Bookkeeping.read o = .ok b ∧ b.secret.key = k := by
  rw [restored] at h
  split at h
  · cases listing with
    | error e => exact absurd rfl h
    | ok secrets => exact ⟨secrets, rfl, listed_of_acquired rfl h⟩
  · exact absurd rfl h

theorem post_start (settings : ManagerSettings) (max : Int)
    (listing : Except Error (List Secret)) (shelf : Snapshot Secret) (i : Nat) :
    ((start settings max listing shelf).post i).request? = none := by
  rw [post, start, List.getElem?_replicate]
  split
  · rfl
  · rfl

theorem sound_start (settings : ManagerSettings) (max : Int)
    (listing : Except Error (List Secret)) (shelf : Snapshot Secret) :
    (start settings max listing shelf).Sound := by
  have hpost := post_start settings max listing shelf
  have hidle : ∀ i, (start settings max listing shelf).keyAt i = none :=
    fun i => keyAt_of_idle (hpost i)
  obtain ⟨q, hpending, hmax, hacquired, heq⟩ := restored_eq settings max listing
  have hmanager : (start settings max listing shelf).manager =
      ⟨settings, .empty, .empty, .empty, true, q⟩ := heq
  have hfree : ∀ k, ¬ (start settings max listing shelf).Busy k := by
    rintro k ⟨i, hi⟩
    rw [hidle] at hi
    cases hi
  -- nobody has a key, so what is said about keys of workers holds for want of one
  constructor
  · rw [hmanager]
    exact .empty
  · intro k
    refine iff_of_false (fun hk => ?_) (hfree k)
    rw [hmanager] at hk
    cases hk
  · intro k
    refine iff_of_false (fun hk => ?_) (hfree k)
    rw [hmanager] at hk
    cases hk
  · intro i j k hi
    rw [hidle] at hi
    cases hi
  · intro k r hr
    rw [hmanager] at hr
    cases hr
  · intro i r hr
    have hnone := hpost i
    rw [request_of_reservation hr] at hnone
    cases hnone
  · intro k _
    rw [hmanager]
    exact hpending k
  · intro hdisabled k
    rw [hmanager] at hdisabled ⊢
    exact ⟨hacquired (hmax ▸ hdisabled) k, hpending k⟩
  · intro i r s a hi
    have hnone := hpost i
    rw [hi] at hnone
    cases hnone

/-! ## A small floor -/

/-- The request for one host of a secret. -/
def requestFor (host : String) : Request := ⟨DomainSet.ofHosts [host], ⟨"default", "shared"⟩⟩

/-- A manager with one worker and without secrets. -/
def small : Floor := start { ManagerSettings.standard with workers := 1 } 5 (.ok []) .empty

end IngressTls.Floor
