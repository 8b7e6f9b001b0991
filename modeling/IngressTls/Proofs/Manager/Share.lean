import IngressTls.Proofs.Manager.Targets
import IngressTls.Proofs.Quota.Share
import IngressTls.Proofs.WorkQueue.Share

set_option autoImplicit false

/-! # The share of a key in the manager

A key's *share* of the manager consists of its shares of the stored requests, of what is in flight,
of the queue and of the quota. Every operation of the manager for the key does to the share what it
does to the whole, with the same result; every operation for another key leaves the share as it is.
Only a reservation has to find room.

So do the passes over secrets: what they do for one key depends on the secrets of that key alone.

Main statements: `Share.obtainAll`, `Share.take_self`, `Share.settle_self`, `Share.afterRead_self`
and `share_restore`.
-/

namespace IngressTls

namespace Manager

/-- The second manager is the share of a key in the first. -/
structure Share (k : String) (m m' : Manager) : Prop where
  /-- The settings are the same. -/
  settings : m'.settings = m.settings
  /-- The stored request of the key. -/
  requests : Table.Share k m.requests m'.requests
  /-- Whether the key is in flight, and whether it was released meanwhile. -/
  inFlight : Table.Share k m.inFlight m'.inFlight
  /-- Where the key stands in the queue, and how often it has failed. -/
  queue : WorkQueue.Share k m.queue m'.queue
  /-- Both are restored, or none is. -/
  restored : m'.restored = m.restored
  /-- What the key has acquired, and what is pending for it. -/
  quota : Quota.Share k m.quota m'.quota

/-- Two results agree for a key: they say the same, and the managers are a whole and a share. -/
def Agrees {α : Type} (k : String) (result result' : Manager × α) : Prop :=
  result'.2 = result.2 ∧ Share k result.1 result'.1

/-- Whether the reservation after a reading finds room. -/
def readHasRoom (m : Manager) (r : Request) (answer : Except Error (Option Secret)) : Bool :=
  match answer with
  | .error _ => true
  | .ok existing => m.isForeign existing || m.quota.hasRoom r.key r.domains.size

/-- Whether the reservation for an existing secret finds room, if it is for a key. -/
def admitHasRoom (k : String) (q : Quota) (s : Secret) : Bool :=
  match Bookkeeping.read s with
  | .error _ => true
  | .ok b => b.secret.key ≠ k || q.hasRoom b.secret.key b.domains.size

/-- Whether the reservations for the existing secrets of a key find room, each after the last. -/
def restoreHasRoom (k : String) : Quota → List Secret → Bool
  | _, [] => true
  | q, s :: rest => admitHasRoom k q s && restoreHasRoom k (admitListed q s) rest

namespace Share

variable {k j : String} {m m' m₁ : Manager} {r : Request}

/-! ## Demand -/

theorem obtain_self (h : Share k m m') (hr : r.key = k) : Share k (m.obtain r) (m'.obtain r) := by
  subst hr
  exact ⟨h.settings, h.requests.insert_self r, h.inFlight, h.queue.add_self, h.restored, h.quota⟩

theorem obtain_other (h : Share k m m') (hr : r.key ≠ k) : Share k (m.obtain r) m' :=
  ⟨h.settings, h.requests.insert_other hr r, h.inFlight, h.queue.add_other hr, h.restored, h.quota⟩

/-- Of several requests the share only sees those for its key. -/
theorem obtainAll (h : Share k m m') (rs : List Request) :
    Share k (m.obtainAll rs) (m'.obtainAll (rs.filter fun r => r.key = k)) := by
  induction rs generalizing m m' with
  | nil => exact h
  | cons r rs ih =>
      by_cases hr : r.key = k
      · rw [List.filter_cons_of_pos (by simpa using hr)]
        exact ih (h.obtain_self hr)
      · rw [List.filter_cons_of_neg (by simpa using hr)]
        exact ih (h.obtain_other hr)

theorem isReleased_self (h : Share k m m') : m'.isReleased k = m.isReleased k := by
  rw [isReleased, h.inFlight.find?_self, isReleased]

theorem release_self (h : Share k m m') {s : SecretRef} (hs : s.key = k) :
    Share k (m.release s) (m'.release s) := by
  subst hs
  have hflight := h.inFlight.has_self
  obtain ⟨hm, heq⟩ | ⟨hm, heq⟩ := release_cases m s
  · obtain ⟨hm', heq'⟩ | ⟨hm', heq'⟩ := release_cases m' s
    · rw [heq, heq']
      exact ⟨h.settings, h.requests.erase_self, h.inFlight.insert_self true, h.queue, h.restored,
        h.quota⟩
    · cases hm'.symm.trans (hflight.trans hm)
  · obtain ⟨hm', heq'⟩ | ⟨hm', heq'⟩ := release_cases m' s
    · cases hm'.symm.trans (hflight.trans hm)
    · rw [heq, heq']
      exact ⟨h.settings, h.requests.erase_self, h.inFlight, h.queue, h.restored,
        h.quota.release_self⟩

theorem release_other (h : Share k m m') {s : SecretRef} (hs : s.key ≠ k) :
    Share k (m.release s) m' := by
  obtain ⟨-, heq⟩ | ⟨-, heq⟩ := release_cases m s
  · rw [heq]
    exact ⟨h.settings, h.requests.erase_other hs, h.inFlight.insert_other hs true, h.queue,
      h.restored, h.quota⟩
  · rw [heq]
    exact ⟨h.settings, h.requests.erase_other hs, h.inFlight, h.queue, h.restored,
      h.quota.release_other hs⟩

/-! ## Taking a key -/

theorem take_self {i : Nat} (h : Share k m m') (ht : m.take i = (m₁, .key k)) :
    ∃ m₁', m'.take i = (m₁', .key k) ∧ Share k m₁ m₁' := by
  obtain ⟨q, hq, rfl⟩ := take_eq ht
  obtain ⟨q', hq', hqueue⟩ := h.queue.take_self hq
  refine ⟨{ m' with queue := q' }, by rw [take, hq'], ?_⟩
  exact ⟨h.settings, h.requests, h.inFlight, hqueue, h.restored, h.quota⟩

theorem take_other {i : Nat} {taken : Taken} (h : Share k m m') (ht : m.take i = (m₁, taken))
    (hother : taken ≠ .key k) : Share k m₁ m' := by
  obtain ⟨q, hq, rfl⟩ := take_eq ht
  exact ⟨h.settings, h.requests, h.inFlight, h.queue.take_other hq hother, h.restored, h.quota⟩

theorem startOn_self (h : Share k m m') : Agrees k (m.startOn k) (m'.startOn k) :=
  ⟨h.requests.find?_self, h.settings, h.requests.erase_self, h.inFlight.insert_self false, h.queue,
    h.restored, h.quota⟩

theorem startOn_other (h : Share k m m') (hj : j ≠ k) : Share k (m.startOn j).1 m' :=
  ⟨h.settings, h.requests.erase_other hj, h.inFlight.insert_other hj false, h.queue, h.restored,
    h.quota⟩

/-! ## Settling -/

theorem forget_self (h : Share k m m') : Share k (m.forget k) (m'.forget k) :=
  ⟨h.settings, h.requests, h.inFlight, h.queue.forget_self, h.restored, h.quota⟩

theorem forget_other (h : Share k m m') (hj : j ≠ k) : Share k (m.forget j) m' :=
  ⟨h.settings, h.requests, h.inFlight, h.queue.forget_other hj, h.restored, h.quota⟩

theorem requeue_self (h : Share k m m') (r : Request) :
    Agrees k (m.requeue k r) (m'.requeue k r) := by
  obtain ⟨hcount, hqueue⟩ := h.queue.fail_self
  refine ⟨congrArg Settlement.again hcount, h.settings, ?_, h.inFlight, hqueue, h.restored, h.quota⟩
  show Table.Share k (if m.requests.has k then m.requests else m.requests.insert k r)
    (if m'.requests.has k then m'.requests else m'.requests.insert k r)
  rw [h.requests.has_self]
  split
  · exact h.requests
  · exact h.requests.insert_self r

theorem requeue_other (h : Share k m m') (hj : j ≠ k) (r : Request) :
    Share k (m.requeue j r).1 m' := by
  refine ⟨h.settings, ?_, h.inFlight, h.queue.fail_other hj, h.restored, h.quota⟩
  show Table.Share k (if m.requests.has j then m.requests else m.requests.insert j r) m'.requests
  split
  · exact h.requests
  · exact h.requests.insert_other hj r

theorem settleFailure_self (h : Share k m m') (r : Request) (e : Error) :
    Agrees k (m.settleFailure k r e) (m'.settleFailure k r e) := by
  have hforget : Agrees k (m.forget k, Settlement.forgotten) (m'.forget k, .forgotten) :=
    ⟨rfl, h.forget_self⟩
  have hretry : ∀ c : Bool, Agrees k
      (if c then m.requeue k r else (m.forget k, .forgotten))
      (if c then m'.requeue k r else (m'.forget k, .forgotten)) := by
    intro c
    cases c with
    | true => exact h.requeue_self r
    | false => exact hforget
  unfold settleFailure
  rw [h.isReleased_self, h.queue.failuresOf_self, h.settings]
  split
  · exact hforget
  · split
    · exact h.requeue_self r
    · cases e with
      | quota refusal => exact hforget
      | _ => exact hretry _

theorem settle_self (h : Share k m m') (r : Request) (result : Except Error Unit) :
    Agrees k (m.settle k r result) (m'.settle k r result) := by
  cases result with
  | ok _ => exact ⟨rfl, h.forget_self⟩
  | error e => exact h.settleFailure_self r e

theorem settle_other (h : Share k m m') (hj : j ≠ k) (r : Request) (result : Except Error Unit) :
    Share k (m.settle j r result).1 m' := by
  obtain heq | ⟨-, -, heq⟩ := settle_cases m j r result
  · rw [heq]
    exact h.forget_other hj
  · rw [heq]
    exact h.requeue_other hj r

theorem finish_self (h : Share k m m') : Share k (m.finish k) (m'.finish k) := by
  constructor
  · rw [finish_settings, finish_settings, h.settings]
  · rw [finish_requests, finish_requests]
    exact h.requests
  · rw [finish_inFlight, finish_inFlight]
    exact h.inFlight.erase_self
  · rw [finish_queue, finish_queue]
    exact h.queue.done_self
  · rw [finish_restored, finish_restored, h.restored]
  · rw [finish_quota, finish_quota, h.isReleased_self]
    split
    · exact h.quota.release_self
    · exact h.quota

theorem finish_other (h : Share k m m') (hj : j ≠ k) : Share k (m.finish j) m' := by
  constructor
  · rw [finish_settings, h.settings]
  · rw [finish_requests]
    exact h.requests
  · rw [finish_inFlight]
    exact h.inFlight.erase_other hj
  · rw [finish_queue]
    exact h.queue.done_other hj
  · rw [finish_restored, h.restored]
  · rw [finish_quota]
    split
    · exact h.quota.release_other hj
    · exact h.quota

/-! ## Issuing -/

theorem setQuota {q q' : Quota} (h : Share k m m') (hq : Quota.Share k q q') :
    Share k { m with quota := q } { m' with quota := q' } :=
  ⟨h.settings, h.requests, h.inFlight, h.queue, h.restored, hq⟩

theorem isForeign_eq (h : Share k m m') (existing : Option Secret) :
    m'.isForeign existing = m.isForeign existing := by
  rw [isForeign, h.settings, isForeign]

theorem afterRead_self (h : Share k m m') (hr : r.key = k) (hs : 0 < m.quota.max → m.quota.Sound)
    {a : Except Error (Option Secret)} (hroom : m.readHasRoom r a = true) :
    Agrees k (m.afterRead r a) (m'.afterRead r a) := by
  subst hr
  cases a with
  | error e => exact ⟨rfl, h⟩
  | ok existing =>
      rw [afterRead, afterRead, h.isForeign_eq]
      split
      · exact ⟨rfl, h⟩
      · next hours =>
          have hroom : m.quota.hasRoom r.key r.domains.size = true := by
            rw [readHasRoom, Bool.or_eq_true] at hroom
            exact hroom.resolve_left hours
          obtain ⟨e, hq, hq'⟩ | ⟨q, q', hq, hq', hquota⟩ := h.quota.reserve_self hs hroom
          · rw [hq, hq']
            exact ⟨rfl, h⟩
          · rw [hq, hq']
            exact ⟨rfl, h.setQuota hquota⟩

theorem afterRead_other (h : Share k m m') (hr : r.key ≠ k) (a : Except Error (Option Secret)) :
    Share k (m.afterRead r a).1 m' := by
  cases a with
  | error e => exact h
  | ok existing =>
      rw [afterRead]
      split
      · exact h
      · split
        · exact h
        · next hok => exact h.setQuota (h.quota.reserve_other hr hok)

theorem rollback_self (h : Share k m m') (hr : r.key = k) :
    Share k (m.rollback r) (m'.rollback r) := by
  subst hr
  exact h.setQuota h.quota.rollback_self

theorem rollback_other (h : Share k m m') (hr : r.key ≠ k) : Share k (m.rollback r) m' :=
  h.setQuota (h.quota.rollback_other hr)

theorem afterOrder_self (h : Share k m m') (hr : r.key = k)
    (a : Except AuthorityError Certificate) :
    Agrees k (m.afterOrder r a) (m'.afterOrder r a) := by
  have hrollback := h.rollback_self hr
  subst hr
  cases a with
  | error e => exact ⟨rfl, hrollback⟩
  | ok certificate =>
      rw [afterOrder, afterOrder]
      rw [h.isReleased_self, h.settings]
      split
      · exact ⟨rfl, hrollback⟩
      · exact ⟨rfl, h⟩

theorem afterOrder_other (h : Share k m m') (hr : r.key ≠ k)
    (a : Except AuthorityError Certificate) : Share k (m.afterOrder r a).1 m' := by
  cases a with
  | error e => exact h.rollback_other hr
  | ok certificate =>
      rw [afterOrder]
      split
      · exact h.rollback_other hr
      · exact h

theorem afterStore_self (h : Share k m m') (hr : r.key = k) (a : Except Error Unit) :
    Agrees k (m.afterStore r a) (m'.afterStore r a) := by
  have hrollback := h.rollback_self hr
  subst hr
  cases a with
  | error e => exact ⟨rfl, hrollback⟩
  | ok _ =>
      rw [afterStore, afterStore]
      rw [h.isReleased_self]
      split
      · exact ⟨rfl, hrollback⟩
      · exact ⟨rfl, h.settings, h.requests, h.inFlight.erase_self, h.queue, h.restored,
          h.quota.commit_self⟩

theorem afterStore_other (h : Share k m m') (hr : r.key ≠ k) (a : Except Error Unit) :
    Share k (m.afterStore r a).1 m' := by
  cases a with
  | error e => exact h.rollback_other hr
  | ok _ =>
      rw [afterStore]
      split
      · exact h.rollback_other hr
      · exact ⟨h.settings, h.requests, h.inFlight.erase_other hr, h.queue, h.restored,
          h.quota.commit_other hr⟩

/-! ## Delayed additions and stopping -/

theorem readd_self (h : Share k m m') : Share k (m.readd k) (m'.readd k) :=
  ⟨h.settings, h.requests, h.inFlight, h.queue.add_self, h.restored, h.quota⟩

theorem readd_other (h : Share k m m') (hj : j ≠ k) : Share k (m.readd j) m' :=
  ⟨h.settings, h.requests, h.inFlight, h.queue.add_other hj, h.restored, h.quota⟩

theorem shutDown (h : Share k m m') : Share k m.shutDown m'.shutDown :=
  ⟨h.settings, h.requests, h.inFlight, h.queue.close, h.restored, h.quota⟩

/-! ## Passes over secrets -/

/-- What is due among the secrets of a key is what is due for the key. -/
theorem due_filter (h : Share k m m') (threshold : Int) (now : Instant) (listing : List Secret) :
    (listing.filter fun s => s.ref.key = k).filterMap (m'.due? threshold now) =
      (listing.filterMap (m.due? threshold now)).filter fun b => b.toRequest.key = k := by
  have hdue : m'.due? threshold now = m.due? threshold now := by
    funext s
    rw [due?, h.settings, due?]
  rw [hdue]
  induction listing with
  | nil => rfl
  | cons s rest ih =>
      cases hs : m.due? threshold now s with
      | none =>
          rw [List.filterMap_cons_none hs, List.filter_cons]
          split
          · rw [List.filterMap_cons_none hs, ih]
          · exact ih
      | some b =>
          -- what is due is due for the secret that says so
          have hkey : b.toRequest.key = s.ref.key := congrArg SecretRef.key (target_of_due hs)
          rw [List.filterMap_cons_some hs, List.filter_cons, List.filter_cons, hkey]
          split
          · rw [List.filterMap_cons_some hs, ih]
          · exact ih

theorem renew (h : Share k m m') (threshold : Int) (now : Instant) (listing : List Secret) :
    Share k (m.afterRenewalListing threshold now (.ok listing)).1
      (m'.afterRenewalListing threshold now
        (.ok (listing.filter fun s => s.ref.key = k))).1 := by
  have hall := h.obtainAll ((listing.filterMap (m.due? threshold now)).map Bookkeeping.toRequest)
  rw [List.filter_map] at hall
  rw [afterRenewalListing_fst, afterRenewalListing_fst, h.due_filter]
  exact hall

end Share

/-! ## Restoring -/

theorem share_admit_self {k : String} {q q' : Quota} (h : Quota.Share k q q')
    (hs : 0 < q.max → q.Sound) {s : Secret} (hkey : s.ref.key = k)
    (hroom : admitHasRoom k q s = true) :
    Quota.Share k (admitListed q s) (admitListed q' s) := by
  rw [admitHasRoom] at hroom
  rw [admitListed, admitListed]
  cases hread : Bookkeeping.read s with
  | error e => exact h
  | ok b =>
      have hk : b.secret.key = k :=
        (congrArg SecretRef.key (Bookkeeping.of_read hread).1).trans hkey
      rw [hread] at hroom
      dsimp only at hroom ⊢
      rw [hk] at hroom ⊢
      have hroom : q.hasRoom k b.domains.size = true := by simpa using hroom
      obtain ⟨e, hq, hq'⟩ | ⟨q₁, q₁', hq, hq', hshare⟩ := h.reserve_self hs hroom
      · rw [hq, hq']
        exact h
      · rw [hq, hq']
        exact hshare.commit_self

theorem share_admit_other {k : String} {q q' : Quota} (h : Quota.Share k q q') {s : Secret}
    (hkey : s.ref.key ≠ k) : Quota.Share k (admitListed q s) q' := by
  rw [admitListed]
  cases hread : Bookkeeping.read s with
  | error e => exact h
  | ok b =>
      have hk : b.secret.key ≠ k := by rwa [(Bookkeeping.of_read hread).1]
      dsimp only
      split
      · exact h
      · next hok => exact (h.reserve_other hk hok).commit_other hk

/-- The share of a key is restored from the secrets of the key. -/
theorem share_restore {k : String} {q q' : Quota} (h : Quota.Share k q q')
    (hs : 0 < q.max → q.Sound) {listing : List Secret}
    (hroom : restoreHasRoom k q listing = true) :
    Quota.Share k (listing.foldl admitListed q)
      ((listing.filter fun s => s.ref.key = k).foldl admitListed q') := by
  induction listing generalizing q q' with
  | nil => exact h
  | cons s rest ih =>
      obtain ⟨hfirst, hrest⟩ := Bool.and_eq_true_iff.1 hroom
      have hs' : 0 < (admitListed q s).max → (admitListed q s).Sound := by
        rw [Floor.max_admitListed]
        exact fun hmax => (Floor.worked_admitListed .refl s).sound (hs hmax)
      by_cases hk : s.ref.key = k
      · rw [List.filter_cons_of_pos (by simpa using hk)]
        exact ih (share_admit_self h hs hk hfirst) hs' hrest
      · rw [List.filter_cons_of_neg (by simpa using hk)]
        exact ih (share_admit_other h hk) hs' hrest

end Manager

end IngressTls
