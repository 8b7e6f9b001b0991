import IngressTls.Proofs.Manager.Posts

set_option autoImplicit false

/-! # What the floor keeps consistent

No two workers issue for one key, and the keys that workers issue for are exactly those that
are held in the queue and those that are in flight. A key has an amount pending exactly
while a worker holds a reservation for it, and what is written for a request is the managed
secret of the request.

Main statement: `sound_run?`.
-/

namespace IngressTls.Floor

/-! ## The invariant -/

/-- What every step preserves. -/
structure Sound (f : Floor) : Prop where
  /-- The keys of the queue are tidy. -/
  tidy : f.manager.queue.Tidy
  /-- The held keys are those that workers issue for. -/
  held : ∀ k, k ∈ f.manager.queue.held ↔ f.Busy k
  /-- The keys in flight are those that workers issue for. -/
  inFlight : ∀ k, f.manager.inFlight.has k = true ↔ f.Busy k
  /-- No two workers issue for one key. -/
  apart : f.Apart
  /-- A stored request stands under its key. -/
  keyed : ∀ k r, f.manager.requests.find? k = some r → r.key = k
  /-- The amount of a reservation is pending. -/
  reserved : ∀ i r, (f.post i).reservation? = some r →
    f.manager.quota.pending.find? r.key = some (r.domains.size : Int)
  /-- Nothing else is pending. -/
  unreserved : ∀ k, (∀ i r, (f.post i).reservation? = some r → r.key ≠ k) →
    f.manager.quota.pending.find? k = none
  /-- A disabled quota has nothing acquired and nothing pending. -/
  disabled : f.manager.quota.max ≤ 0 → ∀ k,
    f.manager.quota.acquired.find? k = none ∧ f.manager.quota.pending.find? k = none
  /-- What is written for a request is its managed secret. -/
  written : ∀ i r s a, f.post i = .storing r s a →
    ∃ c, s = managedSecret r c f.manager.settings.controllerName

theorem Sound.pending_eq_none {f : Floor} (h : f.Sound) {k : String} (hk : ¬ f.Busy k) :
    f.manager.quota.pending.find? k = none := by
  refine h.unreserved k fun i r hr hrk => hk ⟨i, ?_⟩
  rw [← hrk]
  exact keyAt_of_request (request_of_reservation hr)

/-- A worker that issues for a key and has reserved nothing leaves nothing pending for it. -/
theorem Sound.pending_eq_none_of_unreserved {f : Floor} (h : f.Sound) {i : Nat} {r : Request}
    (hi : (f.post i).request? = some r) (hnone : (f.post i).reservation? = none) :
    f.manager.quota.pending.find? r.key = none := by
  refine h.unreserved r.key fun j r' hr hkey => ?_
  have hj := keyAt_of_request (request_of_reservation hr)
  have hji : j = i := h.apart j i r.key (hkey ▸ hj) (keyAt_of_request hi)
  rw [hji, hnone] at hr
  cases hr

/-- A worker has given its reservation up, and nothing is pending for its key: the reservations of
the others are pending as before. -/
theorem Sound.reserved_without {f : Floor} (h : f.Sound) {i : Nat} {r : Request} {p : Post}
    {q : Quota} (hi : (f.post i).request? = some r) (hp : p.reservation? = none)
    (hq : ∀ k, q.pending.find? k = if k = r.key then none else f.manager.quota.pending.find? k) :
    ∀ j r', ((f.setPost i p).post j).reservation? = some r' →
      q.pending.find? r'.key = some (r'.domains.size : Int) := by
  intro j r' hr'
  rw [post_setPost (ne_ended_of_request hi)] at hr'
  split at hr'
  · rw [hp] at hr'
    cases hr'
  · next hj =>
      have hkey : r'.key ≠ r.key := fun hkey =>
        hj (h.apart j i r.key (hkey ▸ keyAt_of_request (request_of_reservation hr'))
          (keyAt_of_request hi))
      rw [hq, if_neg hkey]
      exact h.reserved j r' hr'

theorem Sound.unreserved_without {f : Floor} (h : f.Sound) {i : Nat} {r : Request} {p : Post}
    {q : Quota} (hi : (f.post i).request? = some r)
    (hq : ∀ k, q.pending.find? k = if k = r.key then none else f.manager.quota.pending.find? k) :
    ∀ k, (∀ j r', ((f.setPost i p).post j).reservation? = some r' → r'.key ≠ k) →
      q.pending.find? k = none := by
  intro k hk
  rw [hq]
  split
  · rfl
  · next hkr =>
      refine h.unreserved k fun j r' hr' hkey => ?_
      by_cases hj : j = i
      · -- its own reservation was for the key that is left out
        subst hj
        rw [request_of_reservation hr'] at hi
        cases hi
        exact hkr hkey.symm
      · refine hk j r' ?_ hkey
        rw [post_setPost (ne_ended_of_request hi), if_neg hj]
        exact hr'

/-! ## Steps that leave most as it is -/

/-- The invariant only speaks of the manager and of where the workers stand. -/
theorem Sound.congr {f g : Floor} (h : f.Sound) (hm : g.manager = f.manager)
    (hp : g.posts = f.posts) : g.Sound := by
  obtain ⟨m, shelf, posts, timers, scan, journal⟩ := g
  subst hm hp
  exact ⟨h.tidy, h.held, h.inFlight, h.apart, h.keyed, h.reserved, h.unreserved, h.disabled,
    h.written⟩

/-- A step of the manager in which no worker moves. -/
theorem Sound.setManager {f : Floor} (h : f.Sound) {m : Manager} (htidy : m.queue.Tidy)
    (hheld : m.queue.held = f.manager.queue.held)
    (hinFlight : ∀ k, m.inFlight.has k = f.manager.inFlight.has k)
    (hkeyed : ∀ k r, m.requests.find? k = some r → r.key = k)
    (hpending : ∀ k, m.quota.pending.find? k = f.manager.quota.pending.find? k)
    (hmax : m.quota.max = f.manager.quota.max)
    (hacquired : f.manager.quota.max ≤ 0 → ∀ k, m.quota.acquired.find? k = none)
    (hsettings : m.settings = f.manager.settings) : (f.setManager m).Sound where
  tidy := htidy
  held := fun k => by
    show k ∈ m.queue.held ↔ f.Busy k
    rw [hheld]
    exact h.held k
  inFlight := fun k => by
    show m.inFlight.has k = true ↔ f.Busy k
    rw [hinFlight]
    exact h.inFlight k
  apart := h.apart
  keyed := hkeyed
  reserved := fun i r hr => (hpending r.key).trans (h.reserved i r hr)
  unreserved := fun k hk => (hpending k).trans (h.unreserved k hk)
  disabled := fun hdisabled k => by
    have hdisabled : f.manager.quota.max ≤ 0 := hmax ▸ hdisabled
    exact ⟨hacquired hdisabled k, (hpending k).trans (h.disabled hdisabled k).2⟩
  written := fun i r s a hpost => by
    obtain ⟨c, hc⟩ := h.written i r s a hpost
    exact ⟨c, hc.trans (by rw [← hsettings]; rfl)⟩

/-- A worker goes on with its key, and with its reservation if it has one. -/
theorem Sound.setPost {f : Floor} (h : f.Sound) {i : Nat} (hi : f.post i ≠ .ended) {p : Post}
    (hrequest : p.request? = (f.post i).request?)
    (hreservation : p.reservation? = (f.post i).reservation?)
    (hwritten : ∀ r s a, p = .storing r s a →
      ∃ c, s = managedSecret r c f.manager.settings.controllerName) :
    (f.setPost i p).Sound := by
  have hres : ∀ j, ((f.setPost i p).post j).reservation? = (f.post j).reservation? := by
    intro j
    rw [post_setPost hi]
    split
    · next hj => rw [hj, hreservation]
    · rfl
  constructor
  · exact h.tidy
  · intro k
    rw [busy_setPost_same hi hrequest]
    exact h.held k
  · intro k
    rw [busy_setPost_same hi hrequest]
    exact h.inFlight k
  · refine h.apart.setPost hi fun k hk => Or.inl ?_
    rw [keyAt, ← hrequest, hk]
  · exact h.keyed
  · intro j r hr
    rw [hres] at hr
    exact h.reserved j r hr
  · intro k hk
    refine h.unreserved k fun j r hr => hk j r ?_
    rw [hres]
    exact hr
  · exact h.disabled
  · intro j r s a hpost
    rw [post_setPost hi] at hpost
    split at hpost
    · exact hwritten r s a hpost
    · exact h.written j r s a hpost

/-- A worker without a key ends. -/
theorem Sound.leave {f : Floor} (h : f.Sound) {i : Nat} (hi : f.post i = .idle) :
    (f.setPost i .ended).Sound := by
  refine h.setPost (ne_ended_of_idle hi) ?_ ?_ ?_
  · rw [hi]
    rfl
  · rw [hi]
    rfl
  · intro r s a heq
    cases heq

/-! ## Starting -/

/-- A worker takes a key with its request. -/
theorem Sound.start {f : Floor} (h : f.Sound) {i : Nat} (hi : f.post i = .idle) {m : Manager}
    {k : String} (ht : f.manager.take i = (m, .key k)) {r : Request}
    (hr : f.manager.requests.find? k = some r) :
    ((f.setManager (m.startOn k).1).setPost i (.reading r none)).Sound := by
  obtain ⟨q, hq, rfl⟩ := Manager.take_eq ht
  obtain ⟨htidy, hnew, hheld, -, -⟩ := h.tidy.take_key hq
  have hkey : r.key = k := h.keyed k r hr
  have hfree : ¬ f.Busy k := fun hbusy => hnew ((h.held k).2 hbusy)
  have hne := ne_ended_of_idle hi
  -- the key joins the busy ones, and no reservation comes or goes
  have hbusy : ∀ j, (f.setPost i (.reading r none)).Busy j ↔ j = k ∨ f.Busy j := by
    intro j
    rw [busy_setPost_start hi (r := r) rfl, hkey]
  have hres : ∀ j, ((f.setPost i (.reading r none)).post j).reservation? =
      (f.post j).reservation? := by
    intro j
    rw [post_setPost hne]
    split
    · next hj =>
        rw [hj, hi]
        rfl
    · rfl
  constructor
  · exact htidy
  · intro j
    show j ∈ q.held ↔ (f.setPost i (.reading r none)).Busy j
    rw [hheld, hbusy, List.mem_cons, h.held]
  · intro j
    show (f.manager.inFlight.insert k false).has j = true ↔ (f.setPost i (.reading r none)).Busy j
    rw [hbusy, Table.has_insert, Bool.or_eq_true, decide_eq_true_iff, h.inFlight]
  · -- a key that is handed out was not held, and so nobody issued for it
    refine Apart.setPost h.apart hne fun j hj => Or.inr ?_
    cases hj
    rwa [hkey]
  · intro j r' hr'
    change (f.manager.requests.erase k).find? j = some r' at hr'
    exact h.keyed j r' (Table.find?_erase_eq_some.1 hr').2
  · intro j r' hr'
    exact h.reserved j r' ((hres j).symm.trans hr')
  · intro j hj
    exact h.unreserved j fun a r' hr' => hj a r' ((hres a).trans hr')
  · exact h.disabled
  · intro j r' s a hpost
    change (f.setPost i (.reading r none)).post j = .storing r' s a at hpost
    rw [post_setPost hne] at hpost
    split at hpost
    · cases hpost
    · exact h.written j r' s a hpost

/-! ## Reserving and ending -/

/-- The hosts of a request are reserved. -/
theorem Sound.reserve {f : Floor} (h : f.Sound) {i : Nat} {r : Request}
    {a : Except Error (Option Secret)} (hi : f.post i = .reading r (some a)) {q : Quota}
    (hq : f.manager.quota.reserve r.key r.domains.size = .ok q) :
    ((f.setManager { f.manager with quota := q }).setPost i (.ordering r)).Sound := by
  obtain ⟨henabled, -, rfl⟩ := Quota.reserve_eq_ok hq
  have hrequest : (f.post i).request? = some r := by
    rw [hi]
    rfl
  have hne := ne_ended_of_request hrequest
  have hsame : (Post.ordering r).request? = (f.post i).request? := hrequest.symm
  constructor
  · exact h.tidy
  · intro k
    exact (h.held k).trans (busy_setPost_same hne hsame k).symm
  · intro k
    exact (h.inFlight k).trans (busy_setPost_same hne hsame k).symm
  · refine Apart.setPost h.apart hne fun k hk => Or.inl ?_
    cases hk
    exact keyAt_of_request hrequest
  · exact h.keyed
  · intro j r' hr'
    change ((f.setPost i (.ordering r)).post j).reservation? = some r' at hr'
    rw [post_setPost hne] at hr'
    show (f.manager.quota.pending.insert r.key _).find? r'.key = _
    rw [Table.find?_insert]
    split at hr'
    · cases hr'
      rw [if_pos rfl]
    · next hj =>
        -- another worker has reserved for another key
        have hkey : r'.key ≠ r.key := fun hkey =>
          hj (h.apart j i r.key (hkey ▸ keyAt_of_request (request_of_reservation hr'))
            (keyAt_of_request hrequest))
        rw [if_neg hkey]
        exact h.reserved j r' hr'
  · intro k hk
    have hother : ∀ j r', j ≠ i → (f.post j).reservation? = some r' → r'.key ≠ k := by
      intro j r' hj hr'
      refine hk j r' ?_
      show ((f.setPost i (.ordering r)).post j).reservation? = some r'
      rw [post_setPost hne, if_neg hj]
      exact hr'
    have hself : r.key ≠ k := by
      refine hk i r ?_
      show ((f.setPost i (.ordering r)).post i).reservation? = some r
      rw [post_setPost hne, if_pos rfl]
      rfl
    show (f.manager.quota.pending.insert r.key _).find? k = none
    rw [Table.find?_insert, if_neg fun heq => hself heq.symm]
    refine h.unreserved k fun j r' hr' => ?_
    by_cases hj : j = i
    · rw [hj, hi] at hr'
      cases hr'
    · exact hother j r' hj hr'
  · -- a disabled quota reserves nothing
    intro hmax
    change f.manager.quota.max ≤ 0 at hmax
    omega
  · intro j r' s b hpost
    change (f.setPost i (.ordering r)).post j = .storing r' s b at hpost
    rw [post_setPost hne] at hpost
    split at hpost
    · cases hpost
    · exact h.written j r' s b hpost

/-- What a step leaves when a worker gives its reservation up or commits it. -/
structure Unreserved (m m' : Manager) (k : String) : Prop where
  /-- The queue stays. -/
  queue : m'.queue = m.queue
  /-- The stored requests stay. -/
  requests : m'.requests = m.requests
  /-- The settings stay. -/
  settings : m'.settings = m.settings
  /-- What else is in flight stays. -/
  inFlight : ∀ j, j ≠ k → m'.inFlight.has j = m.inFlight.has j
  /-- Nothing is pending for the key, and all else as before. -/
  pending : ∀ j, m'.quota.pending.find? j = if j = k then none else m.quota.pending.find? j
  /-- The ceiling stays. -/
  max : m'.quota.max = m.quota.max
  /-- A disabled quota has nothing acquired. -/
  disabled : m.quota.max ≤ 0 → ∀ j, m'.quota.acquired.find? j = none

theorem Sound.unreserved_self {f : Floor} (h : f.Sound) {k : String}
    (hk : f.manager.quota.pending.find? k = none) : Unreserved f.manager f.manager k where
  queue := rfl
  requests := rfl
  settings := rfl
  inFlight := fun _ _ => rfl
  pending := fun j => by
    split
    · next hj => rw [hj, hk]
    · rfl
  max := rfl
  disabled := fun hmax j => (h.disabled hmax j).1

theorem Sound.unreserved_rollback {f : Floor} (h : f.Sound) (r : Request) :
    Unreserved f.manager (f.manager.rollback r) r.key where
  queue := rfl
  requests := rfl
  settings := rfl
  inFlight := fun _ _ => rfl
  pending := Quota.pending_find?_rollback _ _
  max := rfl
  disabled := fun hmax j => (h.disabled hmax j).1

theorem Sound.unreserved_commit {f : Floor} (h : f.Sound) (r : Request) :
    Unreserved f.manager { f.manager with
      inFlight := f.manager.inFlight.erase r.key
      quota := f.manager.quota.commit r.key } r.key where
  queue := rfl
  requests := rfl
  settings := rfl
  inFlight := fun j hj => by
    rw [Table.has_erase]
    simp [hj]
  pending := Quota.pending_find?_commit _ _
  max := Quota.max_commit _ _
  disabled := fun hmax j => by
    show (f.manager.quota.commit r.key).acquired.find? j = none
    rw [Quota.commit_of_none (h.disabled hmax r.key).2]
    exact (h.disabled hmax j).1

/-- A worker has given its reservation up and goes on with its key. -/
theorem Sound.recall {f : Floor} (h : f.Sound) {i : Nat} {r : Request} {s : Secret}
    {a : Option (Except Error Unit)} (hi : f.post i = .storing r s a) :
    ((f.setManager (f.manager.rollback r)).setPost i (.withdrawing r none)).Sound := by
  have hrequest : (f.post i).request? = some r := by
    rw [hi]
    rfl
  have hne := ne_ended_of_request hrequest
  have hsame : (Post.withdrawing r none).request? = (f.post i).request? := hrequest.symm
  have hun := h.unreserved_rollback r
  constructor
  · exact h.tidy
  · intro k
    exact (h.held k).trans (busy_setPost_same hne hsame k).symm
  · intro k
    exact (h.inFlight k).trans (busy_setPost_same hne hsame k).symm
  · refine Apart.setPost h.apart hne fun k hk => Or.inl ?_
    cases hk
    exact keyAt_of_request hrequest
  · exact h.keyed
  · exact h.reserved_without hrequest rfl hun.pending
  · exact h.unreserved_without hrequest hun.pending
  · intro hmax k
    refine ⟨hun.disabled hmax k, (hun.pending k).trans ?_⟩
    split
    · rfl
    · exact (h.disabled hmax k).2
  · intro j r' s' b hpost
    change (f.setPost i (.withdrawing r none)).post j = .storing r' s' b at hpost
    rw [post_setPost hne] at hpost
    split at hpost
    · cases hpost
    · exact h.written j r' s' b hpost

/-- An issuance ends, whatever its outcome. -/
theorem Sound.conclude {f : Floor} (h : f.Sound) {i : Nat} {r : Request}
    (hi : (f.post i).request? = some r) {m : Manager} (hm : Unreserved f.manager m r.key)
    (result : Except Error Unit) : ((f.setManager m).conclude i r result).Sound := by
  have hne := ne_ended_of_request hi
  let m₁ := (m.settle r.key r result).1
  have hs : Manager.Settled m m₁ := Manager.settled_settle m r.key r result
  -- only the manager and the post count
  suffices hsound : ((f.setManager (m₁.finish r.key)).setPost i .idle).Sound from
    hsound.congr rfl rfl
  have hbusy : ∀ k, (f.setPost i .idle).Busy k ↔ k ≠ r.key ∧ f.Busy k :=
    busy_setPost_end h.apart hi rfl
  have hheld : m₁.queue.held = f.manager.queue.held := by rw [hs.held, hm.queue]
  have htidy : m₁.queue.Tidy :=
    h.tidy.congr (by rw [hs.ready, hm.queue]) (by rw [hs.dirty, hm.queue]) hheld
  have hself : r.key ∈ m₁.queue.held := by
    rw [hheld, h.held]
    exact ⟨i, keyAt_of_request hi⟩
  -- a release at the end gives back what is acquired and leaves what is pending
  have hpending : ∀ k, (m₁.finish r.key).quota.pending.find? k =
      if k = r.key then none else f.manager.quota.pending.find? k := by
    intro k
    rw [Manager.finish_quota, hs.quota]
    split
    · rw [Quota.pending_find?_release, hm.pending]
    · exact hm.pending k
  have hmax : (m₁.finish r.key).quota.max = f.manager.quota.max := by
    rw [Manager.finish_quota, hs.quota]
    split
    · rw [Quota.max_release, hm.max]
    · exact hm.max
  constructor
  · show (m₁.finish r.key).queue.Tidy
    rw [Manager.finish_queue]
    exact htidy.done hself
  · intro k
    show k ∈ (m₁.finish r.key).queue.held ↔ (f.setPost i .idle).Busy k
    rw [Manager.finish_queue, WorkQueue.done_held, htidy.held_nodup.mem_erase_iff, hheld, h.held,
      hbusy]
  · intro k
    show (m₁.finish r.key).inFlight.has k = true ↔ (f.setPost i .idle).Busy k
    rw [Manager.finish_inFlight, hs.inFlight, Table.has_erase, hbusy]
    by_cases hk : k = r.key
    · simp [hk]
    · rw [hm.inFlight k hk, ← h.inFlight]
      simp [hk]
  · refine Apart.setPost h.apart hne fun k hk => ?_
    cases hk
  · intro k r' hr'
    change (m₁.finish r.key).requests.find? k = some r' at hr'
    rw [Manager.finish_requests] at hr'
    -- a request that is stored again stands under its key once more
    rcases Manager.requests_settle hr' with hold | ⟨hk, hrr, -⟩
    · rw [hm.requests] at hold
      exact h.keyed k r' hold
    · rw [hk, hrr]
  · exact h.reserved_without hi rfl hpending
  · exact h.unreserved_without hi hpending
  · intro hdisabled k
    have hdisabled : f.manager.quota.max ≤ 0 := hmax ▸ hdisabled
    refine ⟨?_, ?_⟩
    · show (m₁.finish r.key).quota.acquired.find? k = none
      rw [Manager.finish_quota, hs.quota]
      split
      · rw [Quota.release_of_disabled (hm.max.symm ▸ hdisabled)]
        exact hm.disabled hdisabled k
      · exact hm.disabled hdisabled k
    · refine (hpending k).trans ?_
      split
      · rfl
      · exact (h.disabled hdisabled k).2
  · intro j r' s a hpost
    change (f.setPost i .idle).post j = .storing r' s a at hpost
    rw [post_setPost hne] at hpost
    split at hpost
    · cases hpost
    · obtain ⟨c, hc⟩ := h.written j r' s a hpost
      refine ⟨c, hc.trans ?_⟩
      show _ = managedSecret r' c (m₁.finish r.key).settings.controllerName
      rw [Manager.finish_settings, hs.settings, hm.settings]

/-! ## All steps -/

/-- Asking for certificates. -/
theorem Sound.obtainAll {f : Floor} (h : f.Sound) (rs : List Request) :
    (f.setManager (f.manager.obtainAll rs)).Sound := by
  obtain ⟨hheld, hinFlight, hquota, hsettings, htidy⟩ := Manager.obtainAll_facts f.manager rs
  refine h.setManager (htidy h.tidy) hheld ?_ ?_ ?_ ?_ ?_ hsettings
  · intro k
    rw [hinFlight]
  · intro k r hr
    rcases Manager.requests_obtainAll hr with ⟨-, hkey⟩ | hold
    · exact hkey
    · exact h.keyed k r hold
  · intro k
    rw [hquota]
  · rw [hquota]
  · intro hmax k
    rw [hquota]
    exact (h.disabled hmax k).1

theorem Sound.release {f : Floor} (h : f.Sound) (s : SecretRef) :
    (f.setManager (f.manager.release s)).Sound := by
  have hkeyed : ∀ k r, (f.manager.requests.erase s.key).find? k = some r → r.key = k :=
    fun k r hr => h.keyed k r (Table.find?_erase_eq_some.1 hr).2
  obtain ⟨hflight, heq⟩ | ⟨hflight, heq⟩ := Manager.release_cases f.manager s
  · rw [heq]
    refine h.setManager h.tidy rfl ?_ hkeyed (fun _ => rfl) rfl
      (fun hmax k => (h.disabled hmax k).1) rfl
    intro k
    show (f.manager.inFlight.insert s.key true).has k = f.manager.inFlight.has k
    rw [Table.has_insert]
    by_cases hk : k = s.key
    · rw [hk, hflight, Bool.or_true]
    · simp [hk]
  · rw [heq]
    refine h.setManager h.tidy rfl (fun _ => rfl) hkeyed ?_ ?_ ?_ rfl
    · intro k
      exact Quota.pending_find?_release _ _ _
    · exact Quota.max_release _ _
    · intro hmax k
      show (f.manager.quota.release s.key).acquired.find? k = none
      rw [Quota.release_of_disabled hmax]
      exact (h.disabled hmax k).1

/-- Taking a key without a request and being done with it at once changes neither the quota
nor what is in flight. -/
theorem Sound.skip_facts {f : Floor} (h : f.Sound) {i : Nat} {m : Manager} {k : String}
    (ht : f.manager.take i = (m, .key k)) :
    ((m.startOn k).1.finish k).quota = f.manager.quota ∧
      ∀ j, ((m.startOn k).1.finish k).inFlight.find? j = f.manager.inFlight.find? j := by
  obtain ⟨q, hq, rfl⟩ := Manager.take_eq ht
  obtain ⟨-, hnew, -⟩ := h.tidy.take_key hq
  -- the flag is set and erased again
  have hfree : f.manager.inFlight.find? k = none := by
    refine Table.has_eq_false_iff.1 ?_
    cases hk : f.manager.inFlight.has k with
    | false => rfl
    | true => exact absurd ((h.held k).2 ((h.inFlight k).1 hk)) hnew
  constructor
  · have hreleased : Manager.isReleased
        ((Manager.startOn { f.manager with queue := q } k).1) k = false := by
      rw [Manager.isReleased_eq_false]
      show (f.manager.inFlight.insert k false).find? k ≠ some true
      rw [Table.find?_insert, if_pos rfl]
      intro heq
      cases heq
    rw [Manager.finish_quota, hreleased]
    rfl
  · intro j
    rw [Manager.finish_inFlight, Table.find?_erase]
    split
    · next hj => rw [hj, hfree]
    · next hj =>
        show (f.manager.inFlight.insert k false).find? j = _
        rw [Table.find?_insert, if_neg hj]

/-- A worker takes a key without a request and is done with it at once. -/
theorem Sound.skip {f : Floor} (h : f.Sound) {i : Nat} {m : Manager} {k : String}
    (ht : f.manager.take i = (m, .key k)) :
    (f.setManager ((m.startOn k).1.finish k)).Sound := by
  obtain ⟨hquota, hinFlight⟩ := h.skip_facts ht
  obtain ⟨q, hq, rfl⟩ := Manager.take_eq ht
  obtain ⟨htidy, hnew, hheld, -, -⟩ := h.tidy.take_key hq
  refine h.setManager ?_ ?_ ?_ ?_ ?_ ?_ ?_ ?_
  · rw [Manager.finish_queue]
    refine htidy.done ?_
    show k ∈ q.held
    rw [hheld]
    exact List.mem_cons_self
  · rw [Manager.finish_queue, WorkQueue.done_held]
    show q.held.erase k = f.manager.queue.held
    rw [hheld, List.erase_cons_head]
  · intro j
    rw [Table.has, hinFlight, Table.has]
  · intro j r hr
    rw [Manager.finish_requests] at hr
    change (f.manager.requests.erase k).find? j = some r at hr
    exact h.keyed j r (Table.find?_erase_eq_some.1 hr).2
  · intro j
    rw [hquota]
  · rw [hquota]
  · intro hmax j
    rw [hquota]
    exact (h.disabled hmax j).1
  · rw [Manager.finish_settings]
    rfl

/-- A step of the queue that changes no held key. -/
theorem Sound.setQueue {f : Floor} (h : f.Sound) {q : WorkQueue} (htidy : q.Tidy)
    (hheld : q.held = f.manager.queue.held) :
    (f.setManager { f.manager with queue := q }).Sound :=
  h.setManager htidy hheld (fun _ => rfl) h.keyed (fun _ => rfl) rfl
    (fun hmax k => (h.disabled hmax k).1) rfl

/-- A worker gets no key. -/
theorem Sound.wait {f : Floor} (h : f.Sound) {i : Nat} {m : Manager} {taken : Taken}
    (ht : f.manager.take i = (m, taken)) (hnone : ∀ k, taken ≠ .key k) :
    (f.setManager m).Sound := by
  obtain ⟨q, hq, rfl⟩ := Manager.take_eq ht
  obtain ⟨hready, hdirty, hheld, -⟩ := WorkQueue.take_none hq hnone
  exact h.setQueue (h.tidy.congr hready hdirty hheld) hheld

/-- An answer waits for its worker. -/
theorem Sound.answerRead {f : Floor} (h : f.Sound) {i : Nat} {r : Request}
    {a : Option (Except Error (Option Secret))} (hi : f.post i = .reading r a)
    (b : Option (Except Error (Option Secret))) : (f.setPost i (.reading r b)).Sound := by
  refine h.setPost ?_ ?_ ?_ ?_
  · rw [hi]
    intro heq
    cases heq
  · rw [hi]
    rfl
  · rw [hi]
    rfl
  · intro r' s c heq
    cases heq

theorem Sound.answerStore {f : Floor} (h : f.Sound) {i : Nat} {r : Request} {s : Secret}
    {a : Option (Except Error Unit)} (hi : f.post i = .storing r s a)
    (b : Option (Except Error Unit)) : (f.setPost i (.storing r s b)).Sound := by
  refine h.setPost ?_ ?_ ?_ ?_
  · rw [hi]
    intro heq
    cases heq
  · rw [hi]
    rfl
  · rw [hi]
    rfl
  · intro r' s' c heq
    cases heq
    exact h.written i r s a hi

theorem Sound.answerWithdraw {f : Floor} (h : f.Sound) {i : Nat} {r : Request}
    {a : Option (Except Error Unit)} (hi : f.post i = .withdrawing r a)
    (b : Option (Except Error Unit)) : (f.setPost i (.withdrawing r b)).Sound := by
  refine h.setPost ?_ ?_ ?_ ?_
  · rw [hi]
    intro heq
    cases heq
  · rw [hi]
    rfl
  · rw [hi]
    rfl
  · intro r' s c heq
    cases heq

/-- The certificate is there, and its secret is to be written. -/
theorem Sound.order {f : Floor} (h : f.Sound) {i : Nat} {r : Request}
    (hi : f.post i = .ordering r) (c : Certificate) :
    (f.setPost i (.storing r (managedSecret r c f.manager.settings.controllerName) none)).Sound := by
  refine h.setPost ?_ ?_ ?_ ?_
  · rw [hi]
    intro heq
    cases heq
  · rw [hi]
    rfl
  · rw [hi]
    rfl
  · intro r' s b heq
    cases heq
    exact ⟨c, rfl⟩

theorem Sound.move {f g : Floor} (h : f.Sound) (hm : Move f g) : g.Sound := by
  cases hm with
  | waited idle taken => exact h.wait taken fun k heq => by cases heq
  | left idle taken => exact (h.wait taken fun k heq => by cases heq).leave idle
  | skipped idle taken none => exact h.skip taken
  | started idle taken some => exact h.start idle taken some
  | read service reading => exact (h.answerRead reading _).congr rfl rfl
  | wrote storing effect => exact (h.answerStore storing _).congr rfl rfl
  | unwritten storing effect => exact (h.answerStore storing _).congr rfl rfl
  | withdrew withdrawing effect => exact (h.answerWithdraw withdrawing _).congr rfl rfl
  | unwithdrawn withdrawing effect => exact (h.answerWithdraw withdrawing _).congr rfl rfl
  | @failed i r a e reading =>
      have hi : (f.post i).request? = some r := by
        rw [reading]
        rfl
      have hnone : (f.post i).reservation? = none := by
        rw [reading]
        rfl
      exact h.conclude hi (h.unreserved_self (h.pending_eq_none_of_unreserved hi hnone)) _
  | reserved reading ours ok => exact h.reserve reading ok
  | @gaveUp i r result standing why =>
      have hi := request_of_standing standing
      exact h.conclude hi (h.unreserved_rollback r) _
  | ordered certificate ordering unreleased => exact h.order ordering certificate
  | recalled storing released => exact h.recall storing
  | @stored i r s storing unreleased =>
      have hi : (f.post i).request? = some r := by
        rw [storing]
        rfl
      exact h.conclude hi (h.unreserved_commit r) _
  | @cleared i r a withdrawing =>
      have hi : (f.post i).request? = some r := by
        rw [withdrawing]
        rfl
      have hnone : (f.post i).reservation? = none := by
        rw [withdrawing]
        rfl
      exact h.conclude hi (h.unreserved_self (h.pending_eq_none_of_unreserved hi hnone)) _
  | rang timer => exact (h.setQueue (h.tidy.add _) (WorkQueue.add_held _ _)).congr rfl rfl
  | listed unlisted => exact h.congr rfl rfl
  | @renewed listing threshold now scan =>
      let due := listing.filterMap (f.manager.due? threshold now)
      refine (h.obtainAll (due.map Bookkeeping.toRequest)).congr ?_ rfl
      exact Manager.afterRenewalListing_fst f.manager threshold now listing
  | asked r => exact (h.obtainAll [r]).congr rfl rfl
  | released s => exact (h.release s).congr rfl rfl
  | looked s => exact h.congr rfl rfl
  | removed s => exact h.congr rfl rfl
  | placed named => exact h.congr rfl rfl
  | stopped => exact (h.setQueue h.tidy.close rfl).congr rfl rfl

theorem sound_run? {f g : Floor} {es : List FloorEvent} (h : f.Sound)
    (hrun : f.run? es = some g) : g.Sound := by
  induction es generalizing f with
  | nil =>
      cases hrun
      exact h
  | cons e es ih =>
      rw [run?_cons] at hrun
      obtain ⟨f', hstep, hrest⟩ := Option.bind_eq_some_iff.1 hrun
      exact ih (h.move (move_of_step? hstep)) hrest

end IngressTls.Floor
