import IngressTls.Proofs.Manager.Finality

set_option autoImplicit false

/-! # Attempts and their outcomes

A worker's attempt at a request begins when it takes the key and ends with an outcome. What a step
does to the demand for a key that is neither asked for nor released meanwhile is one of three: it
leaves it as it is, a worker takes the stored request, or a worker's attempt ends and its outcome is
settled. In particular, only attempts for the key change its count of failures.

Main statement: `errand_step`.
-/

namespace IngressTls

/-- The outcome of an attempt that goes on as the manager says, if it ends. -/
def Progress.outcome? : Progress → Option (Except Error Unit)
  | ended result => some result
  | order | store _ | withdraw => none

namespace WorkQueue

@[simp] theorem failures_add (q : WorkQueue) (k : String) : (q.add k).failures = q.failures := by
  rw [add]
  split_ifs
  · rfl
  · rfl
  · rfl

@[simp] theorem failures_done (q : WorkQueue) (k : String) : (q.done k).failures = q.failures := by
  simp only [done]
  split_ifs
  · rfl
  · rfl

theorem failuresOf_take {q q' : WorkQueue} {worker : Nat} {taken : Taken}
    (h : q.take worker = (q', taken)) (k : String) : q'.failuresOf k = q.failuresOf k := by
  obtain ⟨-, -, rfl⟩ | ⟨-, -, -, rfl⟩ | ⟨_, _, _, -, -, -, rfl⟩ := take_cases h
  · rfl
  · rfl
  · rfl

end WorkQueue

namespace Manager

theorem failures_obtainAll (m : Manager) (rs : List Request) :
    (m.obtainAll rs).queue.failures = m.queue.failures := by
  induction rs generalizing m with
  | nil => rfl
  | cons r rs ih =>
      show ((m.obtain r).obtainAll rs).queue.failures = _
      rw [ih]
      exact WorkQueue.failures_add _ _

/-- A settlement leaves the stored requests and the failures of other keys. -/
theorem settle_other {m : Manager} {j k : String} (hk : k ≠ j) (r : Request)
    (result : Except Error Unit) :
    (m.settle j r result).1.requests.find? k = m.requests.find? k ∧
      (m.settle j r result).1.queue.failuresOf k = m.queue.failuresOf k := by
  obtain heq | ⟨-, -, heq⟩ := settle_cases m j r result
  · rw [heq]
    refine ⟨rfl, ?_⟩
    show ((m.queue.failures.erase j).find? k).getD 0 = _
    rw [Table.find?_erase, if_neg hk]
    rfl
  · rw [heq]
    constructor
    · show (if m.requests.has j then m.requests else m.requests.insert j r).find? k = _
      split_ifs
      · rfl
      · rw [Table.find?_insert, if_neg hk]
    · show ((m.queue.failures.insert j (m.queue.failuresOf j + 1)).find? k).getD 0 = _
      rw [Table.find?_insert, if_neg hk]
      rfl

/-- What a worker's answer does to the manager before the outcome is settled, if there is one: only
the quota changes, and a key whose secret is stored is in flight no more. -/
structure Handles (m : Manager) (r : Request) (next : Manager × Progress) : Prop where
  requests : next.1.requests = m.requests
  queue : next.1.queue = m.queue
  settings : next.1.settings = m.settings
  others : ∀ j, j ≠ r.key → next.1.inFlight.find? j = m.inFlight.find? j
  inFlight : next.2 ≠ .ended (.ok ()) → next.1.inFlight = m.inFlight

theorem handles_setQuota (m : Manager) (r : Request) (q : Quota) (progress : Progress) :
    m.Handles r ({ m with quota := q }, progress) :=
  ⟨rfl, rfl, rfl, fun _ _ => rfl, fun _ => rfl⟩

theorem handles_afterRead (m : Manager) (r : Request) (a : Except Error (Option Secret)) :
    m.Handles r (m.afterRead r a) := by
  obtain ⟨e, heq⟩ | ⟨existing, q, -, -, -, heq⟩ := m.afterRead_cases r a
  · rw [heq]
    exact m.handles_setQuota r m.quota _
  · rw [heq]
    exact m.handles_setQuota r q _

theorem handles_afterOrder (m : Manager) (r : Request) (a : Except AuthorityError Certificate) :
    m.Handles r (m.afterOrder r a) := by
  obtain ⟨result, heq, -⟩ | ⟨c, -, -, heq⟩ := m.afterOrder_cases r a
  · rw [heq]
    exact m.handles_setQuota r _ _
  · rw [heq]
    exact m.handles_setQuota r m.quota _

theorem handles_afterStore (m : Manager) (r : Request) (a : Except Error Unit) :
    m.Handles r (m.afterStore r a) := by
  obtain ⟨e, -, heq⟩ | ⟨-, -, heq⟩ | ⟨-, -, heq⟩ := m.afterStore_cases r a
  · rw [heq]
    exact m.handles_setQuota r _ _
  · rw [heq]
    exact m.handles_setQuota r _ _
  · rw [heq]
    refine ⟨rfl, rfl, rfl, fun j hj => ?_, fun hne => absurd rfl hne⟩
    show (m.inFlight.erase r.key).find? j = _
    rw [Table.find?_erase, if_neg hj]

theorem handles_afterWithdraw (m : Manager) (r : Request) (a : Except Error Unit) :
    m.Handles r (m.afterWithdraw a) :=
  m.handles_setQuota r m.quota _

end Manager

namespace Floor

variable {f g : Floor} {k : String}

/-! ## Outcomes -/

/-- The request of an attempt that an event ends, and its outcome. -/
def outcome? (f : Floor) : FloorEvent → Option (Request × Except Error Unit)
  | .resume i =>
    match f.post i with
    | .reading r (some a) => (f.manager.afterRead r a).2.outcome?.map (r, ·)
    | .storing r _ (some a) => (f.manager.afterStore r a).2.outcome?.map (r, ·)
    | .withdrawing r (some a) => (f.manager.afterWithdraw a).2.outcome?.map (r, ·)
    | _ => none
  | .order i a =>
    match f.post i with
    | .ordering r => (f.manager.afterOrder r a).2.outcome?.map (r, ·)
    | _ => none
  | .take _ | .serve _ _ | .ring _ | .list | .renew _ | .obtain _ | .release _ | .look _
  | .remove _ | .put _ | .stop => none

/-- The outcome of an attempt for a key that an event ends. -/
def outcomeFor (f : Floor) (k : String) (e : FloorEvent) : Option (Except Error Unit) :=
  match f.outcome? e with
  | none => none
  | some (r, result) => if r.key = k then some result else none

/-- The outcomes of all attempts for a key, in their order. -/
def attempts (f : Floor) (k : String) : List FloorEvent → List (Except Error Unit)
  | [] => []
  | e :: es =>
    match f.step? e with
    | none => []
    | some g => (f.outcomeFor k e).toList ++ g.attempts k es

/-! ## What a step does to the demand for a key -/

/-- What a step does to the demand for a key, given the outcome of the attempt that it ends. -/
inductive Errand (f g : Floor) (k : String) : Option (Except Error Unit) → Prop where
  | kept (requests : g.manager.requests.find? k = f.manager.requests.find? k)
      (busy : g.Busy k ↔ f.Busy k)
      (flag : g.manager.inFlight.find? k = f.manager.inFlight.find? k)
      (failures : g.manager.queue.failuresOf k = f.manager.queue.failuresOf k) : Errand f g k none
  /-- A worker takes the stored request. -/
  | taken (stored : f.manager.requests.has k = true) (free : ¬ f.Busy k)
      (gone : g.manager.requests.find? k = none) (busy : g.Busy k)
      (flag : g.manager.inFlight.find? k = some false)
      (failures : g.manager.queue.failuresOf k = f.manager.queue.failuresOf k) : Errand f g k none
  /-- An attempt ends, and its outcome is settled. -/
  | ended {r : Request} {m : Manager} {result : Except Error Unit} (busy : f.Busy k)
      (free : ¬ g.Busy k) (handled : f.manager.Handles r (m, .ended result)) (key : r.key = k)
      (requests : g.manager.requests = (m.settle k r result).1.requests)
      (failures : g.manager.queue.failures = (m.settle k r result).1.queue.failures) :
      Errand f g k (some result)

theorem Errand.of_manager (hmanager : g.manager = f.manager) (hposts : g.Busy k ↔ f.Busy k) :
    Errand f g k none :=
  .kept (by rw [hmanager]) hposts (by rw [hmanager]) (by rw [hmanager])

/-- A worker has been answered and goes on with its request. -/
theorem Errand.of_served {i : Nat} {p : Post} {r : Request} (hmanager : g.manager = f.manager)
    (hposts : g.posts = (f.setPost i p).posts) (hi : (f.post i).request? = some r)
    (hp : p.request? = some r) : Errand f g k none := by
  have hbusy : g.Busy k ↔ (f.setPost i p).Busy k := by simp only [Busy, keyAt, post, hposts]
  exact .of_manager hmanager
    (hbusy.trans (busy_setPost_same (ne_ended_of_request hi) (hp.trans hi.symm) k))

theorem requests_conclude (f : Floor) (i : Nat) (r : Request) (result : Except Error Unit) :
    (f.conclude i r result).manager.requests = (f.manager.settle r.key r result).1.requests :=
  Manager.finish_requests _ _

theorem failures_conclude (f : Floor) (i : Nat) (r : Request) (result : Except Error Unit) :
    (f.conclude i r result).manager.queue.failures =
      (f.manager.settle r.key r result).1.queue.failures := by
  show ((f.manager.settle r.key r result).1.finish r.key).queue.failures = _
  rw [Manager.finish_queue, WorkQueue.failures_done]

/-- An attempt ends. -/
theorem errand_conclude (hs : f.Sound) {i : Nat} {r : Request} {m : Manager}
    {result : Except Error Unit} (hi : (f.post i).request? = some r)
    (hm : f.manager.Handles r (m, .ended result)) :
    Errand f ((f.setManager m).conclude i r result) k
      (if r.key = k then some result else none) := by
  have hrequests := requests_conclude (f.setManager m) i r result
  have hfailures := failures_conclude (f.setManager m) i r result
  have hbusy := busy_setPost_end hs.apart hi (p := .idle) rfl k
  split_ifs with hk
  · subst hk
    exact .ended ⟨i, keyAt_of_request hi⟩ (fun hg => (hbusy.1 hg).1 rfl) hm rfl hrequests hfailures
  · have hne : k ≠ r.key := Ne.symm hk
    obtain ⟨hstored, hcount⟩ := Manager.settle_other (m := m) hne r result
    refine .kept ?_ (hbusy.trans (and_iff_right hne)) ?_ ?_
    · rw [hrequests]
      exact hstored.trans (by rw [hm.requests])
    · rw [inFlight_conclude]
      show (m.inFlight.erase r.key).find? k = _
      rw [Table.find?_erase, if_neg hne, hm.others k hne]
    · rw [WorkQueue.failuresOf, hfailures]
      exact hcount.trans (by rw [hm.queue])

/-- An attempt goes on or ends, as the manager says. -/
theorem errand_advance (hs : f.Sound) {i : Nat} {r : Request} {next : Manager × Progress}
    (hi : (f.post i).request? = some r) (hm : f.manager.Handles r next) :
    Errand f (f.advance i r next) k
      (match next.2.outcome?.map (r, ·) with
        | none => none
        | some (r, result) => if r.key = k then some result else none) := by
  obtain ⟨m, progress⟩ := next
  -- a worker that goes on issues for the same request
  have hgoes : ∀ p : Post, p.request? = some r → progress ≠ .ended (.ok ()) →
      Errand f ((f.setManager m).setPost i p) k none := by
    intro p hp hprogress
    refine .kept ?_ (busy_setPost_same (ne_ended_of_request hi) (hp.trans hi.symm) k) ?_ ?_
    · exact congrArg (·.find? k) hm.requests
    · exact congrArg (·.find? k) (hm.inFlight hprogress)
    · exact congrArg (·.failuresOf k) hm.queue
  cases progress with
  | order => exact hgoes _ rfl (by simp)
  | store sec => exact hgoes _ rfl (by simp)
  | withdraw => exact hgoes _ rfl (by simp)
  | ended result => exact errand_conclude hs hi hm

/-- A worker looks for a key. -/
theorem errand_begin (hs : f.Sound) {i : Nat} (hi : f.post i = .idle) :
    Errand f (f.begin i) k none := by
  have hbegun := begun f i
  generalize f.begin i = g at hbegun
  have hne := ne_ended_of_idle hi
  cases hbegun with
  | waited taken =>
      obtain ⟨q, hq, rfl⟩ := Manager.take_eq taken
      exact .kept rfl Iff.rfl rfl (WorkQueue.failuresOf_take hq k)
  | left taken =>
      obtain ⟨q, hq, rfl⟩ := Manager.take_eq taken
      refine .kept rfl (busy_setPost_same hne ?_ k) rfl (WorkQueue.failuresOf_take hq k)
      rw [hi]
      rfl
  | @skipped m j taken none =>
      obtain ⟨-, hinFlight⟩ := hs.skip_facts taken
      obtain ⟨q, hq, rfl⟩ := Manager.take_eq taken
      refine .kept ?_ Iff.rfl (hinFlight k) ?_
      · show ((Manager.startOn { f.manager with queue := q } j).1.finish j).requests.find? k = _
        rw [Manager.finish_requests]
        show (f.manager.requests.erase j).find? k = _
        rw [Table.find?_erase]
        split_ifs with hk
        · rw [hk, none]
        · rfl
      · show ((Manager.startOn { f.manager with queue := q } j).1.finish j).queue.failuresOf k = _
        rw [Manager.finish_queue, WorkQueue.failuresOf, WorkQueue.failures_done]
        exact WorkQueue.failuresOf_take hq k
  | @started m j r taken some =>
      obtain ⟨q, hq, rfl⟩ := Manager.take_eq taken
      obtain ⟨-, hnew, -⟩ := hs.tidy.take_key hq
      have hkey : r.key = j := hs.keyed j r some
      have hbusy := busy_setPost_start hi (p := .reading r .none) rfl k
      have hcount := WorkQueue.failuresOf_take hq k
      by_cases hk : k = j
      · subst hk
        refine .taken ?_ (fun hf => hnew ((hs.held k).2 hf)) ?_ (hbusy.2 (Or.inl hkey.symm)) ?_
          hcount
        · rw [Table.has, some]
          rfl
        · show (f.manager.requests.erase k).find? k = _
          rw [Table.find?_erase, if_pos rfl]
        · show (f.manager.inFlight.insert k false).find? k = _
          rw [Table.find?_insert, if_pos rfl]
      · have hother : k ≠ r.key := hkey ▸ hk
        refine .kept ?_ (hbusy.trans (or_iff_right hother)) ?_ hcount
        · show (f.manager.requests.erase j).find? k = _
          rw [Table.find?_erase, if_neg hk]
        · show (f.manager.inFlight.insert j false).find? k = _
          rw [Table.find?_insert, if_neg hk]

/-- What a step does to the demand for a key that is neither asked for nor released by it. -/
theorem errand_step {e : FloorEvent} {d : List Deed} (hs : f.Sound) (hstep : f.step? e = some g)
    (hd : g.journal = d ++ f.journal) (hquiet : ∀ x ∈ d, ¬ x.IsFor k) :
    Errand f g k (f.outcomeFor k e) := by
  cases turn_of_step? hstep with
  | began idle awake => exact errand_begin hs idle
  | @informed i r a reading =>
      have hi : (f.post i).request? = some r := by rw [reading]; rfl
      rw [outcomeFor, outcome?, reading]
      exact errand_advance hs hi (f.manager.handles_afterRead r a)
  | @stored i r sec a storing =>
      have hi : (f.post i).request? = some r := by rw [storing]; rfl
      rw [outcomeFor, outcome?, storing]
      exact errand_advance hs hi (f.manager.handles_afterStore r a)
  | @cleared i r a withdrawing =>
      have hi : (f.post i).request? = some r := by rw [withdrawing]; rfl
      rw [outcomeFor, outcome?, withdrawing]
      exact errand_advance hs hi (f.manager.handles_afterWithdraw r a)
  | @ordered i r a ordering =>
      have hi : (f.post i).request? = some r := by rw [ordering]; rfl
      rw [outcomeFor, outcome?, ordering]
      exact errand_advance hs hi (f.manager.handles_afterOrder r a)
  | read service reading => exact .of_served rfl rfl (by rw [reading]; rfl) rfl
  | wrote storing effect => exact .of_served rfl rfl (by rw [storing]; rfl) rfl
  | unwritten storing effect => exact .of_served rfl rfl (by rw [storing]; rfl) rfl
  | withdrew withdrawing effect => exact .of_served rfl rfl (by rw [withdrawing]; rfl) rfl
  | unwithdrawn withdrawing effect => exact .of_served rfl rfl (by rw [withdrawing]; rfl) rfl
  | rang timer =>
      refine .kept rfl Iff.rfl rfl ?_
      exact congrArg (fun t : Table Nat => (t.find? k).getD 0) (WorkQueue.failures_add _ _)
  | listed unlisted => exact .of_manager rfl Iff.rfl
  | @renewed listing threshold now scan valid =>
      let due := listing.filterMap (f.manager.due? threshold now)
      obtain ⟨-, hinFlight, -⟩ :=
        Manager.obtainAll_facts f.manager (due.map Bookkeeping.toRequest)
      have hfailures := Manager.failures_obtainAll f.manager (due.map Bookkeeping.toRequest)
      have hm := Manager.afterRenewalListing_fst f.manager threshold now listing
      refine .kept (requests_renew hd hquiet) Iff.rfl ?_ ?_
      · show (f.manager.afterRenewalListing threshold now (.ok listing)).1.inFlight.find? k = _
        rw [hm, hinFlight]
      · show (f.manager.afterRenewalListing threshold now
          (.ok listing)).1.queue.failuresOf k = _
        rw [hm, WorkQueue.failuresOf, hfailures]
        rfl
  | asked r =>
      have heq : d = [.asked r] := (List.append_left_inj f.journal).1 hd.symm
      have hne : k ≠ r.key := fun hk => hquiet (.asked r) (by simp [heq]) hk.symm
      refine .kept ?_ Iff.rfl rfl ?_
      · show (f.manager.obtain r).requests.find? k = _
        rw [Manager.obtain_requests, if_neg hne]
      · exact congrArg (fun t : Table Nat => (t.find? k).getD 0) (WorkQueue.failures_add _ _)
  | released s =>
      have heq : d = [.released s] := (List.append_left_inj f.journal).1 hd.symm
      have hne : k ≠ s.key := fun hk => hquiet (.released s) (by simp [heq]) hk.symm
      obtain ⟨-, heq⟩ | ⟨-, heq⟩ := Manager.release_cases f.manager s
      · refine .kept ?_ Iff.rfl ?_ ?_
        · show (f.manager.release s).requests.find? k = _
          rw [heq]
          exact (Table.find?_erase _ _ _).trans (if_neg hne)
        · show (f.manager.release s).inFlight.find? k = _
          rw [heq]
          exact (Table.find?_insert _ _ _ _).trans (if_neg hne)
        · show (f.manager.release s).queue.failuresOf k = _
          rw [heq]
      · refine .kept ?_ Iff.rfl ?_ ?_
        · show (f.manager.release s).requests.find? k = _
          rw [heq]
          exact (Table.find?_erase _ _ _).trans (if_neg hne)
        · show (f.manager.release s).inFlight.find? k = _
          rw [heq]
        · show (f.manager.release s).queue.failuresOf k = _
          rw [heq]
  | looked s => exact .of_manager rfl Iff.rfl
  | removed s => exact .of_manager rfl Iff.rfl
  | placed named => exact .of_manager rfl Iff.rfl
  | stopped => exact .kept rfl Iff.rfl rfl rfl

end Floor

end IngressTls
