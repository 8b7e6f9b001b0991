import IngressTls.Manager.Renewal
import IngressTls.Manager.Worker
import IngressTls.Proofs.Quota.Operations
import IngressTls.Proofs.WorkQueue.Tidy

set_option autoImplicit false

/-! # What the steps of the manager change

Each step of the manager changes a few of its parts. An answer that reaches a worker changes the
quota, and ends the attempt or tells the worker what to do next. Settling an outcome forgets the key
or, if it was not released meanwhile, stores the request again; being done with a key takes it
out of flight and gives its quota back if it was released.

Main statements: `afterRead_cases`, `afterOrder_cases`, `afterStore_cases`, `settle_cases`,
`finish_quota`, `release_cases` and `obtainAll_facts`.
-/

namespace IngressTls.Manager

/-! ## Demand -/

@[simp] theorem obtain_requests (m : Manager) (r : Request) (k : String) :
    (m.obtain r).requests.find? k = if k = r.key then some r else m.requests.find? k :=
  Table.find?_insert _ _ _ _

/-- A release withdraws the stored request. A key in flight is flagged, and any other gives
its quota back. -/
theorem release_cases (m : Manager) (s : SecretRef) :
    (m.inFlight.has s.key = true ∧ m.release s =
      { m with requests := m.requests.erase s.key, inFlight := m.inFlight.insert s.key true }) ∨
    (m.inFlight.has s.key = false ∧ m.release s =
      { m with requests := m.requests.erase s.key, quota := m.quota.release s.key }) := by
  rw [release]
  cases h : m.inFlight.has s.key with
  | true =>
      left
      exact ⟨rfl, by simp⟩
  | false =>
      right
      exact ⟨rfl, by simp [releaseQuota]⟩

/-! ## Answers -/

/-- A worker that has read ends with an error, or reserves. -/
theorem afterRead_cases (m : Manager) (r : Request) (a : Except Error (Option Secret)) :
    (∃ e, m.afterRead r a = (m, .ended (.error e))) ∨
      ∃ existing q, a = .ok existing ∧ m.isForeign existing = false ∧
        m.quota.reserve r.key r.domains.size = .ok q ∧
        m.afterRead r a = ({ m with quota := q }, .order) := by
  cases a with
  | error e => exact Or.inl ⟨e, rfl⟩
  | ok existing =>
      rw [afterRead]
      split
      · exact Or.inl ⟨_, rfl⟩
      · next hours =>
          split
          · exact Or.inl ⟨_, rfl⟩
          · next q hq => exact Or.inr ⟨existing, q, rfl, by simpa using hours, hq, rfl⟩

/-- A worker that has ordered gives its reservation up and ends, or writes. -/
theorem afterOrder_cases (m : Manager) (r : Request) (a : Except AuthorityError Certificate) :
    (∃ result, m.afterOrder r a = (m.rollback r, .ended result) ∧
        ((∃ e, a = .error e ∧ result = .error (.authority e)) ∨ m.isReleased r.key = true)) ∨
      ∃ c, a = .ok c ∧ m.isReleased r.key = false ∧
        m.afterOrder r a = (m, .store (managedSecret r c m.settings.controllerName)) := by
  cases a with
  | error e => exact Or.inl ⟨_, rfl, Or.inl ⟨e, rfl, rfl⟩⟩
  | ok c =>
      rw [afterOrder]
      split
      · next hreleased => exact Or.inl ⟨_, rfl, Or.inr hreleased⟩
      · next hreleased => exact Or.inr ⟨c, rfl, by simpa using hreleased, rfl⟩

/-- A worker whose write has failed gives its reservation up and ends, one that was told of a
release gives it up and deletes what it wrote, and any other commits it and ends. -/
theorem afterStore_cases (m : Manager) (r : Request) (a : Except Error Unit) :
    (∃ e, a = .error e ∧ m.afterStore r a = (m.rollback r, .ended (.error e))) ∨
      (a = .ok () ∧ m.isReleased r.key = true ∧ m.afterStore r a = (m.rollback r, .withdraw)) ∨
      (a = .ok () ∧ m.isReleased r.key = false ∧
        m.afterStore r a = ({ m with
          inFlight := m.inFlight.erase r.key
          quota := m.quota.commit r.key }, .ended (.ok ()))) := by
  cases a with
  | error e => exact Or.inl ⟨e, rfl, rfl⟩
  | ok _ =>
      rw [afterStore]
      split
      · next hreleased => exact Or.inr (Or.inl ⟨rfl, hreleased, rfl⟩)
      · next hreleased => exact Or.inr (Or.inr ⟨rfl, by simpa using hreleased, rfl⟩)

/-! ## Settling -/

/-- An outcome is settled by forgetting the key, unless it is an error of a request that was
not released: that may be stored again. -/
theorem settle_cases (m : Manager) (k : String) (r : Request) (result : Except Error Unit) :
    m.settle k r result = (m.forget k, .forgotten) ∨
    (m.isReleased k = false ∧ (∃ e, result = .error e) ∧
      m.settle k r result = m.requeue k r) := by
  cases result with
  | ok _ => exact Or.inl rfl
  | error e =>
      show m.settleFailure k r e = _ ∨ _ ∧ _ ∧ m.settleFailure k r e = _
      unfold settleFailure
      split
      · exact Or.inl rfl
      · next hreleased =>
          have hreleased : m.isReleased k = false := by simpa using hreleased
          have retry : ∀ c : Bool,
              (if c then m.requeue k r else (m.forget k, .forgotten)) = (m.forget k, .forgotten) ∨
              m.isReleased k = false ∧ (∃ e', (Except.error e : Except Error Unit) = .error e') ∧
                (if c then m.requeue k r else (m.forget k, .forgotten)) = m.requeue k r := by
            intro c
            cases c with
            | false => exact Or.inl rfl
            | true => exact Or.inr ⟨hreleased, ⟨e, rfl⟩, rfl⟩
          split
          · exact Or.inr ⟨hreleased, ⟨e, rfl⟩, rfl⟩
          · cases e with
            | quota refusal => exact Or.inl rfl
            | _ => exact retry _

/-- A settlement touches neither what is in flight nor the quota nor the settings, and leaves
all keys of the queue where they stand. -/
structure Settled (m m' : Manager) : Prop where
  /-- What is in flight stays. -/
  inFlight : m'.inFlight = m.inFlight
  /-- The quota stays. -/
  quota : m'.quota = m.quota
  /-- The settings stay. -/
  settings : m'.settings = m.settings
  /-- The keys to hand out stay. -/
  ready : m'.queue.ready = m.queue.ready
  /-- The dirty keys stay. -/
  dirty : m'.queue.dirty = m.queue.dirty
  /-- The held keys stay. -/
  held : m'.queue.held = m.queue.held
  /-- The queue stays open or closed. -/
  closed : m'.queue.closed = m.queue.closed

theorem settled_settle (m : Manager) (k : String) (r : Request) (result : Except Error Unit) :
    Settled m (m.settle k r result).1 := by
  obtain h | ⟨-, -, h⟩ := settle_cases m k r result
  · rw [h]
    exact ⟨rfl, rfl, rfl, rfl, rfl, rfl, rfl⟩
  · rw [h]
    exact ⟨rfl, rfl, rfl, rfl, rfl, rfl, rfl⟩

/-- A request that is stored after a settlement was stored before, or is the one that was
settled, without having been released. -/
theorem requests_settle {m : Manager} {k j : String} {r r' : Request}
    {result : Except Error Unit} (h : (m.settle k r result).1.requests.find? j = some r') :
    m.requests.find? j = some r' ∨
      (j = k ∧ r' = r ∧ m.isReleased k = false ∧ ∃ e, result = .error e) := by
  obtain hs | ⟨hreleased, herror, hs⟩ := settle_cases m k r result
  · rw [hs] at h
    exact Or.inl h
  · -- a newer request that came meanwhile is kept
    rw [hs] at h
    simp only [requeue] at h
    split at h
    · exact Or.inl h
    · rw [Table.find?_insert] at h
      split at h
      · next hj => exact Or.inr ⟨hj, (Option.some.inj h).symm, hreleased, herror⟩
      · exact Or.inl h

/-! ## Being done -/

@[simp] theorem finish_requests (m : Manager) (k : String) :
    (m.finish k).requests = m.requests := by
  rw [finish]
  dsimp only
  split
  · rfl
  · rfl

@[simp] theorem finish_inFlight (m : Manager) (k : String) :
    (m.finish k).inFlight = m.inFlight.erase k := by
  rw [finish]
  dsimp only
  split
  · rfl
  · rfl

@[simp] theorem finish_queue (m : Manager) (k : String) :
    (m.finish k).queue = m.queue.done k := by
  rw [finish]
  dsimp only
  split
  · rfl
  · rfl

@[simp] theorem finish_settings (m : Manager) (k : String) :
    (m.finish k).settings = m.settings := by
  rw [finish]
  dsimp only
  split
  · rfl
  · rfl

@[simp] theorem finish_restored (m : Manager) (k : String) :
    (m.finish k).restored = m.restored := by
  rw [finish]
  dsimp only
  split
  · rfl
  · rfl

theorem finish_quota (m : Manager) (k : String) :
    (m.finish k).quota = if m.isReleased k then m.quota.release k else m.quota := by
  rw [finish]
  dsimp only
  split
  · rfl
  · rfl

theorem isReleased_eq_true {m : Manager} {k : String} :
    m.isReleased k = true ↔ m.inFlight.find? k = some true := by
  simp [isReleased]

theorem isReleased_eq_false {m : Manager} {k : String} :
    m.isReleased k = false ↔ m.inFlight.find? k ≠ some true := by
  simp [isReleased]

/-! ## Taking a key -/

/-- Taking a key only concerns the queue. -/
theorem take_eq {m m' : Manager} {worker : Nat} {taken : Taken}
    (h : m.take worker = (m', taken)) :
    ∃ q, m.queue.take worker = (q, taken) ∧ m' = { m with queue := q } := by
  obtain ⟨rfl, rfl⟩ := Prod.mk.inj h
  exact ⟨_, rfl, rfl⟩

/-! ## Asking for several certificates -/

/-- Asking for several certificates, one after the other. -/
def obtainAll (m : Manager) (rs : List Request) : Manager := rs.foldl obtain m

/-- Asking for certificates stores requests and adds keys to the queue, and does nothing else. -/
theorem obtainAll_facts (m : Manager) (rs : List Request) :
    (m.obtainAll rs).queue.held = m.queue.held ∧ (m.obtainAll rs).inFlight = m.inFlight ∧
      (m.obtainAll rs).quota = m.quota ∧ (m.obtainAll rs).settings = m.settings ∧
      (m.queue.Tidy → (m.obtainAll rs).queue.Tidy) := by
  induction rs generalizing m with
  | nil => exact ⟨rfl, rfl, rfl, rfl, id⟩
  | cons r rs ih =>
      obtain ⟨hheld, hinFlight, hquota, hsettings, htidy⟩ := ih (m.obtain r)
      refine ⟨hheld.trans ?_, hinFlight, hquota, hsettings, fun h => htidy (h.add r.key)⟩
      exact WorkQueue.add_held m.queue r.key

/-- A request that is stored after several were asked for is one of them, under its own key, or
was stored before. -/
theorem requests_obtainAll {m : Manager} {rs : List Request} {k : String} {r : Request}
    (h : (m.obtainAll rs).requests.find? k = some r) :
    (r ∈ rs ∧ r.key = k) ∨ m.requests.find? k = some r := by
  induction rs generalizing m with
  | nil => exact Or.inr h
  | cons r' rs ih =>
      rcases ih h with ⟨hmem, hkey⟩ | hold
      · exact Or.inl ⟨List.mem_cons_of_mem _ hmem, hkey⟩
      · rw [obtain_requests] at hold
        split at hold
        · next hk =>
            cases hold
            exact Or.inl ⟨List.mem_cons_self, hk.symm⟩
        · exact Or.inr hold

theorem afterRenewalListing_fst (m : Manager) (threshold : Int) (now : Instant)
    (listing : List Secret) :
    (m.afterRenewalListing threshold now (.ok listing)).1 =
      m.obtainAll ((listing.filterMap (m.due? threshold now)).map Bookkeeping.toRequest) := by
  rw [obtainAll, List.foldl_map]
  rfl

end IngressTls.Manager
