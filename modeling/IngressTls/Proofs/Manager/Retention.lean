import IngressTls.Proofs.Manager.Pursuit

set_option autoImplicit false

/-! # No request is lost

Requests, keys in flight and the queue are kept apart, and each operation of the manager writes to
them in an order of its own. Still they agree before a stop: the key of a stored request is queued,
or a worker that issues for it finds it dirty when it ends, or it is added again after a delay. So
nothing is stored that nobody would come back to, and when nothing is queued, held or scheduled
nothing is stored at all.

A worker takes what is stored, and that is the newest request for its key.

Main statements: `Carried.move` and `nothing_lost`.
-/

namespace IngressTls

namespace Floor

variable {f g : Floor}

/-! ## What an issuance leaves behind -/

/-- An issuance that ends forgets its request. Or it was not told of a release, and the request is
stored again unless there is a newer one; then its key is added again after a delay. -/
theorem conclude_cases (f : Floor) (i : Nat) (r : Request) (result : Except Error Unit) :
    ((f.conclude i r result).timers = f.timers ∧
      (f.conclude i r result).manager.requests = f.manager.requests) ∨
    (f.manager.isReleased r.key = false ∧
      (f.conclude i r result).timers = r.key :: f.timers ∧
      (f.conclude i r result).manager.requests =
        if f.manager.requests.has r.key then f.manager.requests
        else f.manager.requests.insert r.key r) := by
  have hrequests : (f.conclude i r result).manager.requests =
      (f.manager.settle r.key r result).1.requests := Manager.finish_requests _ _
  rw [hrequests]
  obtain hset | ⟨hreleased, -, hset⟩ := Manager.settle_cases f.manager r.key r result
  · left
    constructor
    · rw [conclude, hset]
    · rw [hset]
      rfl
  · right
    refine ⟨hreleased, ?_, ?_⟩
    · rw [conclude, hset]
      rfl
    · rw [hset]
      rfl

/-! ## The invariant -/

/-- The key of a stored request is to be handed out, or to be added again after a delay. -/
def Carried (f : Floor) : Prop :=
  ∀ k, f.manager.requests.has k = true → k ∈ f.manager.queue.dirty ∨ k ∈ f.timers

/-- No request comes, and no key goes. -/
theorem Carried.mono (h : f.Carried)
    (hrequests : ∀ k, g.manager.requests.has k = true → f.manager.requests.has k = true)
    (hdirty : ∀ k ∈ f.manager.queue.dirty, k ∈ g.manager.queue.dirty)
    (htimers : ∀ k ∈ f.timers, k ∈ g.timers) : g.Carried :=
  fun k hk => (h k (hrequests k hk)).imp (hdirty k) (htimers k)

/-- A worker gets no key. -/
theorem Carried.wait (h : f.Carried) {i : Nat} {m : Manager} {taken : Taken}
    (ht : f.manager.take i = (m, taken)) (hnone : ∀ k, taken ≠ .key k) :
    (f.setManager m).Carried := by
  obtain ⟨q, hq, rfl⟩ := Manager.take_eq ht
  obtain ⟨-, hdirty, -⟩ := WorkQueue.take_none hq hnone
  refine h.mono (fun _ hk => hk) (fun k hk => ?_) fun _ hk => hk
  show k ∈ q.dirty
  rwa [hdirty]

/-- A worker takes a key, which is clean then, and its request with it. -/
theorem Carried.take (hs : f.Sound) (h : f.Carried) {i : Nat} {m : Manager} {k : String}
    (ht : f.manager.take i = (m, .key k)) : (f.setManager (m.startOn k).1).Carried := by
  obtain ⟨q, hq, rfl⟩ := Manager.take_eq ht
  obtain ⟨-, -, -, -, hdirty⟩ := hs.tidy.take_key hq
  intro j hj
  change (f.manager.requests.erase k).has j = true at hj
  rw [Table.has_erase, Bool.and_eq_true, Bool.not_eq_true', decide_eq_false_iff_not] at hj
  exact (h j hj.2).imp_left fun hold => (hdirty j).2 ⟨hold, hj.1⟩

/-- An issuance ends. A request that is stored again has its key scheduled. -/
theorem Carried.conclude {m : Manager} (h : (f.setManager m).Carried) (i : Nat) (r : Request)
    (result : Except Error Unit) : ((f.setManager m).conclude i r result).Carried := by
  have hdirty := (queue_conclude (f.setManager m) i r result).2
  intro k hk
  rw [hdirty]
  obtain ⟨htimers, hrequests⟩ | ⟨-, htimers, hrequests⟩ :=
    conclude_cases (f.setManager m) i r result
  · rw [hrequests] at hk
    rw [htimers]
    exact h k hk
  · rw [htimers, List.mem_cons]
    by_cases hkey : k = r.key
    · exact Or.inr (Or.inl hkey)
    · have hold : (f.setManager m).manager.requests.has k = true := by
        rw [hrequests] at hk
        split at hk
        · exact hk
        · rw [Table.has_insert] at hk
          simpa [hkey] using hk
      exact (h k hold).imp_right Or.inr

theorem Carried.obtain (hopen : f.manager.queue.closed = false) (h : f.Carried) (r : Request) :
    (f.setManager (f.manager.obtain r)).Carried := by
  intro k hk
  change (f.manager.requests.insert r.key r).has k = true at hk
  rw [Table.has_insert, Bool.or_eq_true, decide_eq_true_iff] at hk
  have hdirty := WorkQueue.mem_dirty_add hopen r.key k
  rcases hk with heq | hold
  · exact Or.inl (hdirty.2 (Or.inl heq))
  · exact (h k hold).imp_left fun hin => hdirty.2 (Or.inr hin)

theorem Carried.obtainAll (hopen : f.manager.queue.closed = false) (h : f.Carried)
    (rs : List Request) : (f.setManager (f.manager.obtainAll rs)).Carried := by
  induction rs generalizing f with
  | nil => exact h
  | cons r rs ih =>
      exact ih (f := f.setManager (f.manager.obtain r))
        ((WorkQueue.add_closed _ _).trans hopen) (h.obtain hopen r)

/-- A delayed addition is made, and its timer is gone. -/
theorem Carried.ring (hopen : f.manager.queue.closed = false) (h : f.Carried) {place : Nat}
    {k : String} (hk : f.timers[place]? = some k) :
    Carried { f with manager := f.manager.readd k, timers := f.timers.eraseIdx place } := by
  intro j hj
  have hdirty := WorkQueue.mem_dirty_add hopen k j
  rcases h j hj with hold | htimer
  · exact Or.inl (hdirty.2 (Or.inr hold))
  · by_cases hjk : j = k
    · exact Or.inl (hdirty.2 (Or.inl hjk))
    · -- the timer of another key stays
      obtain ⟨n, hn⟩ := List.mem_iff_getElem?.1 htimer
      refine Or.inr (List.mem_eraseIdx_iff_getElem?.2 ⟨n, ?_, hn⟩)
      rintro rfl
      rw [hk] at hn
      exact hjk (Option.some.inj hn).symm

theorem Carried.release (h : f.Carried) (s : SecretRef) :
    (f.setManager (f.manager.release s)).Carried := by
  have hrequests : ∀ k, (f.manager.requests.erase s.key).has k = true →
      f.manager.requests.has k = true := by
    intro k hk
    rw [Table.has_erase, Bool.and_eq_true] at hk
    exact hk.2
  obtain ⟨-, heq⟩ | ⟨-, heq⟩ := Manager.release_cases f.manager s
  · rw [heq]
    exact h.mono hrequests (fun _ hk => hk) fun _ hk => hk
  · rw [heq]
    exact h.mono hrequests (fun _ hk => hk) fun _ hk => hk

theorem Carried.move (hs : f.Sound) (hopen : f.manager.queue.closed = false) (h : f.Carried)
    (hm : Move f g) : g.Carried := by
  cases hm with
  | waited idle taken => exact h.wait taken fun k heq => by cases heq
  | left idle taken => exact h.wait taken fun k heq => by cases heq
  | @skipped i m k idle taken none =>
      refine (h.take hs taken).mono (fun j hj => ?_) (fun j hj => ?_) fun _ hj => hj
      · change ((m.startOn k).1.finish k).requests.has j = true at hj
        rwa [Manager.finish_requests] at hj
      · show j ∈ ((m.startOn k).1.finish k).queue.dirty
        rwa [Manager.finish_queue, WorkQueue.done_dirty]
  | started idle taken some => exact h.take hs taken
  | @failed i r a e reading => exact Carried.conclude (m := f.manager) h i r (.error e)
  | @gaveUp i r result standing why =>
      exact Carried.conclude (m := f.manager.rollback r) h i r result
  | @stored i r s storing unreleased =>
      exact Carried.conclude (m := { f.manager with
        inFlight := f.manager.inFlight.erase r.key
        quota := f.manager.quota.commit r.key }) h i r (.ok ())
  | @cleared i r a withdrawing => exact Carried.conclude (m := f.manager) h i r (.ok ())
  | rang timer => exact h.ring hopen timer
  | @renewed listing threshold now scan =>
      have hall := h.obtainAll hopen
        ((listing.filterMap (f.manager.due? threshold now)).map Bookkeeping.toRequest)
      rw [← Manager.afterRenewalListing_fst] at hall
      exact hall
  | asked r => exact h.obtain hopen r
  | released s => exact h.release s
  | _ => exact h

/-- Without a stop the queue stays open, and no request is lost. -/
theorem Carried.run? {es : List FloorEvent} (hs : f.Sound)
    (hopen : f.manager.queue.closed = false) (h : f.Carried) (hrun : f.run? es = some g)
    (hstop : ∀ e ∈ es, e ≠ .stop) : g.manager.queue.closed = false ∧ g.Carried := by
  induction es generalizing f with
  | nil =>
      cases hrun
      exact ⟨hopen, h⟩
  | cons e es ih =>
      rw [run?_cons] at hrun
      obtain ⟨f', hstep, hrest⟩ := Option.bind_eq_some_iff.1 hrun
      have hmove := move_of_step? hstep
      have hclosed := closed_step hstep (hstop e List.mem_cons_self)
      exact ih (hs.move hmove) (hclosed.trans hopen) (h.move hs hopen hmove) hrest
        fun e' he' => hstop e' (List.mem_cons_of_mem _ he')

theorem carried_start (settings : ManagerSettings) (max : Int)
    (listing : Except Error (List Secret)) (shelf : Snapshot Secret) :
    (start settings max listing shelf).manager.queue.closed = false ∧
      (start settings max listing shelf).Carried := by
  obtain ⟨q, -, -, -, heq⟩ := restored_eq settings max listing
  have hmanager : (start settings max listing shelf).manager =
      ⟨settings, .empty, .empty, .empty, true, q⟩ := heq
  constructor
  · rw [hmanager]
    rfl
  · intro k hk
    rw [hmanager] at hk
    cases hk

/-! ## What is stored is taken -/

/-- A key is queued, or the worker that issues for it finds it dirty when it ends, or it is to be
added again after a delay. -/
def Awaits (f : Floor) (k : String) : Prop :=
  k ∈ f.manager.queue.ready ∨ (f.Busy k ∧ k ∈ f.manager.queue.dirty) ∨ k ∈ f.timers

theorem Carried.awaits (hs : f.Sound) (h : f.Carried) {k : String}
    (hk : f.manager.requests.has k = true) : f.Awaits k := by
  rcases h k hk with hdirty | htimer
  · by_cases hheld : k ∈ f.manager.queue.held
    · exact Or.inr (Or.inl ⟨(hs.held k).1 hheld, hdirty⟩)
    · exact Or.inl ((hs.tidy.mem_ready k).2 ⟨hdirty, hheld⟩)
  · exact Or.inr (Or.inr htimer)

/-- When nothing is queued, held or scheduled, nothing is stored and nothing is in flight. -/
theorem Carried.empty (hs : f.Sound) (h : f.Carried) (hready : f.manager.queue.ready = [])
    (hheld : f.manager.queue.held = []) (htimers : f.timers = []) :
    f.manager.requests = .empty ∧ f.manager.inFlight = .empty := by
  have hfree : ∀ k, ¬ f.Busy k := by
    intro k hbusy
    have hin := (hs.held k).2 hbusy
    rw [hheld] at hin
    cases hin
  constructor
  · refine Table.ext_find? fun k => Table.has_eq_false_iff.1 (Bool.eq_false_iff.2 fun hk => ?_)
    rcases h.awaits hs hk with hqueued | ⟨hbusy, -⟩ | htimer
    · rw [hready] at hqueued
      cases hqueued
    · exact hfree k hbusy
    · rw [htimers] at htimer
      cases htimer
  · refine Table.ext_find? fun k => Table.has_eq_false_iff.1 (Bool.eq_false_iff.2 fun hk => ?_)
    exact hfree k ((hs.inFlight k).1 hk)

/-- In every run without a stop: a worker takes the newest request for a key, the key of a stored
request waits for a worker, no two workers issue for one key, and when nothing is queued, held or
scheduled, nothing is stored and nothing is in flight. -/
theorem nothing_lost {settings : ManagerSettings} {max : Int}
    {listing : Except Error (List Secret)} {shelf : Snapshot Secret} {es : List FloorEvent}
    {f : Floor} (hrun : (start settings max listing shelf).run? es = some f)
    (hstop : ∀ e ∈ es, e ≠ .stop) :
    (∀ i g r, f.step? (.take i) = some g → g.post i = .reading r none → Newest r f.journal) ∧
      (∀ k r, f.manager.requests.find? k = some r → f.Awaits k) ∧ f.Apart ∧
      (f.manager.queue.ready = [] → f.manager.queue.held = [] → f.timers = [] →
        f.manager.requests = .empty ∧ f.manager.inFlight = .empty) := by
  have hstart := sound_start settings max listing shelf
  have hs : f.Sound := sound_run? hstart hrun
  have hcurrent : f.Current := (current_start settings max listing shelf).run? hstart hrun
  obtain ⟨hopen, hcarried⟩ := carried_start settings max listing shelf
  obtain ⟨-, hcarried⟩ := hcarried.run? hstart hopen hrun hstop
  refine ⟨fun i g r htake hpost => ?_, fun k r hr => ?_, hs.apart, hcarried.empty hs⟩
  · obtain ⟨-, k, hstored⟩ := stored_of_take htake hpost
    exact hcurrent.stored k r hstored
  · refine hcarried.awaits hs ?_
    rw [Table.has, hr]
    rfl

/-- While the authority asks for patience with one host, another one is asked for. -/
def askedWhilePending : List FloorEvent :=
  [.obtain (requestFor "old.com"), .take 0, .serve 0 .done, .resume 0,
    .obtain (requestFor "new.com"), .order 0 (.error .pending)]

/-- The worker that failed keeps the newer request, takes it next, and the delayed addition of the
older one stays behind. -/
theorem nothing_lost_askedWhilePending :
    ∃ f g, small.run? askedWhilePending = some f ∧ f.step? (.take 0) = some g ∧
      g.post 0 = .reading (requestFor "new.com") none ∧
      Newest (requestFor "new.com") f.journal ∧ f.Awaits (requestFor "new.com").key ∧
      f.timers = [(requestFor "new.com").key] := by
  obtain ⟨f, g, hrun, htake, hpost, hstored, htimers⟩ : ∃ f g,
      small.run? askedWhilePending = some f ∧ f.step? (.take 0) = some g ∧
      g.post 0 = .reading (requestFor "new.com") none ∧
      f.manager.requests.find? (requestFor "new.com").key = some (requestFor "new.com") ∧
      f.timers = [(requestFor "new.com").key] := ⟨_, _, rfl, rfl, rfl, rfl, rfl⟩
  obtain ⟨hnewest, hawaits, -⟩ := nothing_lost hrun (by simp [askedWhilePending])
  exact ⟨f, g, hrun, htake, hpost, hnewest 0 g _ htake hpost, hawaits _ _ hstored, htimers⟩

end Floor

end IngressTls
