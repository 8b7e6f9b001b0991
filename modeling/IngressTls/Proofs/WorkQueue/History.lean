import IngressTls.Proofs.Journal
import IngressTls.Proofs.WorkQueue.Tidy

set_option autoImplicit false

/-! # The work queue and its history

Any number of workers and clients use one work queue: keys are added, at once or after a delay,
handed out, given back, and forgotten, and the queue is shut down at some time. A worker gives
back only a key that it was handed. The journal of a run keeps the additions that were
accepted, the keys that were handed out and given back, and the shutdown, the last one first.

What the queue holds can be read off the journal. A key is *pending* if it has been added since
it was last handed out, a worker *holds* a key from the moment it is handed to it until it gives
it back, and a key is *due* if it is pending and nobody holds it. The dirty keys of the queue are
the pending ones, its held keys are those that somebody holds, and its keys to hand out are
those that are due, in the order in which they became so.

Main statement: `queue_refines_journal`.
-/

namespace IngressTls

/-- What happens at the work queue. -/
inductive QueueEvent where
  /-- A key is added. -/
  | add (key : String)
  /-- A key is to be added after a delay. -/
  | delay (key : String)
  /-- A key has failed: the failure is counted, and the key is to be added after a delay. -/
  | fail (key : String)
  /-- The delayed addition at a place is made. -/
  | ring (place : Nat)
  /-- A worker looks for a key. -/
  | take (worker : Nat)
  /-- A worker that waits for a key goes away. -/
  | leave (worker : Nat)
  /-- A worker gives back a key that it was handed. -/
  | done (worker : Nat) (key : String)
  /-- The failures of a key are forgotten. -/
  | forget (key : String)
  /-- The queue is shut down. -/
  | close

/-- What has happened to the keys of a queue. -/
inductive QueueDeed where
  /-- The addition of a key was accepted. -/
  | added (key : String)
  /-- A key was handed to a worker. -/
  | handed (worker : Nat) (key : String)
  /-- A worker gave a key back. -/
  | returned (worker : Nat) (key : String)
  /-- The queue was shut down. -/
  | closed
  deriving DecidableEq

/-! ## What a journal says -/

/-- A key has been added since it was last handed out. -/
def Pending (k : String) (d : List QueueDeed) : Prop :=
  Since (· = .added k) (fun x => ∃ w, x = .handed w k) d

/-- A worker was handed a key and has not given it back since. -/
def Holds (w : Nat) (k : String) (d : List QueueDeed) : Prop :=
  Since (· = .handed w k) (· = .returned w k) d

instance (w : Nat) (k : String) (d : List QueueDeed) : Decidable (Holds w k d) :=
  inferInstanceAs (Decidable (Since _ _ d))

/-- A key is pending and nobody holds it. -/
def Due (k : String) (d : List QueueDeed) : Prop := Pending k d ∧ ∀ w, ¬ Holds w k d

/-- A key became due with the deed that followed the first `n` ones, its addition or its
return, and has been due ever since. -/
def DueSince (k : String) (d : List QueueDeed) (n : Nat) : Prop :=
  ∃ recent x before, d = recent ++ x :: before ∧ before.length = n ∧
    (x = .added k ∨ ∃ w, x = .returned w k) ∧ ¬ Due k before ∧
    ∀ t, t <:+ recent → Due k (t ++ x :: before)

/-- Keys that are due, in the order in which they became so. -/
structure InOrder (ks : List String) (d : List QueueDeed) : Prop where
  /-- Each of them has become due at some moment. -/
  since : ∀ k ∈ ks, ∃ n, DueSince k d n
  /-- The moments increase. -/
  increasing : ks.Pairwise fun a b => ∃ m n, DueSince a d m ∧ DueSince b d n ∧ m < n

@[simp] theorem pending_added {j k : String} {d : List QueueDeed} :
    Pending j (.added k :: d) ↔ j = k ∨ Pending j d := by
  simp [Pending, since_cons, eq_comm]

@[simp] theorem pending_handed {j k : String} {w : Nat} {d : List QueueDeed} :
    Pending j (.handed w k :: d) ↔ j ≠ k ∧ Pending j d := by
  simp [Pending, since_cons, eq_comm]

@[simp] theorem pending_returned {j k : String} {w : Nat} {d : List QueueDeed} :
    Pending j (.returned w k :: d) ↔ Pending j d := by
  simp [Pending, since_cons]

@[simp] theorem pending_closed {j : String} {d : List QueueDeed} :
    Pending j (.closed :: d) ↔ Pending j d := by
  simp [Pending, since_cons]

@[simp] theorem holds_added {j k : String} {v : Nat} {d : List QueueDeed} :
    Holds v j (.added k :: d) ↔ Holds v j d := by
  simp [Holds, since_cons]

@[simp] theorem holds_handed {j k : String} {v w : Nat} {d : List QueueDeed} :
    Holds v j (.handed w k :: d) ↔ (v = w ∧ j = k) ∨ Holds v j d := by
  simp [Holds, since_cons, eq_comm]

@[simp] theorem holds_returned {j k : String} {v w : Nat} {d : List QueueDeed} :
    Holds v j (.returned w k :: d) ↔ ¬ (v = w ∧ j = k) ∧ Holds v j d := by
  simp [Holds, since_cons, eq_comm]

@[simp] theorem holds_closed {j : String} {v : Nat} {d : List QueueDeed} :
    Holds v j (.closed :: d) ↔ Holds v j d := by
  simp [Holds, since_cons]

/-! ## The moment at which a key became due -/

theorem DueSince.lt {k : String} {d : List QueueDeed} {n : Nat} (h : DueSince k d n) :
    n < d.length := by
  obtain ⟨recent, x, before, rfl, rfl, -⟩ := h
  simp only [List.length_append, List.length_cons]
  omega

/-- A key that is still due became so when it did before. -/
theorem DueSince.cons {k : String} {x : QueueDeed} {d : List QueueDeed} {n : Nat}
    (h : DueSince k d n) (hdue : Due k (x :: d)) : DueSince k (x :: d) n := by
  obtain ⟨recent, y, before, rfl, hn, hy, hbefore, hsince⟩ := h
  refine ⟨x :: recent, y, before, rfl, hn, hy, hbefore, fun t ht => ?_⟩
  rcases List.suffix_cons_iff.1 ht with rfl | ht
  · exact hdue
  · exact hsince t ht

/-- A key that has just become due. -/
theorem dueSince_length {k : String} {x : QueueDeed} {d : List QueueDeed}
    (hx : x = .added k ∨ ∃ w, x = .returned w k) (hnot : ¬ Due k d) (hdue : Due k (x :: d)) :
    DueSince k (x :: d) d.length := by
  refine ⟨[], x, d, rfl, rfl, hx, hnot, fun t ht => ?_⟩
  rw [List.suffix_nil.1 ht]
  exact hdue

theorem InOrder.nil (d : List QueueDeed) : InOrder [] d :=
  ⟨fun _ hk => absurd hk List.not_mem_nil, List.Pairwise.nil⟩

/-- Keys that stay due stay in order; some of them may go. -/
theorem InOrder.cons {ks ks' : List String} {x : QueueDeed} {d : List QueueDeed}
    (h : InOrder ks d) (hsub : ks'.Sublist ks) (hdue : ∀ k ∈ ks', Due k (x :: d)) :
    InOrder ks' (x :: d) where
  since := by
    intro k hk
    obtain ⟨n, hn⟩ := h.since k (hsub.subset hk)
    exact ⟨n, hn.cons (hdue k hk)⟩
  increasing := by
    refine (h.increasing.sublist hsub).imp_of_mem fun {a b} ha hb hab => ?_
    obtain ⟨m, n, hm, hn, hlt⟩ := hab
    exact ⟨m, n, hm.cons (hdue a ha), hn.cons (hdue b hb), hlt⟩

/-- A key that has just become due comes last. -/
theorem InOrder.snoc {ks : List String} {k : String} {x : QueueDeed} {d : List QueueDeed}
    (h : InOrder ks d) (hdue : ∀ j ∈ ks, Due j (x :: d))
    (hx : x = .added k ∨ ∃ w, x = .returned w k) (hnot : ¬ Due k d) (hk : Due k (x :: d)) :
    InOrder (ks ++ [k]) (x :: d) where
  since := by
    intro j hj
    rcases List.mem_append.1 hj with hj | hj
    · exact (h.cons (List.Sublist.refl ks) hdue).since j hj
    · rw [List.mem_singleton.1 hj]
      exact ⟨_, dueSince_length hx hnot hk⟩
  increasing := by
    refine List.pairwise_append.2 ⟨(h.cons (List.Sublist.refl ks) hdue).increasing,
      List.pairwise_singleton _ _, fun a ha b hb => ?_⟩
    rw [List.mem_singleton.1 hb]
    obtain ⟨m, hm⟩ := h.since a ha
    exact ⟨m, d.length, hm.cons (hdue a ha), dueSince_length hx hnot hk, hm.lt⟩

/-! ## A queue and its journal -/

/-- A queue holds what its journal says. -/
structure Reflects (q : WorkQueue) (d : List QueueDeed) : Prop where
  /-- No key stands anywhere twice. -/
  tidy : q.Tidy
  /-- The dirty keys are the pending ones. -/
  pending : ∀ k, k ∈ q.dirty ↔ Pending k d
  /-- The held keys are those that somebody holds. -/
  held : ∀ k, k ∈ q.held ↔ ∃ w, Holds w k d
  /-- No two workers hold one key. -/
  apart : ∀ k w w', Holds w k d → Holds w' k d → w = w'
  /-- The keys to hand out are in the order in which they became due. -/
  order : InOrder q.ready d
  /-- The queue is shut down if it was ever shut down. -/
  closed : q.closed = true ↔ .closed ∈ d
  /-- A key that was handed out was held by nobody, and the queue was not shut down. -/
  handed : ∀ recent before w k, d = recent ++ .handed w k :: before →
    (∀ v, ¬ Holds v k before) ∧ .closed ∉ before

namespace Reflects

variable {q q' : WorkQueue} {d : List QueueDeed}

/-- The keys to hand out are those that are due. -/
theorem mem_ready (h : Reflects q d) (k : String) : k ∈ q.ready ↔ Due k d := by
  rw [h.tidy.mem_ready, h.pending, h.held, Due, not_exists]

theorem start : Reflects .empty [] where
  tidy := .empty
  pending := fun k => iff_of_false List.not_mem_nil not_since_nil
  held := fun k => iff_of_false List.not_mem_nil fun ⟨_, hw⟩ => not_since_nil hw
  apart := fun _ _ _ hw => absurd hw not_since_nil
  order := .nil []
  closed := iff_of_false Bool.false_ne_true List.not_mem_nil
  handed := fun recent before w k heq => by cases recent <;> cases heq

/-- A journal goes on with a deed that hands out nothing. -/
theorem handed_cons (h : Reflects q d) {x : QueueDeed} (hx : ∀ w k, x ≠ .handed w k) :
    ∀ recent before w k, x :: d = recent ++ .handed w k :: before →
      (∀ v, ¬ Holds v k before) ∧ .closed ∉ before := by
  intro recent before w k heq
  cases recent with
  | nil => exact absurd (List.cons.inj heq).1 (hx w k)
  | cons y recent => exact h.handed recent before w k (List.cons.inj heq).2

/-- A queue whose keys stand alike holds the same. -/
theorem congr (h : Reflects q d) (hready : q'.ready = q.ready) (hdirty : q'.dirty = q.dirty)
    (hheld : q'.held = q.held) (hclosed : q'.closed = q.closed) : Reflects q' d where
  tidy := h.tidy.congr hready hdirty hheld
  pending := by rw [hdirty]; exact h.pending
  held := by rw [hheld]; exact h.held
  apart := h.apart
  order := by rw [hready]; exact h.order
  closed := by rw [hclosed]; exact h.closed
  handed := h.handed

/-- A key is added. -/
theorem add (h : Reflects q d) (hopen : q.closed = false) (k : String) :
    Reflects (q.add k) (.added k :: d) := by
  have hdue : ∀ j, Due j (.added k :: d) ↔ (j = k ∨ Pending j d) ∧ ∀ w, ¬ Holds w j d := by
    intro j
    simp [Due]
  have hstay : ∀ j ∈ q.ready, Due j (.added k :: d) := by
    intro j hj
    obtain ⟨hpending, hfree⟩ := (h.mem_ready j).1 hj
    exact (hdue j).2 ⟨Or.inr hpending, hfree⟩
  constructor
  · exact h.tidy.add k
  · intro j
    rw [WorkQueue.mem_dirty_add hopen, h.pending, pending_added]
  · intro j
    simp only [WorkQueue.add_held, h.held, holds_added]
  · intro j w w'
    simp only [holds_added]
    exact h.apart j w w'
  · -- only a key that was neither dirty nor held joins the keys to hand out
    rw [WorkQueue.add, hopen]
    split
    · exact h.order.cons (List.Sublist.refl _) hstay
    · next hk =>
        have hk : k ∉ q.dirty := by simpa using hk
        split
        · exact h.order.cons (List.Sublist.refl _) hstay
        · next hheld =>
            have hheld : k ∉ q.held := by simpa using hheld
            rw [h.held, not_exists] at hheld
            have hnot : ¬ Due k d := fun hk' => hk ((h.pending k).2 hk'.1)
            exact h.order.snoc hstay (Or.inl rfl) hnot ((hdue k).2 ⟨Or.inl rfl, hheld⟩)
  · rw [WorkQueue.add_closed, h.closed]
    simp
  · exact h.handed_cons fun w j heq => by cases heq

/-- A worker looks for a key and is handed one. -/
theorem take (h : Reflects q d) {w : Nat} {k : String} (ht : q.take w = (q', .key k)) :
    Reflects q' (.handed w k :: d) := by
  obtain ⟨htidy, hfree, hheld, hclosed, hdirty⟩ := h.tidy.take_key ht
  have hnobody : ∀ v, ¬ Holds v k d := fun v hv => hfree ((h.held k).2 ⟨v, hv⟩)
  obtain ⟨htaken, -⟩ | ⟨htaken, -⟩ | ⟨j, rest, bell, htaken, hopen, hready, hq⟩ :=
    WorkQueue.take_cases ht
  · cases htaken
  · cases htaken
  cases htaken
  -- the key that is handed out was the first one
  have hsub : q'.ready.Sublist q.ready := by
    rw [hq, hready]
    exact List.sublist_cons_self k rest
  constructor
  · exact htidy
  · intro j
    rw [hdirty, h.pending, pending_handed, and_comm]
  · intro j
    rw [hheld, List.mem_cons, h.held]
    simp only [holds_handed]
    constructor
    · rintro (rfl | ⟨v, hv⟩)
      · exact ⟨w, Or.inl ⟨rfl, rfl⟩⟩
      · exact ⟨v, Or.inr hv⟩
    · rintro ⟨v, ⟨-, rfl⟩ | hv⟩
      · exact Or.inl rfl
      · exact Or.inr ⟨v, hv⟩
  · intro j v v' hv hv'
    rw [holds_handed] at hv hv'
    rcases hv with ⟨rfl, rfl⟩ | hv
    · rcases hv' with ⟨rfl, -⟩ | hv'
      · rfl
      · exact absurd hv' (hnobody v')
    · rcases hv' with ⟨rfl, rfl⟩ | hv'
      · exact absurd hv (hnobody v)
      · exact h.apart j v v' hv hv'
  · refine h.order.cons hsub fun j hj => ?_
    -- the keys that remain are not the one that was handed out, which is now held
    have hne : j ≠ k := by
      rintro rfl
      exact ((htidy.mem_ready j).1 hj).2 (hheld ▸ List.mem_cons_self)
    obtain ⟨hpending, hidle⟩ := (h.mem_ready j).1 (hsub.subset hj)
    refine ⟨pending_handed.2 ⟨hne, hpending⟩, fun v hv => ?_⟩
    rcases holds_handed.1 hv with ⟨-, heq⟩ | hv
    · exact hne heq
    · exact hidle v hv
  · rw [hclosed, h.closed]
    simp
  · intro recent before v j heq
    cases recent with
    | nil =>
        obtain ⟨hx, rfl⟩ := List.cons.inj heq
        cases hx
        refine ⟨hnobody, fun hmem => ?_⟩
        rw [← h.closed, hopen] at hmem
        cases hmem
    | cons y recent => exact h.handed recent before v j (List.cons.inj heq).2

/-- A worker gives back a key that it was handed. -/
theorem done (h : Reflects q d) {w : Nat} {k : String} (hw : Holds w k d) :
    Reflects (q.done k) (.returned w k :: d) := by
  have hheld : k ∈ q.held := (h.held k).2 ⟨w, hw⟩
  -- nobody else held the key, so nobody holds it any more
  have hholds : ∀ v j, Holds v j (.returned w k :: d) ↔ j ≠ k ∧ Holds v j d := by
    intro v j
    rw [holds_returned]
    constructor
    · rintro ⟨hnot, hv⟩
      refine ⟨fun heq => hnot ⟨?_, heq⟩, hv⟩
      exact h.apart k v w (heq ▸ hv) hw
    · rintro ⟨hne, hv⟩
      exact ⟨fun hvw => hne hvw.2, hv⟩
  have hdue : ∀ j, Due j (.returned w k :: d) ↔ Pending j d ∧ ∀ v, j ≠ k → ¬ Holds v j d := by
    intro j
    simp only [Due, pending_returned, hholds, not_and]
  have hstay : ∀ j ∈ q.ready, Due j (.returned w k :: d) := by
    intro j hj
    obtain ⟨hpending, hfree⟩ := (h.mem_ready j).1 hj
    exact (hdue j).2 ⟨hpending, fun v _ => hfree v⟩
  constructor
  · exact h.tidy.done hheld
  · intro j
    rw [WorkQueue.done_dirty, h.pending, pending_returned]
  · intro j
    rw [WorkQueue.done_held, h.tidy.held_nodup.mem_erase_iff, h.held]
    simp only [hholds, exists_and_left]
  · intro j v v' hv hv'
    exact h.apart j v v' ((hholds v j).1 hv).2 ((hholds v' j).1 hv').2
  · -- a key that was added while it was held is due from now on
    simp only [WorkQueue.done]
    split
    · next hk =>
        have hk : k ∈ q.dirty := by simpa using hk
        refine h.order.snoc hstay (Or.inr ⟨w, rfl⟩) (fun hdue' => hdue'.2 w hw) ?_
        exact (hdue k).2 ⟨(h.pending k).1 hk, fun v hne => absurd rfl hne⟩
    · exact h.order.cons (List.Sublist.refl _) hstay
  · rw [WorkQueue.done_closed, h.closed]
    simp
  · exact h.handed_cons fun v j heq => by cases heq

/-- The queue is shut down. -/
theorem close (h : Reflects q d) : Reflects q.close (.closed :: d) where
  tidy := h.tidy.close
  pending := fun j => (h.pending j).trans pending_closed.symm
  held := fun j => by
    simp only [holds_closed]
    exact h.held j
  apart := fun j v v' => by
    simp only [holds_closed]
    exact h.apart j v v'
  order := by
    refine h.order.cons (List.Sublist.refl _) fun j hj => ?_
    simpa [Due] using (h.mem_ready j).1 hj
  closed := iff_of_true rfl List.mem_cons_self
  handed := h.handed_cons fun w k heq => by cases heq

end Reflects

/-! ## Runs -/

/-- A work queue in use. -/
structure QueueRun where
  /-- The queue. -/
  queue : WorkQueue
  /-- The keys that are to be added after a delay. -/
  timers : List String
  /-- What has happened to the keys, the last deed first. -/
  journal : List QueueDeed

namespace QueueRun

/-- The queue without keys. -/
def start : QueueRun := ⟨.empty, [], []⟩

/-- A key is added; a queue that is shut down does not accept it. -/
def add (s : QueueRun) (k : String) : QueueRun :=
  { s with
    queue := s.queue.add k
    journal := if s.queue.closed then s.journal else .added k :: s.journal }

/-- What an event does, if it can happen. -/
def step? (s : QueueRun) : QueueEvent → Option QueueRun
  | .add k => some (s.add k)
  | .delay k => some { s with timers := k :: s.timers }
  | .fail k => some { s with queue := (s.queue.fail k).1, timers := k :: s.timers }
  | .ring place =>
    s.timers[place]?.map fun k => ({ s with timers := s.timers.eraseIdx place } : QueueRun).add k
  | .take w =>
    match s.queue.take w with
    | (q, .key k) => some { s with queue := q, journal := .handed w k :: s.journal }
    | (q, .blocked) | (q, .closed) => some { s with queue := q }
  | .leave w => some { s with queue := s.queue.leave w }
  | .done w k =>
    if Holds w k s.journal then
      some { s with queue := s.queue.done k, journal := .returned w k :: s.journal }
    else none
  | .forget k => some { s with queue := s.queue.forget k }
  | .close => some { s with queue := s.queue.close, journal := .closed :: s.journal }

/-- Events happen one after the other. -/
def run? (s : QueueRun) : List QueueEvent → Option QueueRun
  | [] => some s
  | e :: es => (s.step? e).bind fun s' => s'.run? es

theorem reflects_add {s : QueueRun} (h : Reflects s.queue s.journal) (k : String) :
    Reflects (s.add k).queue (s.add k).journal := by
  unfold add
  cases hclosed : s.queue.closed with
  | true =>
      have hsame : s.queue.add k = s.queue := by simp [WorkQueue.add, hclosed]
      simpa [hsame] using h
  | false => simpa using h.add hclosed k

theorem reflects_step {s s' : QueueRun} {e : QueueEvent} (h : Reflects s.queue s.journal)
    (hstep : s.step? e = some s') : Reflects s'.queue s'.journal := by
  cases e with
  | add k =>
      cases hstep
      exact reflects_add h k
  | delay k =>
      cases hstep
      exact h
  | fail k =>
      cases hstep
      exact h.congr rfl rfl rfl rfl
  | ring place =>
      obtain ⟨k, -, rfl⟩ := Option.map_eq_some_iff.1 hstep
      exact reflects_add (s := { s with timers := s.timers.eraseIdx place }) h k
  | take w =>
      rw [step?] at hstep
      split at hstep
      · next q k ht =>
          cases hstep
          exact h.take ht
      · next q ht =>
          cases hstep
          obtain ⟨hready, hdirty, hheld, hclosed⟩ :=
            WorkQueue.take_none ht fun k heq => by cases heq
          exact h.congr hready hdirty hheld hclosed
      · next q ht =>
          cases hstep
          obtain ⟨hready, hdirty, hheld, hclosed⟩ :=
            WorkQueue.take_none ht fun k heq => by cases heq
          exact h.congr hready hdirty hheld hclosed
  | leave w =>
      cases hstep
      exact h.congr rfl rfl rfl rfl
  | done w k =>
      rw [step?] at hstep
      split at hstep
      · next hw =>
          cases hstep
          exact h.done hw
      · cases hstep
  | forget k =>
      cases hstep
      exact h.congr rfl rfl rfl rfl
  | close =>
      cases hstep
      exact h.close

theorem reflects_run? {s s' : QueueRun} {es : List QueueEvent}
    (h : Reflects s.queue s.journal) (hrun : s.run? es = some s') :
    Reflects s'.queue s'.journal := by
  induction es generalizing s with
  | nil =>
      cases hrun
      exact h
  | cons e es ih =>
      obtain ⟨s₁, hstep, hrest⟩ := Option.bind_eq_some_iff.1 hrun
      exact ih (reflects_step h hstep) hrest

/-- After any events, in any order, the queue holds what the journal says. No key is queued
twice. The dirty keys are those added since they were last handed out. The keys to hand out are
the pending ones that nobody holds, in the order in which their addition or their return made
them so. The held keys are those handed out and not given back, each of them by one worker. A key
was handed out only while nobody held it and before any shutdown. -/
theorem queue_refines_journal {s : QueueRun} {es : List QueueEvent}
    (hrun : start.run? es = some s) :
    s.queue.ready.Nodup ∧
      (∀ k, k ∈ s.queue.dirty ↔ Pending k s.journal) ∧
      (∀ k, k ∈ s.queue.ready ↔ Due k s.journal) ∧ InOrder s.queue.ready s.journal ∧
      (∀ k, k ∈ s.queue.held ↔ ∃ w, Holds w k s.journal) ∧
      (∀ k w w', Holds w k s.journal → Holds w' k s.journal → w = w') ∧
      ∀ recent before w k, s.journal = recent ++ .handed w k :: before →
        (∀ v, ¬ Holds v k before) ∧ .closed ∉ before := by
  have h : Reflects s.queue s.journal := reflects_run? .start hrun
  exact ⟨h.tidy.ready_nodup, h.pending, h.mem_ready, h.order, h.held, h.apart, h.handed⟩

/-- Two workers and two keys: `a` is added again while a worker holds it, `b` fails and comes back
after its delay, and an addition after the shutdown is refused. -/
def twoWorkers : List QueueEvent :=
  [.add "a", .add "b", .add "a", .take 0, .add "a", .take 1, .fail "b", .done 1 "b", .ring 0,
    .done 0 "a", .close, .add "c", .take 1]

theorem queue_refines_journal_twoWorkers :
    ∃ s, start.run? twoWorkers = some s ∧ s.queue.ready = ["b", "a"] ∧
      InOrder s.queue.ready s.journal ∧ Due "a" s.journal ∧ ¬ Pending "c" s.journal := by
  have hrun : (start.run? twoWorkers).isSome := by decide
  obtain ⟨s, hs⟩ := Option.isSome_iff_exists.1 hrun
  obtain ⟨-, hdirty, hready, horder, -⟩ := queue_refines_journal hs
  have hkeys : (start.run? twoWorkers).map (fun s => (s.queue.ready, s.queue.dirty)) =
      some (["b", "a"], ["b", "a"]) := by decide
  rw [hs] at hkeys
  simp only [Option.map_some, Option.some.injEq, Prod.mk.injEq] at hkeys
  obtain ⟨hready', hdirty'⟩ := hkeys
  refine ⟨s, hs, hready', horder, (hready "a").1 (by simp [hready']), fun hc => ?_⟩
  exact absurd ((hdirty "c").2 hc) (by simp [hdirty'])

end QueueRun

end IngressTls
