import IngressTls.Proofs.Manager.Course

set_option autoImplicit false

/-! # Shutting down

When the manager is told to stop, its queue hands out no more keys and takes no more in. A worker
that holds a request finishes its attempt, however the calls of the attempt turn out, and then
leaves; one that holds none leaves at once. So every worker leaves after a bounded number of steps
of its own, and once all of them have left nothing is in flight, held or pending. What was queued
stays queued, and what is asked for meanwhile is stored, though no worker will take it.

Main statements: `shut_step`, `stepsLeft_run?`, `stored_or_taken` and `stops_cleanly`.
-/

namespace IngressTls

namespace WorkQueue

/-- A queue was shut down: nobody waits for a key, none is handed out or taken in any more, and
the keys that were queued stay in front. -/
structure Shut (q₀ q : WorkQueue) : Prop where
  /-- The queue stays shut. -/
  closed : q.closed = true
  /-- Nobody waits. -/
  waiting : q.bell.waiting = []
  /-- What was queued is queued. -/
  ready : q₀.ready <+: q.ready
  /-- No key becomes dirty or clean. -/
  dirty : q.dirty = q₀.dirty

variable {q₀ q q' : WorkQueue}

theorem shut_close (q : WorkQueue) : Shut q.close q.close := ⟨rfl, rfl, List.prefix_rfl, rfl⟩

theorem Shut.congr (h : Shut q₀ q) (hclosed : q'.closed = q.closed) (hbell : q'.bell = q.bell)
    (hready : q'.ready = q.ready) (hdirty : q'.dirty = q.dirty) : Shut q₀ q' :=
  ⟨hclosed.trans h.closed, hbell ▸ h.waiting, hready ▸ h.ready, hdirty.trans h.dirty⟩

theorem Shut.close (h : Shut q₀ q) : Shut q₀ q.close := ⟨rfl, rfl, h.ready, h.dirty⟩

theorem Shut.add (h : Shut q₀ q) (k : String) : q.add k = q := by
  rw [WorkQueue.add, h.closed]
  rfl

theorem Shut.take (h : Shut q₀ q) (worker : Nat) :
    q.take worker = ({ q with bell := q.bell.answer worker }, .closed) := by
  rw [WorkQueue.take]
  exact if_pos h.closed

theorem Shut.done (h : Shut q₀ q) (k : String) : Shut q₀ (q.done k) := by
  rw [WorkQueue.done]
  dsimp only
  split
  · exact ⟨h.closed, waiting_ring h.waiting, h.ready.trans (List.prefix_append _ _), h.dirty⟩
  · exact h.congr rfl rfl rfl rfl

end WorkQueue

namespace Manager

variable {q₀ : WorkQueue} {m : Manager}

theorem shut_settle (h : q₀.Shut m.queue) (k : String) (r : Request)
    (result : Except Error Unit) : q₀.Shut (m.settle k r result).1.queue := by
  obtain heq | ⟨-, -, heq⟩ := settle_cases m k r result
  · rw [heq]
    exact h.congr rfl rfl rfl rfl
  · rw [heq]
    exact h.congr rfl rfl rfl rfl

theorem queue_obtainAll (h : q₀.Shut m.queue) (rs : List Request) :
    (m.obtainAll rs).queue = m.queue := by
  induction rs generalizing m with
  | nil => rfl
  | cons r rs ih =>
      have hsame : (m.obtain r).queue = m.queue := h.add r.key
      exact (ih (hsame.symm ▸ h)).trans hsame

end Manager

/-- How many steps of its own a worker makes at most before it leaves, if it is handed no more
keys. -/
def Post.stepsLeft : Post → Nat
  | .ended => 0
  | .idle => 1
  | .withdrawing _ (some _) => 2
  | .withdrawing _ none => 3
  | .storing _ _ (some _) => 4
  | .storing _ _ none => 5
  | .ordering _ => 6
  | .reading _ (some _) => 7
  | .reading _ none => 8

/-- What a worker waits for, given what the store or the authority answers if it is asked. -/
def Post.next? (i : Nat) (service : Service) (answer : Except AuthorityError Certificate) :
    Post → Option FloorEvent
  | .idle => some (.take i)
  | .reading _ none | .storing _ _ none | .withdrawing _ none => some (.serve i service)
  | .reading _ (some _) | .storing _ _ (some _) | .withdrawing _ (some _) => some (.resume i)
  | .ordering _ => some (.order i answer)
  | .ended => none

namespace Floor

variable {f g f₀ f₁ : Floor} {q₀ : WorkQueue} {i : Nat} {r : Request}
  {own es es₀ since : List FloorEvent} {e : FloorEvent} {d : List Deed}

/-! ## A queue that was shut down stays so -/

theorem shut_conclude {m : Manager} (h : q₀.Shut m.queue) (i : Nat) (r : Request)
    (result : Except Error Unit) :
    q₀.Shut ((f.setManager m).conclude i r result).manager.queue := by
  show q₀.Shut ((m.settle r.key r result).1.finish r.key).queue
  rw [Manager.finish_queue]
  exact (Manager.shut_settle h r.key r result).done r.key

theorem shut_advance (h : q₀.Shut f.manager.queue) (i : Nat) (r : Request)
    {next : Manager × Progress} (hqueue : next.1.queue = f.manager.queue) :
    q₀.Shut (f.advance i r next).manager.queue := by
  obtain ⟨m, progress⟩ := next
  have hm : q₀.Shut m.queue := hqueue.symm ▸ h
  cases progress with
  | order => exact hm
  | store sec => exact hm
  | withdraw => exact hm
  | ended result => exact shut_conclude hm i r result

/-- A worker that looks for a key in a queue that was shut down leaves. -/
theorem begin_of_shut (h : q₀.Shut f.manager.queue) (i : Nat) :
    f.begin i = (f.setManager { f.manager with
      queue := { f.manager.queue with
        bell := f.manager.queue.bell.answer i } }).setPost i .ended := by
  have htake : f.manager.take i = ({ f.manager with
      queue := { f.manager.queue with bell := f.manager.queue.bell.answer i } }, .closed) := by
    rw [Manager.take, h.take]
  rw [begin, htake]

theorem shut_step (h : q₀.Shut f.manager.queue) (hstep : f.step? e = some g) :
    q₀.Shut g.manager.queue := by
  cases turn_of_step? hstep with
  | @began i idle awake =>
      rw [begin_of_shut h]
      exact ⟨h.closed, h.waiting, h.ready, h.dirty⟩
  | informed reading => exact shut_advance h _ _ (queue_afterRead _ _ _)
  | stored storing => exact shut_advance h _ _ (queue_afterStore _ _ _)
  | cleared withdrawing => exact shut_advance h _ _ (queue_afterWithdraw _ _)
  | ordered a ordering => exact shut_advance h _ _ (queue_afterOrder _ _ _)
  | @rang place k timer =>
      show q₀.Shut (f.manager.queue.add k)
      rw [h.add]
      exact h
  | @renewed listing threshold now scan valid =>
      show q₀.Shut (f.manager.afterRenewalListing threshold now (.ok listing)).1.queue
      rw [Manager.afterRenewalListing_fst, Manager.queue_obtainAll h]
      exact h
  | asked r =>
      show q₀.Shut (f.manager.queue.add r.key)
      rw [h.add]
      exact h
  | released s =>
      show q₀.Shut (f.manager.release s).queue
      obtain ⟨-, heq⟩ | ⟨-, heq⟩ := Manager.release_cases f.manager s
      · rw [heq]
        exact h
      · rw [heq]
        exact h
  | stopped => exact h.close
  | _ => exact h

theorem shut_run? (h : q₀.Shut f.manager.queue) (hrun : f.run? es = some g) :
    q₀.Shut g.manager.queue := by
  induction es generalizing f with
  | nil =>
      cases hrun
      exact h
  | cons e es ih =>
      rw [run?_cons] at hrun
      obtain ⟨f', hstep, hrest⟩ := Option.bind_eq_some_iff.1 hrun
      exact ih (shut_step h hstep) hrest

/-! ## Workers leave -/

theorem post_of_take (h : q₀.Shut f.manager.queue) (hstep : f.step? (.take i) = some g) :
    g.post i = .ended := by
  cases turn_of_step? hstep with
  | began idle awake =>
      rw [begin_of_shut h]
      exact (post_of_posts (ne_ended_of_idle idle) rfl i).trans (if_pos rfl)

/-- Nobody comes to issue for a request any more. -/
theorem request_of_shut (h : q₀.Shut f.manager.queue) (hstep : f.step? e = some g)
    (hi : (g.post i).request? = some r) : (f.post i).request? = some r := by
  rcases request_step hstep hi with hold | ⟨-, rfl, -⟩
  · exact hold
  · rw [post_of_take h hstep] at hi
    cases hi

theorem request_of_shut_run? (h : q₀.Shut f.manager.queue) (hrun : f.run? es = some g)
    (hi : (g.post i).request? = some r) : (f.post i).request? = some r := by
  induction es generalizing f with
  | nil =>
      cases hrun
      exact hi
  | cons e es ih =>
      rw [run?_cons] at hrun
      obtain ⟨f', hstep, hrest⟩ := Option.bind_eq_some_iff.1 hrun
      exact request_of_shut h hstep (ih (shut_step h hstep) hrest)

theorem Stage.length_add_stepsLeft {p : Post} (h : Stage i r own p) :
    own.length + p.stepsLeft = 8 := by
  cases h with
  | _ => rfl

/-- A worker that makes a step is nearer to its end. -/
theorem stepsLeft_step (hs : f.Sound) (ht : f.Told) (h : q₀.Shut f.manager.queue)
    (hstage : ∀ r, (f.post i).request? = some r → ∃ own, Stage i r own (f.post i))
    (hstep : f.step? e = some g) (hi : e.worker? = some i) :
    (g.post i).stepsLeft < (f.post i).stepsLeft := by
  cases hrequest : (f.post i).request? with
  | some r =>
      obtain ⟨own, hold⟩ := hstage r hrequest
      have hleft := hold.length_add_stepsLeft
      rcases hold.step hs ht hstep hi with hnew | hends
      · have hleft' := hnew.length_add_stepsLeft
        rw [List.length_append, List.length_singleton] at hleft'
        omega
      · -- the last step of an attempt leads to `idle`, and no stage is as near to the end
        rw [hends.idle]
        generalize f.post i = p at hold
        cases hold with
        | _ => simp [Post.stepsLeft]
  | none =>
      obtain ⟨rfl, hidle⟩ := take_of_free hstep hi hrequest
      rw [post_of_take h hstep, hidle]
      exact Nat.zero_lt_one

/-- The steps that a worker makes after the queue was shut down are counted down. -/
theorem stepsLeft_run? (hs : f₀.Sound) (ht : f₀.Told) (hfree : (f₀.post i).request? = none)
    (hreach : f₀.run? es₀ = some f) (h : q₀.Shut f.manager.queue) (hrun : f.run? es = some g) :
    (ownEvents i es).length + (g.post i).stepsLeft ≤ (f.post i).stepsLeft := by
  induction es generalizing f es₀ with
  | nil =>
      cases hrun
      exact (Nat.zero_add _).le
  | cons e es ih =>
      rw [run?_cons] at hrun
      obtain ⟨f', hstep, hrest⟩ := Option.bind_eq_some_iff.1 hrun
      have hrest := ih (run?_snoc hreach hstep) (shut_step h hstep) hrest
      have hsplit : ownEvents i (e :: es) = ownEvents i [e] ++ ownEvents i es :=
        ownEvents_append i [e] es
      rw [hsplit, List.length_append]
      by_cases hi : e.worker? = some i
      · have hstage : ∀ r, (f.post i).request? = some r → ∃ own, Stage i r own (f.post i) := by
          intro r hrequest
          obtain ⟨since, hcourse⟩ := course_run? hs ht hfree hreach hrequest
          exact ⟨_, hcourse.stage⟩
        have hfewer := stepsLeft_step (sound_run? hs hreach) (ht.run? hs hreach) h hstage hstep hi
        rw [ownEvents_self hi, List.length_singleton]
        omega
      · rw [ownEvents_other hi, List.length_nil, Nat.zero_add, ← post_step_ne hstep hi]
        exact hrest

/-- A worker that has not left can go on, whatever the store and the authority answer. -/
theorem goesOn_of_shut (h : q₀.Shut f.manager.queue) (hi : f.post i ≠ .ended) (service : Service)
    (answer : Except AuthorityError Certificate) :
    ∃ e g, (f.post i).next? i service answer = some e ∧ f.step? e = some g := by
  cases hpost : f.post i with
  | idle =>
      refine ⟨.take i, f.begin i, rfl, ?_⟩
      rw [step?, hpost]
      exact if_neg (by simp [h.waiting])
  | reading r a =>
      cases a with
      | none => exact ⟨.serve i service, _, rfl, by rw [step?, serve?, hpost]⟩
      | some a => exact ⟨.resume i, _, rfl, by rw [step?, resume?, hpost]⟩
  | ordering r => exact ⟨.order i answer, _, rfl, by rw [step?, hpost]⟩
  | storing r s a =>
      cases a with
      | none => exact ⟨.serve i service, _, rfl, by rw [step?, serve?, hpost]⟩
      | some a => exact ⟨.resume i, _, rfl, by rw [step?, resume?, hpost]⟩
  | withdrawing r a =>
      cases a with
      | none => exact ⟨.serve i service, _, rfl, by rw [step?, serve?, hpost]⟩
      | some a => exact ⟨.resume i, _, rfl, by rw [step?, resume?, hpost]⟩
  | ended => exact absurd hpost hi

/-- When all workers have left, nothing is in flight, held or pending. -/
theorem Sound.empty_of_ended (hs : f.Sound) (hended : ∀ i, f.post i = .ended) :
    f.manager.inFlight = .empty ∧ f.manager.queue.held = [] ∧
      f.manager.quota.pending = .empty := by
  have hfree : ∀ k, ¬ f.Busy k := by
    rintro k ⟨i, hi⟩
    rw [keyAt, hended i] at hi
    cases hi
  refine ⟨Table.ext_find? fun k => ?_, List.eq_nil_iff_forall_not_mem.2 fun k hk => ?_,
    Table.ext_find? fun k => hs.pending_eq_none (hfree k)⟩
  · refine Table.has_eq_false_iff.1 (Bool.eq_false_iff.2 fun hin => ?_)
    exact hfree k ((hs.inFlight k).1 hin)
  · exact hfree k ((hs.held k).1 hk)

/-! ## What becomes of the newest request -/

/-- A worker has taken a request on the way, and its key was neither asked for nor released
since. -/
def TakenSince (f₀ : Floor) (es : List FloorEvent) (f : Floor) (r : Request) : Prop :=
  ∃ before i after a b d, es = before ++ .take i :: after ∧ f₀.run? before = some a ∧
    a.step? (.take i) = some b ∧ b.post i = .reading r none ∧ f.journal = d ++ b.journal ∧
    ∀ x ∈ d, ¬ x.IsFor r.key

/-- The step that asked for the newest request. -/
theorem split_newest (hrun : f.run? es = some g) (hd : g.journal = d ++ f.journal)
    (h : Newest r d) :
    ∃ before e after a b d₁ d₂, es = before ++ e :: after ∧ f.run? before = some a ∧
      a.step? e = some b ∧ b.journal = d₁ ++ a.journal ∧ Newest r d₁ ∧ b.run? after = some g ∧
      g.journal = d₂ ++ b.journal ∧ ∀ x ∈ d₂, ¬ x.IsFor r.key := by
  induction es generalizing f d with
  | nil =>
      cases hrun
      obtain rfl : d = [] := by simpa using hd
      exact absurd h not_since_nil
  | cons e es ih =>
      obtain ⟨f', d₁, d₂, hstep, hrest, h₁, h₂, rfl⟩ := run?_split hrun hd
      rw [Newest] at h
      rcases since_append.1 h with hlater | ⟨hquiet, hfirst⟩
      · obtain ⟨before, e', after, a, b, d₁', d₂', rfl, hbefore, hrest'⟩ := ih hrest h₂ hlater
        exact ⟨e :: before, e', after, a, b, d₁', d₂', rfl, by rw [run?_cons, hstep]; exact hbefore,
          hrest'⟩
      · exact ⟨[], e, es, f, f', d₁, d₂, rfl, rfl, hstep, h₁, hfirst, hrest, h₂, hquiet⟩

/-- The newest request for a key is stored, or a worker has taken it since it was asked for. -/
theorem stored_or_taken (hs : f.Sound) (hcurrent : f.Current) (hrun : f.run? es = some g)
    (hd : g.journal = d ++ f.journal) (h : Newest r d) :
    g.manager.requests.find? r.key = some r ∨ TakenSince f es g r := by
  obtain ⟨before, e, after, a, b, d₁, d₂, rfl, hbefore, hstep, h₁, hnewest, hafter, h₂, hquiet⟩ :=
    split_newest hrun hd h
  have hsa := sound_run? hs hbefore
  have hmove := move_of_step? hstep
  have hsb := hsa.move hmove
  have hstored := stored_of_newest ((hcurrent.run? hs hbefore).move hsa hmove) hsb hmove h₁ hnewest
  refine (stored_run? hsb hafter h₂ hquiet hstored).imp_right ?_
  rintro ⟨before', i, after', a', b', rfl, hbefore', htake, hpost⟩
  rw [run?_append, hbefore', Option.bind_some, run?_cons, htake, Option.bind_some] at hafter
  obtain ⟨d₃, h₃⟩ := journal_run? hafter
  obtain ⟨d₄, h₄⟩ := journal_run? hbefore'
  rw [← (stored_of_take htake hpost).1] at h₄
  refine ⟨before ++ e :: before', i, after', a', b', d₃, by simp, ?_, htake, hpost, h₃, ?_⟩
  · rw [run?_append, hbefore, Option.bind_some, run?_cons, hstep, Option.bind_some, hbefore']
  · intro x hx
    refine hquiet x ?_
    rw [journal_append h₂ h₄ h₃]
    exact List.mem_append_left _ hx

theorem TakenSince.takes (h : TakenSince f es g r) : f.Takes es r := by
  obtain ⟨before, i, after, a, b, -, heq, hbefore, htake, hpost, -⟩ := h
  exact ⟨before, i, after, a, b, heq, hbefore, htake, hpost⟩

/-- Nobody takes a request from a queue that was shut down. -/
theorem not_takes_of_shut (h : q₀.Shut f.manager.queue) : ¬ f.Takes es r := by
  rintro ⟨before, i, after, a, b, -, hbefore, htake, hpost⟩
  rw [post_of_take (shut_run? h hbefore) htake] at hpost
  cases hpost

/-- Whatever was taken, was taken before the manager was told to stop. -/
theorem TakenSince.before_stop (h : TakenSince f₀ (es₀ ++ .stop :: es) g r)
    (hreach : f₀.run? (es₀ ++ [.stop]) = some f₁) (hshut : q₀.Shut f₁.manager.queue) :
    TakenSince f₀ es₀ g r := by
  obtain ⟨before, i, after, a, b, d, heq, hbefore, htake, hpost, hd, hquiet⟩ := h
  rcases List.append_eq_append_iff.1 heq with ⟨way, rfl, hway⟩ | ⟨way, rfl, hway⟩
  · cases way with
    | nil => cases hway
    | cons e way =>
        obtain ⟨rfl, rfl⟩ := List.cons.inj hway
        -- a worker that looks for a key after the stop leaves
        rw [List.append_cons, run?_append, hreach, Option.bind_some] at hbefore
        rw [post_of_take (shut_run? hshut hbefore) htake] at hpost
        cases hpost
  · cases way with
    | nil => cases hway
    | cons e way =>
        obtain ⟨rfl, -⟩ := List.cons.inj hway
        exact ⟨before, i, way, a, b, d, rfl, hbefore, htake, hpost, hd, hquiet⟩

/-! ## The statement -/

/-- How the workers go on after the manager was told to stop. -/
structure WindsDown (f₁ f : Floor) (es : List FloorEvent) : Prop where
  /-- No worker is handed a key. -/
  closed : ∀ i, (f.manager.take i).2 = .closed
  /-- Whoever issues for a request did so at the stop. -/
  held : ∀ i r, (f.post i).request? = some r → (f₁.post i).request? = some r
  /-- The authority is asked for keys only that were held at the stop. -/
  ordering : ∀ i r, f.post i = .ordering r → r.key ∈ f₁.manager.queue.held
  /-- The steps of a worker are counted down. -/
  bounded : ∀ i, (ownEvents i es).length + (f.post i).stepsLeft ≤ (f₁.post i).stepsLeft
  /-- A worker that has not left can go on, whatever the store and the authority answer. -/
  goesOn : ∀ i service answer, f.post i ≠ .ended →
    ∃ e g, (f.post i).next? i service answer = some e ∧ f.step? e = some g
  /-- When all workers have left, nothing is in flight, held or pending. -/
  empty : (∀ i, f.post i = .ended) → f.manager.inFlight = .empty ∧ f.manager.queue.held = [] ∧
    f.manager.quota.pending = .empty

theorem windsDown_run? (hs : f₀.Sound) (ht : f₀.Told) (hfree : ∀ i, (f₀.post i).request? = none)
    (hreach : f₀.run? es₀ = some f₁) (hshut : q₀.Shut f₁.manager.queue)
    (hrun : f₁.run? es = some f) : WindsDown f₁ f es := by
  have hs₁ := sound_run? hs hreach
  have hshut' := shut_run? hshut hrun
  have hheld : ∀ i r, (f.post i).request? = some r → (f₁.post i).request? = some r :=
    fun i r => request_of_shut_run? hshut hrun
  refine ⟨fun i => ?_, hheld, fun i r hi => ?_, fun i => ?_,
    fun i service answer hi => goesOn_of_shut hshut' hi service answer,
    (sound_run? hs₁ hrun).empty_of_ended⟩
  · rw [Manager.take, hshut'.take]
  · exact (hs₁.held r.key).2 ⟨i, keyAt_of_request (hheld i r (by rw [hi]; rfl))⟩
  · exact stepsLeft_run? hs ht (hfree i) hreach hshut hrun

/-- What becomes of the demand after the manager was told to stop. It had been started as `f₀`, and
the events `es₀` had happened. -/
structure Backlog (f₀ : Floor) (es₀ : List FloorEvent) (f₁ f : Floor) : Prop where
  /-- What was queued is queued. -/
  queued : f₁.manager.queue.ready <+: f.manager.queue.ready
  /-- No key is added or handed out. -/
  dirty : f.manager.queue.dirty = f₁.manager.queue.dirty
  /-- What was added while a worker held it is queued, too, when all workers have left. -/
  returned : (∀ i, f.post i = .ended) →
    ∀ k ∈ f₁.manager.queue.dirty, k ∈ f.manager.queue.ready
  /-- What is stored is the newest request for its key, which was not released since. -/
  stored : ∀ k r, f.manager.requests.find? k = some r → r.key = k ∧ Newest r f.journal
  /-- The newest request is stored, unless it was not at the stop because a worker had taken it. -/
  latest : ∀ r, Newest r f.journal → f.manager.requests.find? r.key = some r ∨
    f₁.manager.requests.find? r.key ≠ some r ∧ TakenSince f₀ es₀ f r

theorem backlog_run? (hs : f₀.Sound) (hcurrent : f₀.Current) (hjournal : f₀.journal = [])
    (hreach : f₀.run? (es₀ ++ [.stop]) = some f₁)
    (hshut : f₁.manager.queue.Shut f₁.manager.queue) (hrun : f₁.run? es = some f) :
    Backlog f₀ es₀ f₁ f := by
  have hs₁ := sound_run? hs hreach
  have hsf := sound_run? hs₁ hrun
  have hcurrent₁ := hcurrent.run? hs hreach
  have hshut' := shut_run? hshut hrun
  obtain ⟨d, hd⟩ := journal_run? hrun
  refine ⟨hshut'.ready, hshut'.dirty, fun hended k hk => ?_, fun k r hr => ?_, fun r hr => ?_⟩
  · rw [← hshut'.dirty] at hk
    refine (hsf.tidy.mem_ready k).2 ⟨hk, ?_⟩
    rw [(hsf.empty_of_ended hended).2.1]
    exact List.not_mem_nil
  · exact ⟨hsf.keyed k r hr, (hcurrent₁.run? hs₁ hrun).stored k r hr⟩
  · by_cases hold : f₁.manager.requests.find? r.key = some r
    · left
      have hnewest : Newest r (d ++ f₁.journal) := hd ▸ hr
      rcases since_append.1 hnewest with hlater | ⟨hquiet, -⟩
      · exact (stored_or_taken hs₁ hcurrent₁ hrun hd hlater).resolve_right fun htaken =>
          not_takes_of_shut hshut htaken.takes
      · exact (stored_run? hs₁ hrun hd hquiet hold).resolve_right (not_takes_of_shut hshut)
    · have hwhole : f₀.run? (es₀ ++ .stop :: es) = some f := by
        rw [List.append_cons, run?_append, hreach, Option.bind_some, hrun]
      refine (stored_or_taken hs hcurrent hwhole ?_ hr).imp_right fun htaken => ⟨hold, ?_⟩
      · rw [hjournal, List.append_nil]
      · exact htaken.before_stop hreach hshut

/-- The manager is told to stop, and the run goes on. No worker takes another key, and every worker
leaves after a bounded number of steps of its own; when all have left, nothing is in flight, held or
pending. An attempt that was under way at the stop is still under way, or has ended in one of the
ways in which attempts end. What was queued stays queued; and the newest request for a key that was
not released since is stored, unless a worker had taken it before the stop. -/
theorem stops_cleanly {settings : ManagerSettings} {max : Int}
    {listing : Except Error (List Secret)} {shelf : Snapshot Secret}
    (hreach : (start settings max listing shelf).run? es₀ = some f₀)
    (hstop : f₀.step? .stop = some f₁) (hrun : f₁.run? es = some f) :
    WindsDown f₁ f es ∧
    (∀ i r, (f₁.post i).request? = some r →
      ∃ since, Course (start settings max listing shelf) (es₀ ++ [.stop]) f₁ i r since ∧
        (Course (start settings max listing shelf) (es₀ ++ [.stop] ++ es) f i r (since ++ es) ∨
          EndsWithin (start settings max listing shelf) (es₀ ++ [.stop]) f₁ i r since es f)) ∧
    Backlog (start settings max listing shelf) es₀ f₁ f := by
  have hs := sound_start settings max listing shelf
  have ht := told_start settings max listing shelf
  have hfree := post_start settings max listing shelf
  have hreach₁ := run?_snoc hreach hstop
  have hshut : f₁.manager.queue.Shut f₁.manager.queue := by
    cases hstop
    exact WorkQueue.shut_close _
  refine ⟨windsDown_run? hs ht hfree hreach₁ hshut hrun, fun i r hi => ?_,
    backlog_run? hs (current_start settings max listing shelf) rfl hreach₁ hshut hrun⟩
  obtain ⟨since, hcourse⟩ := course_run? hs ht (hfree i) hreach₁ hi
  exact ⟨since, hcourse, hcourse.run? (sound_run? hs hreach₁) (ht.run? hs hreach₁) hrun⟩

/-- A worker waits for a certificate, and another key is queued. -/
def oneOrderedOneQueued : List FloorEvent :=
  [.obtain (requestOf "one"), .obtain (requestOf "two"), .take 0, .serve 0 .done, .resume 0]

/-- The certificate comes and is written, but the secret is released during the write. The worker
deletes it again and leaves. -/
def releasedWhileLeaving : List FloorEvent :=
  [.order 0 (.ok ⟨[], [], [], default, default⟩), .release (requestOf "one").target,
    .serve 0 .done, .resume 0, .serve 0 .done, .resume 0, .take 0]

theorem stops_cleanly_releasedWhileLeaving :
    ∃ f₀ f₁ f since, small.run? oneOrderedOneQueued = some f₀ ∧ f₀.step? .stop = some f₁ ∧
      f₁.run? releasedWhileLeaving = some f ∧ f.manager.queue.held = [] ∧
      f.manager.quota.pending = .empty ∧
      EndsWithin small (oneOrderedOneQueued ++ [.stop]) f₁ 0 (requestOf "one") since
        releasedWhileLeaving f ∧
      (requestOf "two").key ∈ f.manager.queue.ready ∧
      f.manager.requests.find? (requestOf "two").key = some (requestOf "two") := by
  obtain ⟨f₀, f₁, f, hreach, hstop, hrun, hposts, hordering, hready, hstored⟩ : ∃ f₀ f₁ f,
      small.run? oneOrderedOneQueued = some f₀ ∧ f₀.step? .stop = some f₁ ∧
      f₁.run? releasedWhileLeaving = some f ∧ f.posts = [.ended] ∧
      f₁.post 0 = .ordering (requestOf "one") ∧
      f₁.manager.queue.ready = [(requestOf "two").key] ∧
      f.manager.requests.find? (requestOf "two").key = some (requestOf "two") :=
    ⟨_, _, _, rfl, rfl, rfl, rfl, rfl, rfl, rfl⟩
  obtain ⟨hdown, hattempts, hbacklog⟩ := stops_cleanly hreach hstop hrun
  have hended : ∀ i, f.post i = .ended := by
    intro i
    rw [post, hposts]
    cases i with
    | zero => rfl
    | succ i => rfl
  obtain ⟨-, hheld, hpending⟩ := hdown.empty hended
  obtain ⟨since, -, hgoes⟩ := hattempts 0 (requestOf "one") (by rw [hordering]; rfl)
  refine ⟨f₀, f₁, f, since, hreach, hstop, hrun, hheld, hpending, ?_, ?_, hstored⟩
  · refine hgoes.resolve_left fun hcourse => ?_
    have hrequest := hcourse.stage.request
    rw [hended] at hrequest
    cases hrequest
  · exact hbacklog.queued.subset (by rw [hready]; exact List.mem_singleton_self _)

end Floor

end IngressTls
