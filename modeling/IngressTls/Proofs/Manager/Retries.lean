import IngressTls.Proofs.Manager.Outcome
import IngressTls.Proofs.Manager.Targets

set_option autoImplicit false

/-! # How often a request is tried again

A request whose attempts end in errors that can pass is tried again a limited number of times. When
the authority asks for patience nothing has failed, and the request is always stored again. But the
attempt is counted like any other, and the count decides about the next failure: a request is
dropped with the first failure that has at least as many attempts before it, of whatever sort, as
there are retries. So an answer that asks for patience uses up a retry if it is among the first
attempts, and costs nothing if it comes later.

Main statements: `retries_before_drop` and `patience_uses_up_retries`.
-/

namespace IngressTls

/-- The number of errors that are failures: the authority did not merely ask for patience. -/
def failuresIn (errors : List Error) : Nat := errors.countP fun e => !e.isPending

/-- The number of answers that ask for patience. -/
def patienceIn (errors : List Error) : Nat := errors.countP Error.isPending

/-- The first errors and all failures after them. -/
theorem failuresIn_add_patienceIn (errors : List Error) (n : Nat) :
    failuresIn errors + patienceIn (errors.take n) =
      min n errors.length + failuresIn (errors.drop n) := by
  have hsplit : failuresIn errors = failuresIn (errors.take n) + failuresIn (errors.drop n) := by
    rw [failuresIn, failuresIn, failuresIn, ← List.countP_append, List.take_append_drop]
  have hfirst : (errors.take n).length =
      patienceIn (errors.take n) + failuresIn (errors.take n) := by
    rw [patienceIn, failuresIn, List.length_eq_countP_add_countP Error.isPending]
    simp
  rw [List.length_take] at hfirst
  omega

namespace Manager

theorem has_requeue (m : Manager) (k : String) (r : Request) :
    (m.requeue k r).1.requests.has k = true := by
  show (if m.requests.has k then m.requests else m.requests.insert k r).has k = true
  split_ifs with hstored
  · exact hstored
  · simp

theorem failuresOf_requeue (m : Manager) (k : String) (r : Request) :
    (m.requeue k r).1.queue.failuresOf k = m.queue.failuresOf k + 1 := by
  show ((m.queue.failures.insert k (m.queue.failuresOf k + 1)).find? k).getD 0 = _
  rw [Table.find?_insert, if_pos rfl]
  rfl

theorem failuresOf_forget (m : Manager) (k : String) : (m.forget k).queue.failuresOf k = 0 := by
  show ((m.queue.failures.erase k).find? k).getD 0 = 0
  rw [Table.find?_erase, if_pos rfl]
  rfl

/-- What becomes of a request when an attempt at it ends in an error that can pass. -/
theorem settle_retryable {m : Manager} {k : String} {e : Error} (r : Request)
    (hreleased : m.isReleased k = false) (hretry : e.isRetryable = true) :
    m.settle k r (.error e) =
      if e.isPending = true ∨ m.queue.failuresOf k < m.settings.maxRetries then m.requeue k r
      else (m.forget k, .forgotten) := by
  show m.settleFailure k r e = _
  unfold settleFailure
  rw [hreleased, hretry]
  by_cases hpending : e.isPending = true
  · simp [hpending]
  · cases e with
    | quota refusal => cases hretry
    | _ => simp [hpending]

end Manager

namespace Floor

variable {f g : Floor} {k : String} {n : Nat} {errors : List Error}

/-- A request for the key is stored, or a worker issues for the key. -/
def Attends (f : Floor) (k : String) : Prop := f.manager.requests.has k = true ∨ f.Busy k

/-- A key for which nothing is stored and all workers are idle is not attended to. -/
theorem not_attends_of_idle (hnone : f.manager.requests.find? k = none)
    (hposts : f.posts = [.idle]) : ¬ f.Attends k := by
  rintro (hstored | hbusy)
  · rw [Table.has, hnone] at hstored
    cases hstored
  · exact not_busy_of_idle hposts hbusy

/-! ## The attempts of one request -/

/-- Where the only request for a key stands after attempts that ended in errors, if it may be tried
again `n` times. -/
inductive Trial (f : Floor) (k : String) (n : Nat) (errors : List Error) : Prop where
  /-- It is stored, and every attempt so far has been counted. -/
  | waiting (stored : f.manager.requests.has k = true) (free : ¬ f.Busy k)
      (count : f.manager.queue.failuresOf k = errors.length)
      (patient : ∀ e ∈ errors.drop n, e.isPending = true)
  /-- A worker issues for it. -/
  | issuing (unstored : f.manager.requests.find? k = none) (busy : f.Busy k)
      (flag : f.manager.inFlight.find? k = some false)
      (count : f.manager.queue.failuresOf k = errors.length)
      (patient : ∀ e ∈ errors.drop n, e.isPending = true)
  /-- It was dropped with the last error, a failure, and its attempts are forgotten. -/
  | dropped {before : List Error} {e : Error} (unstored : f.manager.requests.find? k = none)
      (free : ¬ f.Busy k) (count : f.manager.queue.failuresOf k = 0) (split : errors = before ++ [e]) (enough : n ≤ before.length)
      (failure : e.isPending = false) (patient : ∀ e ∈ before.drop n, e.isPending = true)

/-- One more error, which is one of patience or among the first. -/
theorem patient_append {e : Error} (hpatient : ∀ e ∈ errors.drop n, e.isPending = true)
    (he : e.isPending = true ∨ errors.length < n) :
    ∀ e' ∈ (errors ++ [e]).drop n, e'.isPending = true := by
  intro e' he'
  rw [List.drop_append, List.mem_append] at he'
  rcases he' with he' | he'
  · exact hpatient e' he'
  · rcases he with he | hlt
    · rw [List.mem_singleton.1 (List.mem_of_mem_drop he')]
      exact he
    · rw [List.drop_eq_nil_of_le (by simp; omega)] at he'
      cases he'

/-- An attempt ends in an error that can pass. -/
theorem Trial.ended {r : Request} {m : Manager} {e : Error}
    (h : f.Trial k f.manager.settings.maxRetries errors) (busy : f.Busy k)
    (free : ¬ g.Busy k) (handled : f.manager.Handles r (m, .ended (.error e)))
    (requests : g.manager.requests = (m.settle k r (.error e)).1.requests)
    (failures : g.manager.queue.failures = (m.settle k r (.error e)).1.queue.failures)
    (hretry : e.isRetryable = true) :
    g.Trial k f.manager.settings.maxRetries (errors ++ [e]) := by
  cases h with
  | waiting stored free count patient => exact absurd busy free
  | dropped unstored free count split enough failure patient => exact absurd busy free
  | issuing unstored busy flag count patient =>
      have hreleased : m.isReleased k = false := by
        rw [Manager.isReleased_eq_false, handled.inFlight (by simp), flag]
        simp
      have hcount : m.queue.failuresOf k = errors.length := by rw [handled.queue, count]
      have hnone : m.requests.find? k = none := by rw [handled.requests, unstored]
      rw [Manager.settle_retryable r hreleased hretry, hcount, handled.settings]
        at requests failures
      split_ifs at requests failures with hagain
      · -- it is stored again, and the attempt is counted
        refine .waiting ?_ free ?_ (patient_append patient hagain)
        · rw [requests, Manager.has_requeue]
        · rw [WorkQueue.failuresOf, failures, List.length_append, ← hcount]
          exact m.failuresOf_requeue k r
      · obtain ⟨hfailure, hlate⟩ := not_or.1 hagain
        refine .dropped ?_ free ?_ rfl (by omega) (by simpa using hfailure) patient
        · rw [requests]
          exact hnone
        · rw [WorkQueue.failuresOf, failures]
          exact m.failuresOf_forget k

/-- A step that neither asks for the key nor releases it goes on with the trial. -/
theorem Trial.step {e : FloorEvent} {d : List Deed} {more : List Error} (hs : f.Sound)
    (h : f.Trial k f.manager.settings.maxRetries errors) (hstep : f.step? e = some g)
    (hd : g.journal = d ++ f.journal) (hquiet : ∀ x ∈ d, ¬ x.IsFor k)
    (hmore : (f.outcomeFor k e).toList = more.map .error)
    (hretry : ∀ e ∈ more, e.isRetryable = true) :
    g.Trial k f.manager.settings.maxRetries (errors ++ more) := by
  have herrand := errand_step hs hstep hd hquiet
  generalize f.outcomeFor k e = outcome at herrand hmore
  cases herrand with
  | kept requests busy flag failures =>
      obtain rfl : more = [] := List.map_eq_nil_iff.1 hmore.symm
      rw [List.append_nil]
      cases h with
      | waiting stored free count patient =>
          refine .waiting ?_ (busy.not.2 free) (failures.trans count) patient
          rw [Table.has, requests]
          exact stored
      | issuing unstored issues unflagged count patient =>
          exact .issuing (requests.trans unstored) (busy.2 issues) (flag.trans unflagged)
            (failures.trans count) patient
      | dropped unstored free count split enough failure patient =>
          exact .dropped (requests.trans unstored) (busy.not.2 free) (failures.trans count) split
            enough failure patient
  | taken stored free gone busy flag failures =>
      obtain rfl : more = [] := List.map_eq_nil_iff.1 hmore.symm
      rw [List.append_nil]
      rw [Table.has] at stored
      cases h with
      | waiting _ _ count patient => exact .issuing gone busy flag (failures.trans count) patient
      | issuing unstored issues _ _ _ => exact absurd issues free
      | dropped unstored _ _ _ _ _ _ => simp [unstored] at stored
  | @ended r m result busy free handled key requests failures =>
      obtain ⟨e, rfl⟩ : ∃ e, more = [e] := by
        obtain ⟨e, rest, rfl, -, hrest⟩ := List.map_eq_cons_iff.1 hmore.symm
        exact ⟨e, by rw [List.map_eq_nil_iff.1 hrest]⟩
      cases hmore
      exact h.ended busy free handled requests failures (hretry e List.mem_cons_self)

theorem Trial.run? {es : List FloorEvent} {d : List Deed} {more : List Error} (hs : f.Sound)
    (h : f.Trial k f.manager.settings.maxRetries errors) (hrun : f.run? es = some g)
    (hd : g.journal = d ++ f.journal) (hquiet : ∀ x ∈ d, ¬ x.IsFor k)
    (hmore : f.attempts k es = more.map .error) (hretry : ∀ e ∈ more, e.isRetryable = true) :
    g.Trial k f.manager.settings.maxRetries (errors ++ more) := by
  induction es generalizing f d errors more with
  | nil =>
      cases hrun
      obtain rfl : more = [] := List.map_eq_nil_iff.1 hmore.symm
      rwa [List.append_nil]
  | cons e es ih =>
      obtain ⟨f', d₁, d₂, hstep, hrest, h₁, h₂, rfl⟩ := run?_split hrun hd
      have hmove := move_of_step? hstep
      -- the errors are those of the first event and those of the rest
      rw [attempts, hstep] at hmore
      obtain ⟨first, rest, rfl, hfirst, hothers⟩ := List.map_eq_append_iff.1 hmore.symm
      have htrial := h.step hs hstep h₁ (fun x hx => hquiet x (List.mem_append_right _ hx))
        hfirst.symm fun e he => hretry e (List.mem_append_left _ he)
      rw [← settings_move hmove] at htrial ⊢
      rw [← List.append_assoc]
      exact ih (hs.move hmove) htrial hrest h₂ (fun x hx => hquiet x (List.mem_append_left _ hx))
        hothers.symm fun e he => hretry e (List.mem_append_right _ he)

/-! ## Before a request, and after it -/

/-- Nobody has asked for a key yet. -/
structure Unasked (f : Floor) (k : String) : Prop where
  unstored : f.manager.requests.find? k = none
  free : ¬ f.Busy k
  uncounted : f.manager.queue.failuresOf k = 0

theorem unasked_start (settings : ManagerSettings) (max : Int)
    (listing : Except Error (List Secret)) (shelf : Snapshot Secret) (k : String) :
    (start settings max listing shelf).Unasked k := by
  obtain ⟨q, -, -, -, heq⟩ := restored_eq settings max listing
  have hmanager : (start settings max listing shelf).manager =
      ⟨settings, .empty, .empty, .empty, true, q⟩ := heq
  refine ⟨by rw [hmanager]; rfl, ?_, by rw [hmanager]; rfl⟩
  rintro ⟨i, hi⟩
  rw [keyAt_of_idle (post_start settings max listing shelf i)] at hi
  cases hi

theorem Unasked.step {e : FloorEvent} {d : List Deed} (hs : f.Sound) (h : f.Unasked k)
    (hstep : f.step? e = some g) (hd : g.journal = d ++ f.journal)
    (hquiet : ∀ x ∈ d, ¬ x.IsFor k) : g.Unasked k := by
  have herrand := errand_step hs hstep hd hquiet
  generalize f.outcomeFor k e = outcome at herrand
  cases herrand with
  | kept requests busy flag failures =>
      exact ⟨requests.trans h.unstored, busy.not.2 h.free, failures.trans h.uncounted⟩
  | taken stored free gone busy flag failures =>
      rw [Table.has, h.unstored] at stored
      cases stored
  | ended busy free handled key requests failures => exact absurd busy h.free

/-- A request comes for a key that nobody has asked for. -/
theorem Unasked.trial {r : Request} (h : f.Unasked r.key) (n : Nat)
    (hstep : f.step? (.obtain r) = some g) : g.Trial r.key n [] := by
  cases hstep
  refine .waiting ?_ h.free ?_ (by simp)
  · show (f.manager.requests.insert r.key r).has r.key = true
    simp
  · show (f.manager.queue.add r.key).failuresOf r.key = 0
    rw [WorkQueue.failuresOf, WorkQueue.failures_add]
    exact h.uncounted

theorem Trial.attends_iff (h : f.Trial k n errors) :
    f.Attends k ↔ ∀ e ∈ errors.drop n, e.isPending = true := by
  cases h with
  | waiting stored free count patient => exact iff_of_true (Or.inl stored) patient
  | issuing unstored busy flag count patient => exact iff_of_true (Or.inr busy) patient
  | @dropped before e unstored free count split enough failure patient =>
      refine iff_of_false ?_ fun hall => ?_
      · rintro (stored | busy)
        · simp [Table.has, unstored] at stored
        · exact free busy
      · have he : e ∈ errors.drop n := by
          rw [split, List.drop_append_of_le_length enough]
          exact List.mem_append_right _ List.mem_cons_self
        rw [hall e he] at failure
        cases failure

/-- Only the last error after the first ones can be a failure. -/
theorem Trial.patient (h : f.Trial k n errors) :
    ∀ e ∈ (errors.drop n).dropLast, e.isPending = true := by
  cases h with
  | waiting _ _ _ patient => exact fun e he => patient e (List.mem_of_mem_dropLast he)
  | issuing _ _ _ _ patient => exact fun e he => patient e (List.mem_of_mem_dropLast he)
  | dropped _ _ _ split enough _ patient =>
      rw [split, List.drop_append_of_le_length enough, List.dropLast_concat]
      exact patient

/-- While the request is attended to, all attempts at it are counted. -/
theorem Trial.failuresOf (h : f.Trial k n errors) (hattends : f.Attends k) :
    f.manager.queue.failuresOf k = errors.length := by
  cases h with
  | waiting _ _ count _ => exact count
  | issuing _ _ _ count _ => exact count
  | dropped unstored free _ _ _ _ _ =>
      rcases hattends with stored | busy
      · simp [Table.has, unstored] at stored
      · exact absurd busy free

/-- No more than the attempts are counted. -/
theorem Trial.failuresOf_le (h : f.Trial k n errors) :
    f.manager.queue.failuresOf k ≤ errors.length := by
  cases h with
  | waiting _ _ count _ => exact Nat.le_of_eq count
  | issuing _ _ _ count _ => exact Nat.le_of_eq count
  | dropped _ _ count _ _ _ _ =>
      rw [count]
      exact Nat.zero_le _

theorem Trial.attends_iff_le (h : f.Trial k n errors) :
    f.Attends k ↔ failuresIn errors + patienceIn (errors.take n) ≤ n := by
  rw [h.attends_iff, failuresIn_add_patienceIn]
  have hnone : (∀ e ∈ errors.drop n, e.isPending = true) ↔ failuresIn (errors.drop n) = 0 := by
    rw [failuresIn, List.countP_eq_zero]
    simp
  have hrest : failuresIn (errors.drop n) ≤ errors.length - n := by
    rw [← List.length_drop]
    exact List.countP_le_length
  rw [hnone]
  omega

/-! ## The statement -/

/-- A request is the only one that is ever asked for its key, and the key is not released. All
attempts at it have ended in errors that can pass. Then it is still attended to exactly if the
failures, together with the answers among the first attempts that ask for patience, are no more
than the retries; in other words, if all attempts after the first ones have ended in patience. It
is dropped with the first of those that fails. So the failures alone decide if no answer among the
first ones asks for patience.

What is counted for the key are all attempts at the request while it is attended to, and never more
than these: 32 bits are enough for the count of fewer than `2 ^ 32` attempts. -/
theorem retries_before_drop {settings : ManagerSettings} {max : Int}
    {listing : Except Error (List Secret)} {shelf : Snapshot Secret} {es₀ es : List FloorEvent}
    {a b f : Floor} {r : Request} {d : List Deed} {errors : List Error}
    (hreach : (start settings max listing shelf).run? es₀ = some a)
    (hfirst : ∀ x ∈ a.journal, ¬ x.IsFor r.key) (hasked : a.step? (.obtain r) = some b)
    (hrun : b.run? es = some f) (hd : f.journal = d ++ b.journal)
    (honly : ∀ x ∈ d, ¬ x.IsFor r.key)
    (herrors : b.attempts r.key es = errors.map .error)
    (hretry : ∀ e ∈ errors, e.isRetryable = true) :
    let retries := settings.maxRetries
    (f.Attends r.key ↔ failuresIn errors + patienceIn (errors.take retries) ≤ retries) ∧
      (f.Attends r.key ↔ ∀ e ∈ errors.drop retries, e.isPending = true) ∧
      (∀ e ∈ (errors.drop retries).dropLast, e.isPending = true) ∧
      (patienceIn (errors.take retries) = 0 →
        (f.Attends r.key ↔ failuresIn errors ≤ retries)) ∧
      (f.Attends r.key → f.manager.queue.failuresOf r.key = errors.length) ∧
      f.manager.queue.failuresOf r.key ≤ errors.length := by
  intro retries
  have hstart := sound_start settings max listing shelf
  have hsa : a.Sound := sound_run? hstart hreach
  have hunasked : a.Unasked r.key :=
    run?_steps (P := fun f => f.Unasked r.key) (Q := fun x => ¬ x.IsFor r.key)
      (fun hs h hstep hd hquiet => h.step hs hstep hd hquiet) hstart
      (unasked_start settings max listing shelf r.key) hreach (List.append_nil _).symm hfirst
  have hsettings : b.manager.settings = settings := by
    rw [settings_move (move_of_step? hasked), settings_run? hreach, settings_start]
  have htrial := (hunasked.trial b.manager.settings.maxRetries hasked).run?
    (hsa.move (move_of_step? hasked)) hrun hd honly herrors hretry
  rw [List.nil_append, hsettings] at htrial
  refine ⟨htrial.attends_iff_le, htrial.attends_iff, htrial.patient, fun hnone => ?_,
    htrial.failuresOf, htrial.failuresOf_le⟩
  rw [htrial.attends_iff_le, hnone, Nat.add_zero]

/-- A manager with one worker that tries once more. -/
def hasty : Floor :=
  start { ManagerSettings.standard with workers := 1, maxRetries := 1 } 5 (.ok []) .empty

/-- The authority asks for patience, and the call fails the next time. -/
def patienceFirst : List FloorEvent :=
  [.take 0, .serve 0 .done, .resume 0, .order 0 (.error .pending), .ring 0, .take 0,
    .serve 0 .done, .resume 0, .order 0 (.error (.transport "reset"))]

/-- What the two attempts end in. -/
def patienceFirstErrors : List Error :=
  [.authority .pending, .authority (.transport "reset")]

theorem patienceFirst_runs :
    ∃ b f, hasty.step? (.obtain (requestFor "a.com")) = some b ∧ b.run? patienceFirst = some f ∧
      f.journal = b.journal ∧ f.posts = [.idle] ∧
      b.attempts (requestFor "a.com").key patienceFirst = patienceFirstErrors.map .error ∧
      f.manager.requests.find? (requestFor "a.com").key = none :=
  ⟨_, _, rfl, rfl, rfl, rfl, rfl, rfl⟩

/-- One failure is no more than the one retry, and still the request is dropped: the answer that
asked for patience was the first attempt. -/
theorem retries_before_drop_patienceFirst :
    ∃ b f, hasty.step? (.obtain (requestFor "a.com")) = some b ∧ b.run? patienceFirst = some f ∧
      ¬ f.Attends (requestFor "a.com").key ∧ failuresIn patienceFirstErrors = 1 ∧
      patienceIn (patienceFirstErrors.take 1) = 1 := by
  obtain ⟨b, f, hasked, hrun, hjournal, -, hattempts, -⟩ := patienceFirst_runs
  have hretry : ∀ e ∈ patienceFirstErrors, e.isRetryable = true := by decide
  have hstart : hasty.run? [] = some hasty := rfl
  obtain ⟨hiff, -⟩ := retries_before_drop (d := []) hstart (fun x hx => by cases hx) hasked hrun
    hjournal (fun x hx => by cases hx) hattempts hretry
  exact ⟨b, f, hasked, hrun, hiff.not.2 (by decide), by decide, by decide⟩

/-- It is not true that the failures alone decide. -/
theorem patience_uses_up_retries :
    ¬ ∀ (settings : ManagerSettings) (max : Int) (listing : Except Error (List Secret))
      (shelf : Snapshot Secret) (es₀ es : List FloorEvent) (a b f : Floor) (r : Request)
      (d : List Deed) (errors : List Error),
      (start settings max listing shelf).run? es₀ = some a →
      (∀ x ∈ a.journal, ¬ x.IsFor r.key) → a.step? (.obtain r) = some b → b.run? es = some f →
      f.journal = d ++ b.journal → (∀ x ∈ d, ¬ x.IsFor r.key) →
      b.attempts r.key es = errors.map .error → (∀ e ∈ errors, e.isRetryable = true) →
      (f.Attends r.key ↔ failuresIn errors ≤ settings.maxRetries) := by
  intro hall
  obtain ⟨b, f, hasked, hrun, hjournal, hposts, hattempts, hnone⟩ := patienceFirst_runs
  refine not_attends_of_idle hnone hposts ?_
  exact (hall _ 5 (.ok []) .empty [] patienceFirst hasty b f _ [] _ rfl (fun x hx => by cases hx)
    hasked hrun hjournal (fun x hx => by cases hx) hattempts (by decide)).2 (by decide)

end Floor

end IngressTls
