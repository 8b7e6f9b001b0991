import IngressTls.Proofs.Manager.Outstanding
import IngressTls.Proofs.Manager.Retries

set_option autoImplicit false

/-! # Failures that outlive their request

The failures of a key are counted for the request that fails, and how often it is tried again
depends on their count. Only the end of an attempt changes the count: an attempt that is to be made
again adds one, and any other forgets them all. A release ends no attempt. So a request that is
released between two attempts leaves its failures behind, and the next request for the key, whenever
it comes, starts with them: it is tried again less often, and after longer delays.

Main statements: `failuresOf_step` and `failures_left_iff`.
-/

namespace IngressTls

theorem Error.isRetryable_of_isPending {e : Error} (h : e.isPending = true) :
    e.isRetryable = true := by
  cases e with
  | authority a =>
      cases a with
      | pending => rfl
      | _ => cases h
  | _ => cases h

namespace Manager

variable {m m' : Manager} {k : String}

/-- Whether a request whose attempt has an outcome is tried again: it was not released, and the
authority asks for patience, or the error can pass and there are retries left. -/
def TriesAgain (m : Manager) (k : String) : Except Error Unit → Prop
  | .ok _ => False
  | .error e => m.isReleased k = false ∧
      (e.isPending = true ∨ e.isRetryable = true ∧ m.queue.failuresOf k < m.settings.maxRetries)

theorem settle_of_triesAgain {result : Except Error Unit} (r : Request)
    (h : m.TriesAgain k result) : m.settle k r result = m.requeue k r := by
  cases result with
  | ok _ => cases h
  | error e =>
      obtain ⟨hreleased, hagain⟩ := h
      have hretry : e.isRetryable = true :=
        hagain.elim Error.isRetryable_of_isPending fun h => h.1
      rw [settle_retryable r hreleased hretry, if_pos (hagain.imp_right fun h => h.2)]

theorem settle_of_not_triesAgain {result : Except Error Unit} (r : Request)
    (h : ¬ m.TriesAgain k result) : m.settle k r result = (m.forget k, .forgotten) := by
  obtain hforgotten | ⟨hreleased, ⟨e, rfl⟩, -⟩ := settle_cases m k r result
  · exact hforgotten
  · have hlast : ¬ (e.isPending = true ∨
        e.isRetryable = true ∧ m.queue.failuresOf k < m.settings.maxRetries) :=
      fun hagain => h ⟨hreleased, hagain⟩
    rw [not_or, not_and] at hlast
    by_cases hretry : e.isRetryable = true
    · rw [settle_retryable r hreleased hretry, if_neg (not_or.2 ⟨hlast.1, hlast.2 hretry⟩)]
    · show m.settleFailure k r e = _
      unfold settleFailure
      cases e with
      | quota refusal => simp [hreleased, hlast.1]
      | _ => simp [hreleased, hlast.1, hretry]

/-- The answer that ends an attempt does not change whether it is made again. -/
theorem Handles.triesAgain_iff {r : Request} {result : Except Error Unit}
    (h : m.Handles r (m', .ended result)) : m'.TriesAgain k result ↔ m.TriesAgain k result := by
  cases result with
  | ok _ => exact Iff.rfl
  | error e =>
      have hinFlight : m'.inFlight = m.inFlight := h.inFlight (by simp)
      have hqueue : m'.queue = m.queue := h.queue
      have hsettings : m'.settings = m.settings := h.settings
      rw [TriesAgain, TriesAgain, isReleased, isReleased, hinFlight, hqueue, hsettings]

end Manager

namespace Floor

variable {f g : Floor} {k : String}

/-! ## What a step does to the count -/

/-- An event ends an attempt for a key, and the attempt is to be made again. -/
def PutsBack (f : Floor) (k : String) (e : FloorEvent) : Prop :=
  ∃ result, f.outcomeFor k e = some result ∧ f.manager.TriesAgain k result

/-- An attempt that is made again is counted, and its request, or a newer one, is stored. -/
theorem Errand.of_putBack {result : Except Error Unit} (h : Errand f g k (some result))
    (hagain : f.manager.TriesAgain k result) :
    g.manager.queue.failuresOf k = f.manager.queue.failuresOf k + 1 ∧ g.Attends k := by
  cases h with
  | @ended r m _ busy free handled key requests failures =>
      rw [Manager.settle_of_triesAgain r (handled.triesAgain_iff.2 hagain)] at requests failures
      constructor
      · rw [WorkQueue.failuresOf, failures, ← handled.queue]
        exact m.failuresOf_requeue k r
      · refine Or.inl ?_
        rw [requests]
        exact m.has_requeue k r

/-- Any other attempt that ends lets the failures be forgotten. -/
theorem Errand.of_forgotten {result : Except Error Unit} (h : Errand f g k (some result))
    (hlast : ¬ f.manager.TriesAgain k result) : g.manager.queue.failuresOf k = 0 := by
  cases h with
  | @ended r m _ busy free handled key requests failures =>
      rw [Manager.settle_of_not_triesAgain r (handled.triesAgain_iff.not.2 hlast)] at failures
      show (g.manager.queue.failures.find? k).getD 0 = 0
      rw [failures]
      exact m.failuresOf_forget k

/-- A step that ends no attempt for a key leaves its count. -/
theorem Errand.failuresOf (h : Errand f g k none) :
    g.manager.queue.failuresOf k = f.manager.queue.failuresOf k := by
  cases h with
  | kept requests busy flag failures => exact failures
  | taken stored free gone busy flag failures => exact failures

theorem Errand.attends (h : Errand f g k none) (hf : f.Attends k) : g.Attends k := by
  cases h with
  | kept requests busy flag failures =>
      refine hf.imp (fun hstored => ?_) busy.2
      rwa [Table.has, requests]
  | taken stored free gone busy flag failures => exact Or.inr busy

/-- The end of an attempt is not noted. -/
theorem journal_of_outcome {e : FloorEvent} (hstep : f.step? e = some g)
    (h : f.outcomeFor k e ≠ none) : g.journal = f.journal := by
  cases turn_of_step? hstep with
  | informed reading => exact journal_advance _ _ _ _
  | stored storing => exact journal_advance _ _ _ _
  | cleared withdrawing => exact journal_advance _ _ _ _
  | ordered a ordering => exact journal_advance _ _ _ _
  | _ => exact absurd rfl h

/-- What is asked for or released leaves every count. -/
theorem failuresOf_of_demand {d : List Deed} (hm : Move f g) (hd : g.journal = d ++ f.journal)
    (hfor : ∃ x ∈ d, x.IsFor k) :
    g.manager.queue.failuresOf k = f.manager.queue.failuresOf k := by
  rcases isFor_move hm hd with hneutral | ⟨r, -, hg⟩ | ⟨t, -, rfl⟩ | ⟨rs, -, hg, -⟩
  · obtain ⟨x, hx, hxk⟩ := hfor
    exact absurd hxk (hneutral x hx k)
  · rw [hg, WorkQueue.failuresOf]
    show ((f.manager.queue.add r.key).failures.find? k).getD 0 = _
    rw [WorkQueue.failures_add]
    rfl
  · show (f.manager.release t).queue.failuresOf k = _
    obtain ⟨-, heq⟩ | ⟨-, heq⟩ := Manager.release_cases f.manager t
    · rw [heq]
    · rw [heq]
  · rw [hg, WorkQueue.failuresOf, Manager.failures_obtainAll]
    rfl

/-- What is asked for is stored. -/
theorem attends_of_demand {d : List Deed} (hm : Move f g) (hd : g.journal = d ++ f.journal)
    (hfor : ∃ x ∈ d, x.IsFor k) (hrel : ∀ s : SecretRef, s.key = k → .released s ∉ d) :
    g.Attends k := by
  obtain ⟨x, hx, hxk⟩ := hfor
  rcases isFor_move hm hd with hneutral | ⟨r, rfl, hg⟩ | ⟨t, rfl, -⟩ | ⟨rs, rfl, hg, -⟩
  · exact absurd hxk (hneutral x hx k)
  · obtain rfl := List.mem_singleton.1 hx
    have hkey : k = r.key := hxk.symm
    refine Or.inl ?_
    rw [Table.has, hg, Manager.obtain_requests, if_pos hkey]
    rfl
  · obtain rfl := List.mem_singleton.1 hx
    exact absurd hx (hrel t hxk)
  · obtain ⟨r, hr, rfl⟩ := List.mem_map.1 (List.mem_reverse.1 hx)
    have hfound : (rs.reverse.find? fun r' => r'.key = k).isSome = true :=
      List.find?_isSome.2 ⟨r, List.mem_reverse.2 hr, decide_eq_true hxk⟩
    refine Or.inl ?_
    rw [Table.has, hg, Manager.find?_obtainAll, Option.isSome_or, hfound]
    rfl

/-- Only the end of an attempt for a key changes its count: it grows by one if the attempt is to be
made again, and else it is forgotten. -/
theorem failuresOf_step {e : FloorEvent} (hs : f.Sound) (hstep : f.step? e = some g) :
    (f.outcomeFor k e = none →
      g.manager.queue.failuresOf k = f.manager.queue.failuresOf k) ∧
    (f.PutsBack k e →
      g.manager.queue.failuresOf k = f.manager.queue.failuresOf k + 1 ∧ g.Attends k) ∧
    (f.outcomeFor k e ≠ none → ¬ f.PutsBack k e → g.manager.queue.failuresOf k = 0) := by
  have hm := move_of_step? hstep
  obtain ⟨d, hd⟩ := journal_move hm
  by_cases hfor : ∃ x ∈ d, x.IsFor k
  · -- such an event ends no attempt
    have hnone : f.outcomeFor k e = none := by
      by_contra hsome
      have hnil : d = [] := List.append_left_eq_self.1
        (hd.symm.trans (journal_of_outcome hstep hsome))
      obtain ⟨x, hx, -⟩ := hfor
      rw [hnil] at hx
      cases hx
    refine ⟨fun _ => failuresOf_of_demand hm hd hfor, ?_, fun hsome => absurd hnone hsome⟩
    rintro ⟨result, hresult, -⟩
    rw [hnone] at hresult
    cases hresult
  · have herrand := errand_step hs hstep hd fun x hx hxk => hfor ⟨x, hx, hxk⟩
    refine ⟨fun hnone => ?_, ?_, fun hsome hlast => ?_⟩
    · rw [hnone] at herrand
      exact herrand.failuresOf
    · rintro ⟨result, hresult, hagain⟩
      rw [hresult] at herrand
      exact herrand.of_putBack hagain
    · obtain ⟨result, hresult⟩ := Option.ne_none_iff_exists'.1 hsome
      rw [hresult] at herrand
      exact herrand.of_forgotten fun hagain => hlast ⟨result, hresult, hagain⟩

/-- A step counts at most the attempt that it ends. -/
theorem failuresOf_step_le {e : FloorEvent} (hs : f.Sound) (hstep : f.step? e = some g) :
    g.manager.queue.failuresOf k ≤
      f.manager.queue.failuresOf k + (f.outcomeFor k e).toList.length := by
  obtain ⟨hkept, hback, hforgotten⟩ := failuresOf_step (k := k) hs hstep
  by_cases hnone : f.outcomeFor k e = none
  · rw [hkept hnone]
    exact Nat.le_add_right _ _
  · obtain ⟨result, hresult⟩ := Option.ne_none_iff_exists'.1 hnone
    rw [hresult, Option.toList_some, List.length_singleton]
    by_cases hagain : f.PutsBack k e
    · exact Nat.le_of_eq (hback hagain).1
    · rw [hforgotten hnone hagain]
      exact Nat.zero_le _

/-- A key is attended to as long as no attempt for it ends and it is not released. -/
theorem attends_step {e : FloorEvent} (hs : f.Sound) (hstep : f.step? e = some g)
    (hnone : f.outcomeFor k e = none) (hrel : ∀ s : SecretRef, s.key = k → e ≠ .release s)
    (h : f.Attends k) : g.Attends k := by
  have hm := move_of_step? hstep
  obtain ⟨d, hd⟩ := journal_move hm
  by_cases hfor : ∃ x ∈ d, x.IsFor k
  · exact attends_of_demand hm hd hfor fun s hkey hnoted =>
      hrel s hkey (release_of_noted hstep hd hnoted)
  · have herrand := errand_step hs hstep hd fun x hx hxk => hfor ⟨x, hx, hxk⟩
    rw [hnone] at herrand
    exact herrand.attends h

/-! ## Runs without attempts -/

theorem attempts_cons {e : FloorEvent} (hstep : f.step? e = some g) (es : List FloorEvent) :
    f.attempts k (e :: es) = (f.outcomeFor k e).toList ++ g.attempts k es := by
  rw [attempts, hstep]

theorem attempts_cons_eq_nil {e : FloorEvent} {es : List FloorEvent}
    (hstep : f.step? e = some g) :
    f.attempts k (e :: es) = [] ↔ f.outcomeFor k e = none ∧ g.attempts k es = [] := by
  rw [attempts_cons hstep, List.append_eq_nil_iff, Option.toList_eq_nil_iff]

/-- While no attempt for a key ends, its count stays. -/
theorem failuresOf_run? {es : List FloorEvent} (hs : f.Sound) (hrun : f.run? es = some g)
    (hnone : f.attempts k es = []) :
    g.manager.queue.failuresOf k = f.manager.queue.failuresOf k := by
  induction es generalizing f with
  | nil =>
      cases hrun
      rfl
  | cons e es ih =>
      rw [run?_cons] at hrun
      obtain ⟨f', hstep, hrest⟩ := Option.bind_eq_some_iff.1 hrun
      obtain ⟨hfirst, hothers⟩ := (attempts_cons_eq_nil hstep).1 hnone
      rw [ih (hs.move (move_of_step? hstep)) hrest hothers]
      exact (failuresOf_step hs hstep).1 hfirst

/-- A run counts at most the attempts that end in it. -/
theorem failuresOf_run?_le {es : List FloorEvent} (hs : f.Sound) (hrun : f.run? es = some g) :
    g.manager.queue.failuresOf k ≤
      f.manager.queue.failuresOf k + (f.attempts k es).length := by
  induction es generalizing f with
  | nil =>
      cases hrun
      exact Nat.le_add_right _ _
  | cons e es ih =>
      rw [run?_cons] at hrun
      obtain ⟨f', hstep, hrest⟩ := Option.bind_eq_some_iff.1 hrun
      have hfirst := failuresOf_step_le (k := k) hs hstep
      have hothers := ih (hs.move (move_of_step? hstep)) hrest
      rw [attempts_cons hstep, List.length_append]
      omega

/-- While no attempt for a key ends, it is attended to until it is released. -/
theorem attends_run? {es : List FloorEvent} (hs : f.Sound) (hrun : f.run? es = some g)
    (hnone : f.attempts k es = []) (hrel : ∀ s : SecretRef, s.key = k → .release s ∉ es)
    (h : f.Attends k) : g.Attends k := by
  induction es generalizing f with
  | nil =>
      cases hrun
      exact h
  | cons e es ih =>
      rw [run?_cons] at hrun
      obtain ⟨f', hstep, hrest⟩ := Option.bind_eq_some_iff.1 hrun
      obtain ⟨hfirst, hothers⟩ := (attempts_cons_eq_nil hstep).1 hnone
      refine ih (hs.move (move_of_step? hstep)) hrest hothers (fun s hkey hmem => ?_) ?_
      · exact hrel s hkey (List.mem_cons_of_mem e hmem)
      · refine attends_step hs hstep hfirst (fun s hkey heq => hrel s hkey ?_) h
        rw [heq]
        exact List.mem_cons_self

/-! ## The last attempt -/

/-- A run up to the end of an attempt for a key, and on from there without another one. -/
structure LastAttempt (f₀ : Floor) (k : String) (es : List FloorEvent) (a b : Floor)
    (e : FloorEvent) (after : List FloorEvent) : Prop where
  /-- The event that ends the attempt, and those before and after it. -/
  split : ∃ before, es = before ++ e :: after ∧ f₀.run? before = some a
  /-- The attempt ends. -/
  step : a.step? e = some b
  /-- It is an attempt for the key. -/
  ends : a.outcomeFor k e ≠ none
  /-- No other attempt for the key ends after it. -/
  last : b.attempts k after = []

/-- In every run in which an attempt for a key ends there is a last one. -/
theorem exists_lastAttempt {f₀ : Floor} {es : List FloorEvent} (hrun : f₀.run? es = some f)
    (h : f₀.attempts k es ≠ []) : ∃ a b e after, f₀.LastAttempt k es a b e after := by
  induction es generalizing f₀ with
  | nil => exact absurd rfl h
  | cons e es ih =>
      rw [run?_cons] at hrun
      obtain ⟨f', hstep, hrest⟩ := Option.bind_eq_some_iff.1 hrun
      by_cases hothers : f'.attempts k es = []
      · have hends : f₀.outcomeFor k e ≠ none := fun hnone =>
          h ((attempts_cons_eq_nil hstep).2 ⟨hnone, hothers⟩)
        exact ⟨f₀, f', e, es, ⟨[], rfl, rfl⟩, hstep, hends, hothers⟩
      · obtain ⟨a, b, e', after, ⟨before, rfl, hbefore⟩, hstep', hends, hlast⟩ := ih hrest hothers
        refine ⟨a, b, e', after, ⟨e :: before, rfl, ?_⟩, hstep', hends, hlast⟩
        rw [run?_cons, hstep]
        exact hbefore

namespace LastAttempt

variable {f₀ a b : Floor} {es after : List FloorEvent} {e : FloorEvent}

theorem sound (h : f₀.LastAttempt k es a b e after) (hs : f₀.Sound) : a.Sound := by
  obtain ⟨before, -, hbefore⟩ := h.split
  exact sound_run? hs hbefore

/-- The run goes on from the end of the last attempt. -/
theorem rest (h : f₀.LastAttempt k es a b e after) (hrun : f₀.run? es = some f) :
    b.run? after = some f := by
  obtain ⟨before, rfl, hbefore⟩ := h.split
  rw [run?_append, hbefore, Option.bind_some, run?_cons, h.step] at hrun
  exact hrun

/-- The count is what the last attempt made of it. -/
theorem failuresOf (h : f₀.LastAttempt k es a b e after) (hs : f₀.Sound)
    (hrun : f₀.run? es = some f) :
    f.manager.queue.failuresOf k = b.manager.queue.failuresOf k :=
  failuresOf_run? ((h.sound hs).move (move_of_step? h.step)) (h.rest hrun) h.last

end LastAttempt

/-- The last attempt for a key was to be made again, and the key has been released since. -/
def Withdrawn (f₀ : Floor) (k : String) (es : List FloorEvent) : Prop :=
  ∃ a b e after, f₀.LastAttempt k es a b e after ∧ a.PutsBack k e ∧
    ∃ s : SecretRef, s.key = k ∧ .release s ∈ after

/-! ## What is left -/

variable {f₀ : Floor} {es : List FloorEvent}

/-- Failures that nobody attends to are those of a request that was released. -/
theorem withdrawn_of_failures (hs : f₀.Sound) (hnothing : f₀.manager.queue.failuresOf k = 0)
    (hrun : f₀.run? es = some f) (hover : ¬ f.Attends k)
    (hleft : f.manager.queue.failuresOf k ≠ 0) : f₀.Withdrawn k es := by
  -- without an attempt nothing was counted
  have hattempts : f₀.attempts k es ≠ [] := fun hnone =>
    hleft ((failuresOf_run? hs hrun hnone).trans hnothing)
  obtain ⟨a, b, e, after, hlast⟩ := exists_lastAttempt hrun hattempts
  obtain ⟨-, hback, hforgotten⟩ := failuresOf_step (k := k) (hlast.sound hs) hlast.step
  have hputsBack : a.PutsBack k e := by
    by_contra hnot
    exact hleft ((hlast.failuresOf hs hrun).trans (hforgotten hlast.ends hnot))
  refine ⟨a, b, e, after, hlast, hputsBack, ?_⟩
  -- what was put back is attended to until it is released
  by_contra hrel
  have hsb := (hlast.sound hs).move (move_of_step? hlast.step)
  exact hover (attends_run? hsb (hlast.rest hrun) hlast.last
    (fun s hkey hmem => hrel ⟨s, hkey, hmem⟩) (hback hputsBack).2)

/-- The failures of a request that was released stay. -/
theorem failures_of_withdrawn (hs : f₀.Sound) (hrun : f₀.run? es = some f)
    (h : f₀.Withdrawn k es) : f.manager.queue.failuresOf k ≠ 0 := by
  obtain ⟨a, b, e, after, hlast, hputsBack, -⟩ := h
  obtain ⟨-, hback, -⟩ := failuresOf_step (k := k) (hlast.sound hs) hlast.step
  rw [hlast.failuresOf hs hrun, (hback hputsBack).1]
  exact Nat.succ_ne_zero _

/-- The next attempt that fails is counted on top of the failures that are there, if these are fewer
than the retries. -/
theorem failuresOf_next {g h : Floor} {e : FloorEvent} {error : Error} (hs : f.Sound)
    (hrun : f.run? es = some g) (hnone : f.attempts k es = []) (hstep : g.step? e = some h)
    (houtcome : g.outcomeFor k e = some (.error error)) (hretry : error.isRetryable = true)
    (hfailure : error.isPending = false) (hunreleased : g.manager.isReleased k = false) :
    h.manager.queue.failuresOf k =
      if f.manager.queue.failuresOf k < f.manager.settings.maxRetries then
        f.manager.queue.failuresOf k + 1
      else 0 := by
  have hkept := failuresOf_run? hs hrun hnone
  have hsettings := settings_run? hrun
  obtain ⟨-, hback, hforgotten⟩ := failuresOf_step (k := k) (sound_run? hs hrun) hstep
  split_ifs with hless
  · rw [← hkept]
    refine (hback ⟨_, houtcome, hunreleased, Or.inr ⟨hretry, ?_⟩⟩).1
    rwa [hkept, hsettings]
  · refine hforgotten (by rw [houtcome]; exact Option.some_ne_none _) ?_
    rintro ⟨result, hresult, hagain⟩
    cases houtcome.symm.trans hresult
    obtain ⟨-, hpending | ⟨-, hfew⟩⟩ := hagain
    · rw [hpending] at hfailure
      cases hfailure
    · rw [hkept, hsettings] at hfew
      exact hless hfew

/-- A key has failures left that nobody attends to, since no request for it is stored and no worker
issues for it, exactly if its last attempt was to be made again and it has been released since. The
next request for the key starts with them: the first attempt at it that fails is made again if the
failures left are fewer than the retries, and is counted on top of them. There are no more of them
than attempts for the key have ended, so that 32 bits are enough for fewer than `2 ^ 32` attempts. -/
theorem failures_left_iff {settings : ManagerSettings} {max : Int}
    {listing : Except Error (List Secret)} {shelf : Snapshot Secret} {es : List FloorEvent}
    (hrun : (start settings max listing shelf).run? es = some f) (hover : ¬ f.Attends k) :
    let left := f.manager.queue.failuresOf k
    (left ≠ 0 ↔ (start settings max listing shelf).Withdrawn k es) ∧
      (∀ more g e h error, f.run? more = some g → f.attempts k more = [] → g.step? e = some h →
        g.outcomeFor k e = some (.error error) → error.isRetryable = true →
        error.isPending = false → g.manager.isReleased k = false →
        h.manager.queue.failuresOf k = (if left < settings.maxRetries then left + 1 else 0)) ∧
      left ≤ ((start settings max listing shelf).attempts k es).length := by
  intro left
  have hstart := sound_start settings max listing shelf
  have hnothing := (unasked_start settings max listing shelf k).uncounted
  have hsettings : f.manager.settings = settings := by
    rw [settings_run? hrun, settings_start]
  refine ⟨⟨withdrawn_of_failures hstart hnothing hrun hover,
    failures_of_withdrawn hstart hrun⟩, ?_, ?_⟩
  · intro more g e h error hmore hnone hstep houtcome hretry hfailure hunreleased
    rw [← hsettings]
    exact failuresOf_next (sound_run? hstart hrun) hmore hnone hstep houtcome hretry hfailure
      hunreleased
  · have hcount := failuresOf_run?_le (k := k) hstart hrun
    rwa [hnothing, Nat.zero_add] at hcount

/-- The authority fails, and the request is released before it is tried again. -/
def releasedBetweenAttempts : List FloorEvent :=
  [.obtain (requestFor "a.com"), .take 0, .serve 0 .done, .resume 0,
    .order 0 (.error (.transport "reset")), .release (requestFor "a.com").target, .ring 0, .take 0]

/-- The same is asked for again. -/
def askedAnew : List FloorEvent :=
  [.obtain (requestFor "a.com"), .take 0, .serve 0 .done, .resume 0]

theorem releasedBetweenAttempts_runs :
    ∃ f, hasty.run? releasedBetweenAttempts = some f ∧
      f.manager.requests.find? (requestFor "a.com").key = none ∧
      f.manager.queue.ready = [] ∧ f.posts = [.idle] ∧ f.timers = [] ∧
      f.manager.queue.failuresOf (requestFor "a.com").key = 1 ∧
      ∃ g h, f.run? askedAnew = some g ∧
        f.attempts (requestFor "a.com").key askedAnew = [] ∧
        g.step? (.order 0 (.error (.transport "reset"))) = some h ∧
        g.outcomeFor (requestFor "a.com").key (.order 0 (.error (.transport "reset"))) =
          some (.error (.authority (.transport "reset"))) ∧
        g.manager.isReleased (requestFor "a.com").key = false :=
  ⟨_, rfl, rfl, rfl, rfl, rfl, rfl, _, _, rfl, rfl, rfl, rfl, rfl⟩

/-- The failure of the released request is left, and it uses up the only retry of the next one. -/
theorem failures_left_iff_releasedBetweenAttempts :
    ∃ f g h, hasty.run? releasedBetweenAttempts = some f ∧
      hasty.Withdrawn (requestFor "a.com").key releasedBetweenAttempts ∧
      f.run? askedAnew = some g ∧ g.step? (.order 0 (.error (.transport "reset"))) = some h ∧
      h.manager.queue.failuresOf (requestFor "a.com").key = 0 := by
  obtain ⟨f, hrun, hnone, -, hposts, -, hleft, g, h, hmore, hunended, hstep, houtcome,
    hunreleased⟩ := releasedBetweenAttempts_runs
  obtain ⟨hiff, hnext, -⟩ := failures_left_iff hrun (not_attends_of_idle hnone hposts)
  have hdropped := hnext _ _ _ _ _ hmore hunended hstep houtcome rfl rfl hunreleased
  rw [hleft] at hdropped hiff
  exact ⟨f, g, h, hrun, hiff.1 Nat.one_ne_zero, hmore, hstep, hdropped⟩

/-- It is not true that a key has no failures left when no request for it is stored and it is not
queued, held or to be added again. -/
theorem failures_can_outlive_request :
    ¬ ∀ (settings : ManagerSettings) (max : Int) (listing : Except Error (List Secret))
      (shelf : Snapshot Secret) (es : List FloorEvent) (f : Floor) (k : String),
      (start settings max listing shelf).run? es = some f →
      f.manager.requests.find? k = none → k ∉ f.manager.queue.ready → ¬ f.Busy k →
      k ∉ f.timers → f.manager.queue.failuresOf k = 0 := by
  intro hall
  obtain ⟨f, hrun, hnone, hready, hposts, htimers, hleft, -⟩ := releasedBetweenAttempts_runs
  have hfree : ¬ f.Busy (requestFor "a.com").key := fun hbusy =>
    not_attends_of_idle hnone hposts (Or.inr hbusy)
  have hzero := hall _ _ _ _ _ f _ hrun hnone (by rw [hready]; exact List.not_mem_nil) hfree
    (by rw [htimers]; exact List.not_mem_nil)
  rw [hleft] at hzero
  cases hzero

end Floor

end IngressTls
