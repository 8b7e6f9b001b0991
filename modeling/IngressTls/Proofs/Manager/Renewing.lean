import IngressTls.Proofs.Manager.Consistency
import IngressTls.Proofs.Manager.Finality
import IngressTls.Proofs.Manager.Start
import IngressTls.Proofs.Manager.Targets
import IngressTls.Rehearsal.Workshop

set_option autoImplicit false

/-! # The renewal scan

The scan goes through the listed secrets in their order. It asks once for each secret that the
controller owns, whose bookkeeping can be read, and that has less validity left than the threshold;
it asks for the hosts and the place that the secret itself records. All other secrets are passed
over, whatever is wrong with them.

Asking stores the request under its key and adds the key to the queue. A key that is queued already
keeps its place, a key that a worker holds is queued again when the worker is done, and every other
key comes last, in the order of the listing. Nothing else about the manager changes.

Main statements: `exists_renewed`, `ready_obtainAll`, `obtainAll_eq` and `scan_asks_exactly`.
-/

namespace IngressTls

/-! ## Adding several keys -/

namespace Manager

variable {m : Manager} {rs : List Request} {k : String}

theorem exists_obtainAll_eq (m : Manager) (rs : List Request) :
    ∃ requests ready dirty bell, m.obtainAll rs =
      { m with requests, queue := { m.queue with ready, dirty, bell } } := by
  induction rs generalizing m with
  | nil => exact ⟨_, _, _, _, rfl⟩
  | cons r rs ih =>
      obtain ⟨requests, ready, dirty, bell, heq⟩ := ih (m.obtain r)
      rw [obtain, WorkQueue.add_eq m.queue r.key] at heq
      refine ⟨requests, ready, dirty, bell, Eq.trans ?_ heq⟩
      rw [← WorkQueue.add_eq]
      rfl

/-- Asking for certificates stores requests and adds keys to the queue, and the rest of the manager
is as it was. -/
theorem obtainAll_eq (m : Manager) (rs : List Request) :
    m.obtainAll rs =
      { m with
        requests := (m.obtainAll rs).requests
        queue := { m.queue with
          ready := (m.obtainAll rs).queue.ready
          dirty := (m.obtainAll rs).queue.dirty
          bell := (m.obtainAll rs).queue.bell } } := by
  obtain ⟨requests, ready, dirty, bell, heq⟩ := exists_obtainAll_eq m rs
  rw [heq]

theorem mem_dirty_obtainAll (hopen : m.queue.closed = false) :
    k ∈ (m.obtainAll rs).queue.dirty ↔ k ∈ rs.map Request.key ∨ k ∈ m.queue.dirty := by
  induction rs generalizing m with
  | nil => simp [obtainAll]
  | cons r rs ih =>
      have hopen' : (m.obtain r).queue.closed = false := (WorkQueue.add_closed _ _).trans hopen
      show k ∈ ((m.obtain r).obtainAll rs).queue.dirty ↔ _
      rw [ih hopen', List.map_cons, List.mem_cons, obtain, WorkQueue.mem_dirty_add hopen]
      tauto

/-- The keys of different requests that are neither dirty nor held come last, in their order. -/
theorem ready_obtainAll (hopen : m.queue.closed = false) (hkeys : (rs.map Request.key).Nodup) :
    (m.obtainAll rs).queue.ready = m.queue.ready ++
      (rs.map Request.key).filter fun k => k ∉ m.queue.dirty ∧ k ∉ m.queue.held := by
  induction rs generalizing m with
  | nil => exact (List.append_nil _).symm
  | cons r rs ih =>
      have hopen' : (m.obtain r).queue.closed = false := (WorkQueue.add_closed _ _).trans hopen
      obtain ⟨hfresh, hrest⟩ := List.nodup_cons.1 hkeys
      -- the keys that follow are other ones, and they are dirty if they were before
      have hsame : ((rs.map Request.key).filter fun k =>
            k ∉ (m.obtain r).queue.dirty ∧ k ∉ (m.obtain r).queue.held) =
          (rs.map Request.key).filter fun k => k ∉ m.queue.dirty ∧ k ∉ m.queue.held := by
        refine List.filter_congr fun k hk => decide_eq_decide.2 ?_
        have hne : k ≠ r.key := fun heq => hfresh (heq ▸ hk)
        rw [obtain, WorkQueue.mem_dirty_add hopen, WorkQueue.add_held, or_iff_right hne]
      show ((m.obtain r).obtainAll rs).queue.ready = _
      rw [ih hopen' hrest, hsame, obtain, WorkQueue.ready_add hopen, List.map_cons,
        List.filter_cons]
      by_cases hqueued : r.key ∈ m.queue.dirty ∨ r.key ∈ m.queue.held
      · have hnot : ¬ (r.key ∉ m.queue.dirty ∧ r.key ∉ m.queue.held) :=
          fun h => hqueued.elim h.1 h.2
        rw [if_pos hqueued, if_neg (mt of_decide_eq_true hnot)]
      · rw [if_neg hqueued, if_pos (decide_eq_true (not_or.1 hqueued)), List.append_assoc]
        rfl

theorem find?_obtainAll_other (hk : ∀ r ∈ rs, r.key ≠ k) :
    (m.obtainAll rs).requests.find? k = m.requests.find? k := by
  have hnone : (rs.reverse.find? fun r => r.key = k) = none := by
    refine List.find?_eq_none.2 fun r hr => ?_
    simpa using hk r (List.mem_reverse.1 hr)
  rw [Floor.Manager.find?_obtainAll, hnone]
  rfl

/-- Of requests for different keys each one is stored. -/
theorem find?_obtainAll_self (hkeys : (rs.map Request.key).Nodup) {r : Request} (hr : r ∈ rs) :
    (m.obtainAll rs).requests.find? r.key = some r := by
  induction rs generalizing m with
  | nil => cases hr
  | cons r' rs ih =>
      obtain ⟨hfresh, hrest⟩ := List.nodup_cons.1 hkeys
      show ((m.obtain r').obtainAll rs).requests.find? r.key = _
      rcases List.mem_cons.1 hr with rfl | hr
      · have hother : ∀ s ∈ rs, s.key ≠ r.key := fun s hs heq =>
          hfresh (List.mem_map.2 ⟨s, hs, heq⟩)
        rw [find?_obtainAll_other hother, obtain_requests, if_pos rfl]
      · exact ih hrest hr

/-! ## The threshold -/

/-- The longest threshold: as many milliseconds as a signed word of 64 bits can count. -/
def longestThreshold : Int := (2 ^ 63 - 1) * 1000000

/-- Seconds and nanoseconds are compared one after the other. -/
theorem threshold_le_iff (s : ManagerSettings) :
    s.threshold ≤ longestThreshold ↔ s.renewBefore < longestSeconds ∨
      s.renewBefore = longestSeconds ∧ s.renewBeforeNanos ≤ longestNanos := by
  have hnanos := s.renewBeforeNanos_lt
  unfold Duration.nanosPerSecond at hnanos
  unfold ManagerSettings.threshold Instant.nanosPerSecond longestThreshold longestSeconds
    longestNanos
  omega

theorem renewalThreshold_of_le (hrange : m.settings.threshold ≤ longestThreshold) :
    m.renewalThreshold = .ok m.settings.threshold := if_pos ((threshold_le_iff _).1 hrange)

/-- What a scan fails with when there is no threshold. -/
def thresholdError : Error :=
  .validation
    "renewal threshold out of range: Source duration value is out of range for the target type"

theorem renewalThreshold_of_lt (hrange : longestThreshold < m.settings.threshold) :
    m.renewalThreshold = .error thresholdError :=
  if_neg (mt (threshold_le_iff _).2 (Int.not_le.2 hrange))

/-! ## What is due -/

/-- The controller owns a listed secret, its bookkeeping can be read, and less validity is left
than the threshold; the request asks for the hosts that it records, at its place. -/
def RenewedBy (settings : ManagerSettings) (now : Instant) (s : Secret) (r : Request) : Prop :=
  s.metadata.isManagedBy settings.controllerName = true ∧
    ∃ b, Bookkeeping.read s = .ok b ∧
      b.notAfter.toNanos - now.toNanos < settings.threshold ∧
      r = ⟨b.domains, s.ref⟩

/-- The renewal scan, of which the listing may fail. -/
def renewExpiring (m : Manager) (now : Instant) (answer : Except Error (List Secret)) :
    Manager × Except Error Nat :=
  match m.renewalThreshold with
  | .error e => (m, .error e)
  | .ok threshold => m.afterRenewalListing threshold now answer

/-- The requests that the scan makes are those of the secrets that are due. -/
theorem renewedBy_iff {now : Instant} {s : Secret} {r : Request} :
    RenewedBy m.settings now s r ↔
      (m.due? m.settings.threshold now s).map Bookkeeping.toRequest = some r := by
  rw [RenewedBy, due?]
  cases hmanaged : s.metadata.isManagedBy m.settings.controllerName with
  | false => simp
  | true =>
      cases hread : Bookkeeping.read s with
      | error e => simp
      | ok b =>
          have htarget : b.toRequest = ⟨b.domains, s.ref⟩ := by
            rw [Bookkeeping.toRequest, (Bookkeeping.of_read hread).1]
          dsimp only
          rw [if_pos rfl]
          split
          · next hshort => simp [hshort, htarget, eq_comm]
          · next hlong => simp [hlong]

/-- What `filterMap` keeps, beside the members that it keeps it for. -/
theorem exists_filterMap {α β : Type} (f : α → Option β) (l : List α) :
    ∃ kept, kept.Sublist l ∧ (∀ a ∈ l, a ∈ kept ↔ ∃ b, f a = some b) ∧
      List.Forall₂ (fun a b => f a = some b) kept (l.filterMap f) := by
  refine ⟨l.filter fun a => (f a).isSome, List.filter_sublist, fun a ha => ?_, ?_⟩
  · rw [List.mem_filter, Option.isSome_iff_exists]
    exact and_iff_right ha
  · induction l with
    | nil => exact .nil
    | cons a l ih =>
        cases hf : f a with
        | none =>
            rw [List.filterMap_cons_none hf, List.filter_cons_of_neg (by simp [hf])]
            exact ih
        | some b =>
            rw [List.filterMap_cons_some hf, List.filter_cons_of_pos (by simp [hf])]
            exact .cons hf ih

/-- The secrets that are due, in the order of the listing, and what is asked for them. -/
theorem exists_renewed (hrange : m.settings.threshold ≤ longestThreshold) (now : Instant)
    (listing : List Secret) :
    ∃ due rs, due.Sublist listing ∧
      (∀ s ∈ listing, s ∈ due ↔ ∃ r, RenewedBy m.settings now s r) ∧
      List.Forall₂ (RenewedBy m.settings now) due rs ∧
      m.renewExpiring now (.ok listing) = (m.obtainAll rs, .ok due.length) := by
  let threshold : Int := m.settings.threshold
  let asks : Secret → Option Request := fun s =>
    (m.due? threshold now s).map Bookkeeping.toRequest
  obtain ⟨due, hsublist, hmem, hall⟩ := exists_filterMap asks listing
  have hasks : listing.filterMap asks =
      (listing.filterMap (m.due? threshold now)).map Bookkeeping.toRequest :=
    List.map_filterMap.symm
  refine ⟨due, listing.filterMap asks, hsublist, fun s hs => ?_, ?_, ?_⟩
  · rw [hmem s hs]
    exact exists_congr fun r => renewedBy_iff.symm
  · exact hall.imp fun s r => renewedBy_iff.2
  · rw [renewExpiring, renewalThreshold_of_le hrange, hall.length_eq, hasks]
    refine Prod.ext (afterRenewalListing_fst m threshold now listing) ?_
    rw [List.length_map]
    rfl

/-- Each request is for the place of its secret. -/
theorem map_key_of_renewed {settings : ManagerSettings} {now : Instant} {due : List Secret}
    (h : List.Forall₂ (RenewedBy settings now) due rs) :
    rs.map Request.key = due.map fun s => s.ref.key := by
  induction h with
  | nil => rfl
  | cons hs _ ih =>
      obtain ⟨-, b, -, -, rfl⟩ := hs
      rw [List.map_cons, List.map_cons, ih]
      rfl

/-- A scan whose listing fails changes nothing. -/
theorem renewExpiring_error (hrange : m.settings.threshold ≤ longestThreshold) (now : Instant)
    (e : Error) : m.renewExpiring now (.error e) = (m, .error e) := by
  rw [renewExpiring, renewalThreshold_of_le hrange]
  rfl

end Manager

/-! ## The scan of a manager at work -/

/-- The scan that is made in a workshop. -/
theorem Rehearsal.Workshop.renew_eq {σ : Type} {st : Rehearsal.Store σ}
    {w w' : Rehearsal.Workshop σ} {answer : Except Error (List Secret)}
    (hcall : w.call .list st.list = (w', answer))
    (hsettings : w'.manager.settings = w.manager.settings)
    (hrange : w.manager.settings.threshold ≤ Manager.longestThreshold) :
    w.renew st = ({ w' with manager := (w'.manager.renewExpiring w'.today answer).1 },
      (w'.manager.renewExpiring w'.today answer).2) := by
  have hthreshold := Manager.renewalThreshold_of_le (hsettings ▸ hrange)
  rw [Rehearsal.Workshop.renew, Manager.renewalThreshold_of_le hrange, hcall,
    Manager.renewExpiring, hthreshold, hsettings]

namespace Floor

/-- Whatever a manager has done, unless it has been shut down: a renewal scan asks once for each
listed secret that is due, in the order of the listing, for the hosts and at the place that the
secret records, and returns their number; the other secrets are passed over. Afterwards each of
these requests is stored, and its key is to be handed out, now or when the worker that holds it is
done. Keys that were queued keep their places, and the new ones follow in the order of the listing.
Nothing else changes, and if the listing fails, nothing at all. -/
theorem scan_asks_exactly {settings : ManagerSettings} {max : Int}
    {listed : Except Error (List Secret)} {shelf : Snapshot Secret} {es : List FloorEvent}
    {f : Floor} (hrun : (start settings max listed shelf).run? es = some f)
    (hopen : f.manager.queue.closed = false)
    (hrange : f.manager.settings.threshold ≤ Manager.longestThreshold) (now : Instant)
    {listing : List Secret} (hkeys : (listing.map fun s => s.ref.key).Nodup) :
    (∃ due rs m', f.manager.renewExpiring now (.ok listing) = (m', .ok due.length) ∧
      due.Sublist listing ∧
      (∀ s ∈ listing, s ∈ due ↔ ∃ r, Manager.RenewedBy f.manager.settings now s r) ∧
      List.Forall₂ (Manager.RenewedBy f.manager.settings now) due rs ∧
      m' = f.manager.obtainAll rs ∧
      (∀ r ∈ rs, m'.requests.find? r.key = some r ∧
        (r.key ∈ m'.queue.ready ∨ r.key ∈ m'.queue.held ∧ r.key ∈ m'.queue.dirty)) ∧
      (∀ k, (∀ r ∈ rs, r.key ≠ k) →
        m'.requests.find? k = f.manager.requests.find? k ∧
          (k ∈ m'.queue.dirty ↔ k ∈ f.manager.queue.dirty)) ∧
      m'.queue.ready = f.manager.queue.ready ++ (rs.map Request.key).filter
        (fun k => k ∉ f.manager.queue.dirty ∧ k ∉ f.manager.queue.held) ∧
      m' = { f.manager with
        requests := m'.requests
        queue := { f.manager.queue with
          ready := m'.queue.ready, dirty := m'.queue.dirty, bell := m'.queue.bell } }) ∧
    ∀ e, f.manager.renewExpiring now (.error e) = (f.manager, .error e) := by
  refine ⟨?_, fun e => Manager.renewExpiring_error hrange now e⟩
  have hsound : f.Sound := sound_run? (sound_start settings max listed shelf) hrun
  obtain ⟨due, rs, hsublist, hdue, hall, hscan⟩ :=
    Manager.exists_renewed hrange now listing
  have hnodup : (rs.map Request.key).Nodup := by
    rw [Manager.map_key_of_renewed hall]
    exact hkeys.sublist (hsublist.map _)
  have htidy : (f.manager.obtainAll rs).queue.Tidy :=
    (Manager.obtainAll_facts f.manager rs).2.2.2.2 hsound.tidy
  refine ⟨due, rs, f.manager.obtainAll rs, hscan, hsublist, hdue, hall, rfl, fun r hr => ?_,
    fun k hk => ?_, Manager.ready_obtainAll hopen hnodup, Manager.obtainAll_eq f.manager rs⟩
  · have hdirty : r.key ∈ (f.manager.obtainAll rs).queue.dirty :=
      (Manager.mem_dirty_obtainAll hopen).2 (Or.inl (List.mem_map_of_mem hr))
    refine ⟨Manager.find?_obtainAll_self hnodup hr, ?_⟩
    by_cases hheld : r.key ∈ (f.manager.obtainAll rs).queue.held
    · exact Or.inr ⟨hheld, hdirty⟩
    · exact Or.inl ((htidy.mem_ready r.key).2 ⟨hdirty, hheld⟩)
  · refine ⟨Manager.find?_obtainAll_other hk, (Manager.mem_dirty_obtainAll hopen).trans ?_⟩
    refine or_iff_right fun hmem => ?_
    obtain ⟨r, hr, heq⟩ := List.mem_map.1 hmem
    exact hk r hr heq

/-- A secret of a controller that lasts until some second. -/
def lasting (name controllerName : String) (seconds : Int) : Secret :=
  managedSecret ⟨.ofHosts ["b.com"], ⟨"default", name⟩⟩
    ⟨[], [], [], default, ⟨seconds, 0⟩⟩ controllerName

/-- Ten days before the present, six seconds after it, and five seconds after it, with a secret of
another controller and one without bookkeeping in between. -/
def fiveSecrets : List Secret :=
  [lasting "shared" Wire.defaultControllerName (-864000), lasting "foreign" "other" (-864000),
    { lasting "bare" Wire.defaultControllerName 0 with
      metadata := { Metadata.empty with name := some "bare", ns := some "default" } },
    lasting "fresh" Wire.defaultControllerName 6,
    lasting "soon" Wire.defaultControllerName 5]

/-- A manager that renews what has less than five and a half seconds left. -/
def lastMinute : ManagerSettings :=
  { ManagerSettings.standard with
    workers := 1, renewBefore := 5, renewBeforeNanos := 500000000, renewBeforeNanos_lt := by decide }

/-- The first and the last of them are due. The key of the first one is queued already. -/
theorem scan_asks_exactly_fiveSecrets :
    ∃ f due rs m', (start lastMinute 5 (.ok []) .empty).run? [.obtain (requestFor "a.com")] =
        some f ∧
      f.manager.renewExpiring ⟨0, 0⟩ (.ok fiveSecrets) = (m', .ok due.length) ∧ due.length = 2 ∧
      List.Forall₂ (Manager.RenewedBy f.manager.settings ⟨0, 0⟩) due rs ∧
      m'.queue.ready = ["shared@default", "soon@default"] ∧
      ∀ r ∈ rs, m'.requests.find? r.key = some r := by
  obtain ⟨f, hrun, hopen, hrange, hcount, hready⟩ : ∃ f,
      (start lastMinute 5 (.ok []) .empty).run? [.obtain (requestFor "a.com")] = some f ∧
      f.manager.queue.closed = false ∧
      f.manager.settings.threshold ≤ Manager.longestThreshold ∧
      (f.manager.renewExpiring ⟨0, 0⟩ (.ok fiveSecrets)).2 = .ok 2 ∧
      (f.manager.renewExpiring ⟨0, 0⟩ (.ok fiveSecrets)).1.queue.ready =
        ["shared@default", "soon@default"] :=
    ⟨_, rfl, rfl, by decide, rfl, by decide +kernel⟩
  have hkeys : (fiveSecrets.map fun s => s.ref.key).Nodup := by decide
  obtain ⟨⟨due, rs, m', hscan, -, -, hall, -, hstored, -⟩, -⟩ :=
    scan_asks_exactly hrun hopen hrange ⟨0, 0⟩ hkeys
  rw [hscan] at hcount hready
  exact ⟨f, due, rs, m', hrun, hscan, Except.ok.inj hcount, hall, hready,
    fun r hr => (hstored r hr).1⟩

end Floor

end IngressTls
