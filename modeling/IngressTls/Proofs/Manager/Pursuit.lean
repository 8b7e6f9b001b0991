import IngressTls.Proofs.Manager.Newest
import IngressTls.Proofs.Manager.Ownership

set_option autoImplicit false

/-! # Demand that is pursued

A secret is *pursued* while a request for it is stored and its key is to be handed out, or while
a worker is on its way to write it and has not been told of a release. If every call succeeds,
the authority answers with certificates and the quota has room, then only a release ends the
pursuit before its time: otherwise it goes on until the secret is written, or a worker finds that
it belongs to somebody else.

Main statements: `pursued_step` and `not_pursued_of_quiet`.
-/

namespace IngressTls

/-- Whether an event is one of a manager that nobody stops, while its calls succeed, the authority
answers with certificates and nobody else writes secrets. -/
def FloorEvent.isSmooth : FloorEvent → Bool
  | serve _ .done | order _ (.ok _) => true
  | serve _ _ | order _ (.error _) | put _ | stop => false
  | take _ | resume _ | ring _ | list | renew _ | obtain _ | release _ | look _ | remove _ => true

theorem FloorEvent.done_of_smooth {i : Nat} {service : Service}
    (h : (serve i service).isSmooth = true) : service = .done := by
  cases service with
  | done => rfl
  | refused e => cases h
  | lost e => cases h

namespace Manager

variable {m : Manager} {k : String}

/-- A request is stored for a key, and the key is to be handed out. -/
def Queues (m : Manager) (k : String) : Prop := m.requests.has k = true ∧ k ∈ m.queue.dirty

theorem queues_obtain (hopen : m.queue.closed = false) (r : Request) :
    (m.obtain r).Queues r.key := by
  refine ⟨?_, (WorkQueue.mem_dirty_add hopen r.key r.key).2 (Or.inl rfl)⟩
  show (m.requests.insert r.key r).has r.key = true
  rw [Table.has_insert]
  simp

theorem Queues.obtain (h : m.Queues k) (hopen : m.queue.closed = false) (r : Request) :
    (m.obtain r).Queues k := by
  refine ⟨?_, (WorkQueue.mem_dirty_add hopen r.key k).2 (Or.inr h.2)⟩
  show (m.requests.insert r.key r).has k = true
  rw [Table.has_insert, h.1, Bool.or_true]

theorem closed_obtainAll (m : Manager) (rs : List Request) :
    (m.obtainAll rs).queue.closed = m.queue.closed := by
  induction rs generalizing m with
  | nil => rfl
  | cons r rs ih => exact (ih (m.obtain r)).trans (WorkQueue.add_closed _ _)

theorem Queues.obtainAll (h : m.Queues k) (hopen : m.queue.closed = false) (rs : List Request) :
    (m.obtainAll rs).Queues k := by
  induction rs generalizing m with
  | nil => exact h
  | cons r rs ih => exact ih (h.obtain hopen r) ((WorkQueue.add_closed _ _).trans hopen)

/-- What is asked for is queued. -/
theorem queues_obtainAll (hopen : m.queue.closed = false) {rs : List Request} {r : Request}
    (hr : r ∈ rs) : (m.obtainAll rs).Queues r.key := by
  induction rs generalizing m with
  | nil => cases hr
  | cons r' rs ih =>
      have hopen' : (m.obtain r').queue.closed = false := (WorkQueue.add_closed _ _).trans hopen
      rcases List.mem_cons.1 hr with rfl | hrest
      · exact (queues_obtain hopen r).obtainAll hopen' rs
      · exact ih hopen' hrest

end Manager

/-- Whether a worker is on its way to write a secret. It is not once it has been told that the
secret belongs to somebody else. -/
def Post.Promises (m : Manager) (s : SecretRef) : Post → Prop
  | reading r none | ordering r | storing r _ none => r.target = s
  | reading r (some (.ok existing)) => r.target = s ∧ m.isForeign existing = false
  | reading _ (some (.error _)) | storing _ _ (some _) | withdrawing _ _ | idle | ended => False

theorem Post.Promises.request {m : Manager} {s : SecretRef} {p : Post} (h : p.Promises m s) :
    ∃ r, p.request? = some r ∧ r.target = s := by
  cases p with
  | reading r a =>
      rcases a with _ | _ | existing
      · exact ⟨r, rfl, h⟩
      · exact h.elim
      · exact ⟨r, rfl, h.1⟩
  | ordering r => exact ⟨r, rfl, h⟩
  | storing r sec a =>
      cases a with
      | none => exact ⟨r, rfl, h⟩
      | some a => exact h.elim
  | withdrawing r a => exact h.elim
  | idle => exact h.elim
  | ended => exact h.elim

theorem Post.Promises.congr {m m' : Manager} {s : SecretRef} {p : Post} (h : p.Promises m s)
    (hsettings : m'.settings = m.settings) : p.Promises m' s := by
  cases p with
  | reading r a =>
      rcases a with _ | _ | existing
      · exact h
      · exact h
      · refine ⟨h.1, ?_⟩
        rw [Manager.isForeign, hsettings]
        exact h.2
  | storing r sec a =>
      cases a with
      | none => exact h
      | some a => exact h
  | ordering r => exact h
  | withdrawing r a => exact h
  | idle => exact h
  | ended => exact h

namespace Floor

variable {f g : Floor} {s : SecretRef} {D : DomainSet}

/-- A worker is on its way to write a secret, and has not been told of a release. -/
def Promised (f : Floor) (s : SecretRef) : Prop :=
  f.manager.isReleased s.key = false ∧ ∃ i, (f.post i).Promises f.manager s

/-- A certificate for a secret is queued, or a worker is on its way to write it. -/
def Pursued (f : Floor) (s : SecretRef) : Prop := f.manager.Queues s.key ∨ f.Promised s

/-- The manager owns the secret, and it holds a certificate for given hosts. -/
def Meets (f : Floor) (s : SecretRef) (D : DomainSet) : Prop :=
  ∃ o, f.secret? s = some o ∧
    o.metadata.isManagedBy f.manager.settings.controllerName = true ∧
    (SecretView.ofSecret o).domains = some D

/-- The quota has room for what a worker is about to reserve for a secret. -/
def admits (f : Floor) (s : SecretRef) : FloorEvent → Bool
  | .resume i =>
    match f.post i with
    | .reading r (some (.ok existing)) =>
      r.target ≠ s || f.manager.isForeign existing ||
        (f.manager.quota.reserve r.key r.domains.size).isOk
    | _ => true
  | _ => true

/-- When nothing is queued or in flight nothing is pursued. -/
theorem not_pursued_of_quiet (hs : f.Sound) (hquiet : f.IsQuiet) (s : SecretRef) :
    ¬ f.Pursued s := by
  have hidle := request_of_quiet hquiet
  rintro (⟨-, hdirty⟩ | ⟨-, i, hi⟩)
  · -- a dirty key that nobody holds would be handed out
    have hfree : s.key ∉ f.manager.queue.held := by
      intro hheld
      obtain ⟨i, hi⟩ := (hs.held s.key).1 hheld
      rw [keyAt_of_idle (hidle i)] at hi
      cases hi
    have hready := (hs.tidy.mem_ready s.key).2 ⟨hdirty, hfree⟩
    rw [hquiet.1] at hready
    cases hready
  · obtain ⟨r, hr, -⟩ := hi.request
    rw [hidle i] at hr
    cases hr

/-! ## What a step leaves queued -/

theorem queue_conclude (f : Floor) (i : Nat) (r : Request) (result : Except Error Unit) :
    (f.conclude i r result).manager.queue.closed = f.manager.queue.closed ∧
      (f.conclude i r result).manager.queue.dirty = f.manager.queue.dirty := by
  have hset := Manager.settled_settle f.manager r.key r result
  show ((f.manager.settle r.key r result).1.finish r.key).queue.closed = _ ∧
    ((f.manager.settle r.key r result).1.finish r.key).queue.dirty = _
  rw [Manager.finish_queue, WorkQueue.done_closed, WorkQueue.done_dirty]
  exact ⟨hset.closed, hset.dirty⟩

theorem inFlight_conclude (f : Floor) (i : Nat) (r : Request) (result : Except Error Unit) :
    (f.conclude i r result).manager.inFlight = f.manager.inFlight.erase r.key := by
  show ((f.manager.settle r.key r result).1.finish r.key).inFlight = _
  rw [Manager.finish_inFlight, (Manager.settled_settle f.manager r.key r result).inFlight]

/-- An issuance that ends leaves what is queued. -/
theorem queues_conclude {m : Manager} {k : String} (h : m.Queues k) (i : Nat) (r : Request)
    (result : Except Error Unit) : ((f.setManager m).conclude i r result).manager.Queues k := by
  refine ⟨?_, ?_⟩
  · show ((m.settle r.key r result).1.finish r.key).requests.has k = true
    rw [Manager.finish_requests]
    rcases Manager.settle_requests m r.key r result with heq | ⟨-, -, heq⟩
    · rw [heq]
      exact h.1
    · rw [heq, Table.has_insert, h.1, Bool.or_true]
  · rw [(queue_conclude (f.setManager m) i r result).2]
    exact h.2

/-- A key that is handed out to a worker is not the one that is still queued. -/
theorem queues_startOn {m : Manager} {i : Nat} {j k : String} (hs : f.Sound)
    (ht : f.manager.take i = (m, .key j)) (h : f.manager.Queues k) (hne : k ≠ j) :
    (m.startOn j).1.Queues k := by
  obtain ⟨q, hq, rfl⟩ := Manager.take_eq ht
  obtain ⟨-, -, -, -, hdirty⟩ := hs.tidy.take_key hq
  refine ⟨?_, (hdirty k).2 ⟨h.2, hne⟩⟩
  show (f.manager.requests.erase j).has k = true
  rw [Table.has_erase, h.1]
  simpa using hne

/-- What is queued stays queued until it is released or a worker starts on it. -/
theorem queues_move {k : String} {d : List Deed} (hs : f.Sound)
    (hopen : f.manager.queue.closed = false) (hm : Move f g) (hd : g.journal = d ++ f.journal)
    (hreleased : ∀ t : SecretRef, .released t ∈ d → t.key ≠ k) (h : f.manager.Queues k) :
    g.manager.Queues k ∨
      ∃ i r, g.post i = .reading r none ∧ r.key = k ∧ g.manager.isReleased k = false := by
  cases hm with
  | waited idle taken =>
      obtain ⟨q, hq, rfl⟩ := Manager.take_eq taken
      obtain ⟨-, hdirty, -⟩ := WorkQueue.take_none hq fun k hk => by cases hk
      exact Or.inl ⟨h.1, by show k ∈ q.dirty; rw [hdirty]; exact h.2⟩
  | left idle taken =>
      obtain ⟨q, hq, rfl⟩ := Manager.take_eq taken
      obtain ⟨-, hdirty, -⟩ := WorkQueue.take_none hq fun k hk => by cases hk
      exact Or.inl ⟨h.1, by show k ∈ q.dirty; rw [hdirty]; exact h.2⟩
  | @skipped i m j idle taken none =>
      -- a key with a request is not skipped
      have hne : k ≠ j := by
        rintro rfl
        rw [Manager.Queues, Table.has, none] at h
        cases h.1
      have hstart := queues_startOn hs taken h hne
      refine Or.inl ⟨?_, ?_⟩
      · show ((m.startOn j).1.finish j).requests.has k = true
        rw [Manager.finish_requests]
        exact hstart.1
      · show k ∈ ((m.startOn j).1.finish j).queue.dirty
        rw [Manager.finish_queue, WorkQueue.done_dirty]
        exact hstart.2
  | @started i m j r idle taken some =>
      by_cases hk : k = j
      · subst hk
        refine Or.inr ⟨i, r, ?_, hs.keyed k r some, ?_⟩
        · exact (post_of_posts (p := .reading r .none) (ne_ended_of_idle idle) rfl i).trans
            (if_pos rfl)
        · rw [Manager.isReleased_eq_false]
          show (m.inFlight.insert k false).find? k ≠ Option.some true
          rw [Table.find?_insert, if_pos rfl]
          simp
      · exact Or.inl (queues_startOn hs taken h hk)
  | failed e reading => exact Or.inl (queues_conclude (f := f) h _ _ _)
  | @gaveUp i r result standing why =>
      exact Or.inl (queues_conclude (m := f.manager.rollback r) h _ _ _)
  | @stored i r sec storing unreleased =>
      exact Or.inl (queues_conclude (m := { f.manager with
        inFlight := f.manager.inFlight.erase r.key
        quota := f.manager.quota.commit r.key }) h _ _ _)
  | cleared withdrawing => exact Or.inl (queues_conclude (f := f) h _ _ _)
  | @rang place j timer =>
      exact Or.inl ⟨h.1, (WorkQueue.mem_dirty_add hopen j k).2 (Or.inr h.2)⟩
  | @renewed listing threshold now scan =>
      left
      show (f.manager.afterRenewalListing threshold now (.ok listing)).1.Queues k
      rw [Manager.afterRenewalListing_fst]
      exact h.obtainAll hopen _
  | asked r => exact Or.inl (h.obtain hopen r)
  | released t =>
      -- a release takes back the request of its own key only
      have heq : d = [.released t] := (List.append_left_inj f.journal).1 hd.symm
      have hne : k ≠ t.key := fun hk => hreleased t (by rw [heq]; exact List.mem_cons_self) hk.symm
      have hrequests : (f.manager.requests.erase t.key).has k = true := by
        rw [Table.has_erase, h.1]
        simpa using hne
      left
      show (f.manager.release t).Queues k
      obtain ⟨-, hrelease⟩ | ⟨-, hrelease⟩ := Manager.release_cases f.manager t
      · rw [hrelease]
        exact ⟨hrequests, h.2⟩
      · rw [hrelease]
        exact ⟨hrequests, h.2⟩
  | _ => exact Or.inl h

/-- The renewal scan has listed a secret that it asks for when it is due. -/
def Renews (f : Floor) (r : Request) : Prop :=
  ∃ listing, f.scan = some listing ∧ ∃ o ∈ listing, ∃ threshold now b,
    f.manager.due? threshold now o = some b ∧ b.toRequest = r

/-- A step notes nothing that asks or releases, or it asks from outside, releases a secret or lets
the renewal scan ask, and does nothing else. -/
theorem isFor_move {d : List Deed} (hm : Move f g) (hd : g.journal = d ++ f.journal) :
    (∀ x ∈ d, ∀ k, ¬ x.IsFor k) ∨
    (∃ r, d = [.asked r] ∧ g.manager = f.manager.obtain r) ∨
    (∃ t, d = [.released t] ∧ g = (f.setManager (f.manager.release t)).note (.released t)) ∨
    ∃ rs, d = (rs.map Deed.renewed).reverse ∧ g.manager = f.manager.obtainAll rs ∧
      ∀ r ∈ rs, f.Renews r := by
  have hd' : ∀ {d'}, g.journal = d' ++ f.journal → d = d' := fun heq =>
    (List.append_left_inj f.journal).1 (hd.symm.trans heq)
  have hneutral : ∀ d', g.journal = d' ++ f.journal → (∀ x ∈ d', ∀ k, ¬ x.IsFor k) →
      ∀ x ∈ d, ∀ k, ¬ x.IsFor k := fun _ heq hall => hd' heq ▸ hall
  cases hm with
  | read service reading => exact Or.inl (hneutral _ rfl notes_not_isFor)
  | unwritten storing effect => exact Or.inl (hneutral _ rfl notes_not_isFor)
  | unwithdrawn withdrawing effect => exact Or.inl (hneutral _ rfl notes_not_isFor)
  | @wrote i r sec service storing effect =>
      exact Or.inl (hneutral (service.notes r.target ++ [.wrote r.target])
        (by rw [List.append_assoc]; rfl) (effect_not_isFor fun _ => id))
  | @withdrew i r service withdrawing effect =>
      exact Or.inl (hneutral (service.notes r.target ++ [.withdrew r.target])
        (by rw [List.append_assoc]; rfl) (effect_not_isFor fun _ => id))
  | asked r => exact Or.inr (Or.inl ⟨r, hd' rfl, rfl⟩)
  | released t => exact Or.inr (Or.inr (Or.inl ⟨t, hd' rfl, rfl⟩))
  | @renewed listing threshold now scan =>
      refine Or.inr (Or.inr (Or.inr ⟨_, (hd' rfl).trans ?_,
        Manager.afterRenewalListing_fst f.manager threshold now listing, fun r hr => ?_⟩))
      · rw [List.map_map]
        rfl
      · obtain ⟨b, hb, rfl⟩ := List.mem_map.1 hr
        obtain ⟨o, ho, hdue⟩ := List.mem_filterMap.1 hb
        exact ⟨listing, scan, o, ho, threshold, now, b, hdue, rfl⟩
  | looked t => exact Or.inl (hneutral [.looked t] rfl (by simp [Deed.IsFor]))
  | removed t => exact Or.inl (hneutral [.removed t] rfl (by simp [Deed.IsFor]))
  | @placed sec named => exact Or.inl (hneutral [.placed sec.ref] rfl (by simp [Deed.IsFor]))
  | _ => exact Or.inl (hneutral [] rfl fun x hx => by cases hx)

/-- What is asked for is queued. -/
theorem queues_of_asksFor {r : Request} {x : Deed} {d : List Deed}
    (hopen : f.manager.queue.closed = false) (hm : Move f g) (hd : g.journal = d ++ f.journal)
    (hx : x ∈ d) (hasks : x.AsksFor r) : g.manager.Queues r.key := by
  rcases isFor_move hm hd with hneutral | ⟨r', rfl, hg⟩ | ⟨t, rfl, -⟩ | ⟨rs, rfl, hg, -⟩
  · exact absurd hasks.isFor (hneutral x hx r.key)
  · cases List.mem_singleton.1 hx
    rcases hasks with heq | heq
    · cases heq
      rw [hg]
      exact Manager.queues_obtain hopen r
    · cases heq
  · cases List.mem_singleton.1 hx
    rcases hasks with heq | heq
    · cases heq
    · cases heq
  · obtain ⟨r', hr', rfl⟩ := List.mem_map.1 (List.mem_reverse.1 hx)
    rcases hasks with heq | heq
    · cases heq
    · cases heq
      rw [hg]
      exact Manager.queues_obtainAll hopen hr'

/-! ## The queue stays open -/

theorem closed_begin (f : Floor) (i : Nat) :
    (f.begin i).manager.queue.closed = f.manager.queue.closed := by
  have htake : ∀ {m taken}, f.manager.take i = (m, taken) →
      m.queue.closed = f.manager.queue.closed := by
    intro m taken ht
    obtain ⟨q, hq, rfl⟩ := Manager.take_eq ht
    obtain ⟨-, -, rfl⟩ | ⟨-, -, -, rfl⟩ | ⟨k, rest, bell, -, -, -, rfl⟩ := WorkQueue.take_cases hq
    · rfl
    · rfl
    · rfl
  have hbegun := begun f i
  generalize f.begin i = g at hbegun
  cases hbegun with
  | waited taken => exact htake taken
  | left taken => exact htake taken
  | @skipped m k taken none =>
      show ((m.startOn k).1.finish k).queue.closed = _
      rw [Manager.finish_queue, WorkQueue.done_closed]
      show m.queue.closed = _
      exact htake taken
  | @started m k r taken some =>
      show m.queue.closed = _
      exact htake taken

theorem closed_advance {i : Nat} {r : Request} {next : Manager × Progress}
    (h : next.1.queue = f.manager.queue) :
    (f.advance i r next).manager.queue.closed = f.manager.queue.closed := by
  obtain ⟨m, progress⟩ := next
  cases progress with
  | order => exact congrArg WorkQueue.closed h
  | store sec => exact congrArg WorkQueue.closed h
  | withdraw => exact congrArg WorkQueue.closed h
  | ended result =>
      exact (queue_conclude (f.setManager m) i r result).1.trans (congrArg WorkQueue.closed h)

/-- An issuance leaves the queue alone until it ends. -/
theorem queue_afterRead (m : Manager) (r : Request) (a : Except Error (Option Secret)) :
    (m.afterRead r a).1.queue = m.queue := by
  obtain ⟨e, heq⟩ | ⟨existing, q, -, -, -, heq⟩ := m.afterRead_cases r a
  · rw [heq]
  · rw [heq]

theorem queue_afterOrder (m : Manager) (r : Request) (a : Except AuthorityError Certificate) :
    (m.afterOrder r a).1.queue = m.queue := by
  obtain ⟨result, heq, -⟩ | ⟨c, -, -, heq⟩ := m.afterOrder_cases r a
  · rw [heq]
    rfl
  · rw [heq]

theorem queue_afterStore (m : Manager) (r : Request) (a : Except Error Unit) :
    (m.afterStore r a).1.queue = m.queue := by
  obtain ⟨e, -, heq⟩ | ⟨-, -, heq⟩ | ⟨-, -, heq⟩ := m.afterStore_cases r a
  · rw [heq]
    rfl
  · rw [heq]
    rfl
  · rw [heq]

theorem queue_afterWithdraw (m : Manager) (a : Except Error Unit) :
    (m.afterWithdraw a).1.queue = m.queue := rfl

/-- Only a stop closes the queue, and nothing opens it again. -/
theorem closed_step {e : FloorEvent} (hstep : f.step? e = some g) (he : e ≠ .stop) :
    g.manager.queue.closed = f.manager.queue.closed := by
  -- additions, hand-outs and returns leave the queue open or closed
  cases turn_of_step? hstep with
  | began idle awake => exact closed_begin f _
  | informed reading => exact closed_advance (queue_afterRead _ _ _)
  | stored storing => exact closed_advance (queue_afterStore _ _ _)
  | cleared withdrawing => exact closed_advance (queue_afterWithdraw _ _)
  | ordered a ordering => exact closed_advance (queue_afterOrder _ _ _)
  | rang timer => exact WorkQueue.add_closed _ _
  | @renewed listing threshold now scan valid =>
      show (f.manager.afterRenewalListing threshold now (.ok listing)).1.queue.closed = _
      rw [Manager.afterRenewalListing_fst, Manager.closed_obtainAll]
  | asked r => exact WorkQueue.add_closed _ _
  | released t =>
      show (f.manager.release t).queue.closed = _
      obtain ⟨-, heq⟩ | ⟨-, heq⟩ := Manager.release_cases f.manager t
      · rw [heq]
      · rw [heq]
  | stopped => exact absurd rfl he
  | _ => rfl

/-! ## Only a release tells a worker of one -/

theorem unreleased_move {k : String} {d : List Deed} (hm : Move f g)
    (hd : g.journal = d ++ f.journal) (hreleased : ∀ t : SecretRef, .released t ∈ d → t.key ≠ k)
    (h : f.manager.isReleased k = false) : g.manager.isReleased k = false := by
  rw [Manager.isReleased_eq_false] at h ⊢
  -- an issuance that starts or ends clears a flag; only a release sets one
  have herase : ∀ (t : Table Bool) (j : String), t.find? k ≠ some true →
      (t.erase j).find? k ≠ some true := by
    intro t j ht
    rw [Table.find?_erase]
    split
    · simp
    · exact ht
  have hinsert : ∀ j, (f.manager.inFlight.insert j false).find? k ≠ some true := by
    intro j
    rw [Table.find?_insert]
    split
    · simp
    · exact h
  cases hm with
  | waited idle taken =>
      obtain ⟨q, -, rfl⟩ := Manager.take_eq taken
      exact h
  | left idle taken =>
      obtain ⟨q, -, rfl⟩ := Manager.take_eq taken
      exact h
  | @skipped i m j idle taken none =>
      obtain ⟨q, -, rfl⟩ := Manager.take_eq taken
      show ((Manager.startOn { f.manager with queue := q } j).1.finish j).inFlight.find? k ≠
        some true
      rw [Manager.finish_inFlight]
      exact herase _ j (hinsert j)
  | @started i m j r idle taken some =>
      obtain ⟨q, -, rfl⟩ := Manager.take_eq taken
      exact hinsert j
  | failed e reading =>
      rw [inFlight_conclude]
      exact herase _ _ h
  | gaveUp standing why =>
      rw [inFlight_conclude]
      exact herase _ _ h
  | stored storing unreleased =>
      rw [inFlight_conclude]
      exact herase _ _ (herase _ _ h)
  | cleared withdrawing =>
      rw [inFlight_conclude]
      exact herase _ _ h
  | @renewed listing threshold now scan =>
      show (f.manager.afterRenewalListing threshold now (.ok listing)).1.inFlight.find? k ≠ _
      rw [Manager.afterRenewalListing_fst, (Manager.obtainAll_facts _ _).2.1]
      exact h
  | released t =>
      have heq : d = [.released t] := (List.append_left_inj f.journal).1 hd.symm
      have hne : k ≠ t.key := fun hk => hreleased t (by rw [heq]; exact List.mem_cons_self) hk.symm
      show (f.manager.release t).inFlight.find? k ≠ some true
      obtain ⟨-, hrelease⟩ | ⟨-, hrelease⟩ := Manager.release_cases f.manager t
      · rw [hrelease]
        show (f.manager.inFlight.insert t.key true).find? k ≠ some true
        rw [Table.find?_insert, if_neg hne]
        exact h
      · rw [hrelease]
        exact h
  | _ => exact h

/-! ## What a worker does with its key -/

/-- What a worker writes for a request meets the demand that the request stands for. -/
theorem meets_of_written {r : Request} {c : Certificate}
    (hsecret : f.secret? r.target = some (managedSecret r c f.manager.settings.controllerName))
    (hcommas : ∀ host ∈ r.domains.hosts, ',' ∉ host.toList) : f.Meets r.target r.domains := by
  refine ⟨_, hsecret, isManagedBy_managedSecret r c _, ?_⟩
  rw [domains_managedSecret, DomainSet.ofJoined_joined hcommas]

/-- The answer of the store reaches a worker that is on its way to write a secret. -/
theorem promises_informed {i : Nat} {r : Request} {a : Except Error (Option Secret)}
    (hreading : f.post i = .reading r (some a)) (hadmits : f.admits s (.resume i) = true)
    (h : (f.post i).Promises f.manager s) (m : Manager) :
    ((f.advance i r (f.manager.afterRead r a)).post i).Promises m s := by
  have hne : f.post i ≠ .ended := ne_ended_of_request (r := r) (by rw [hreading]; rfl)
  rw [hreading] at h
  cases a with
  | error e => exact h.elim
  | ok existing =>
      obtain ⟨rfl, hours⟩ := h
      rw [admits, hreading] at hadmits
      simp only [ne_eq, not_true_eq_false, decide_false, hours, Bool.false_or] at hadmits
      rw [post_advance hne, Manager.afterRead, hours]
      cases hreserve : f.manager.quota.reserve r.key r.domains.size with
      | error e =>
          rw [hreserve] at hadmits
          cases hadmits
      | ok q => exact rfl

/-- The certificate reaches a worker that is on its way to write a secret. -/
theorem promises_ordered {i : Nat} {r : Request} {c : Certificate}
    (hordering : f.post i = .ordering r) (hunreleased : f.manager.isReleased s.key = false)
    (h : (f.post i).Promises f.manager s) (m : Manager) :
    ((f.advance i r (f.manager.afterOrder r (.ok c))).post i).Promises m s := by
  have hne : f.post i ≠ .ended := ne_ended_of_request (r := r) (by rw [hordering]; rfl)
  have hr : r.target = s := by
    rw [hordering] at h
    exact h
  have hflag : f.manager.isReleased r.key = false := by rw [Request.key, hr, hunreleased]
  rw [post_advance hne, Manager.afterOrder, hflag]
  exact hr

/-- A worker that is on its way to write a secret goes on, finds that it belongs to somebody else,
or has written it. -/
theorem promises_step {e : FloorEvent} {i : Nat} (hs : f.Sound) (hstep : f.step? e = some g)
    (hsmooth : e.isSmooth = true) (hadmits : f.admits s e = true) (hown : e.worker? = some i)
    (hdomains : ∀ r, (f.post i).request? = some r → r.target = s → r.domains = D)
    (hcommas : ∀ host ∈ D.hosts, ',' ∉ host.toList)
    (hunreleased : f.manager.isReleased s.key = false) (h : (f.post i).Promises f.manager s) :
    (g.post i).Promises g.manager s ∨ g.Foreign s ∨ g.Meets s D := by
  cases turn_of_step? hstep with
  | began idle awake =>
      cases hown
      rw [idle] at h
      exact h.elim
  | @read _ r service reading =>
      cases hown
      obtain rfl := FloorEvent.done_of_smooth hsmooth
      have hne : f.post i ≠ .ended := ne_ended_of_request (r := r) (by rw [reading]; rfl)
      obtain rfl : r.target = s := by
        rw [reading] at h
        exact h
      -- the worker goes on unless the secret that it reads is somebody else's
      cases hforeign : f.manager.isForeign (f.secret? r.target) with
      | true => exact Or.inr (Or.inl hforeign)
      | false =>
          left
          rw [post_setPost (f := f.judge r.target .done) hne, if_pos rfl]
          exact ⟨rfl, hforeign⟩
  | @wrote _ r sec service storing effect =>
      cases hown
      obtain rfl : r.target = s := by
        rw [storing] at h
        exact h
      have hD : r.domains = D := hdomains r (by rw [storing]; rfl) rfl
      subst hD
      obtain ⟨c, rfl⟩ := hs.written i r sec none storing
      refine Or.inr (Or.inr (meets_of_written (c := c) ?_ hcommas))
      exact (secret?_insert (f := f) (t := r.target) rfl r.target).trans (if_pos rfl)
  | unwritten storing effect =>
      cases FloorEvent.done_of_smooth hsmooth
      cases effect
  | withdrew withdrawing effect =>
      cases hown
      rw [withdrawing] at h
      exact h.elim
  | unwithdrawn withdrawing effect =>
      cases hown
      rw [withdrawing] at h
      exact h.elim
  | informed reading =>
      cases hown
      exact Or.inl (promises_informed reading hadmits h _)
  | stored storing =>
      cases hown
      rw [storing] at h
      exact h.elim
  | cleared withdrawing =>
      cases hown
      rw [withdrawing] at h
      exact h.elim
  | ordered a ordering =>
      cases hown
      cases a with
      | ok c => exact Or.inl (promises_ordered ordering hunreleased h _)
      | error e => cases hsmooth
  | _ => cases hown

/-- What is pursued stays so until the secret is written, or a worker finds that it belongs to
somebody else, or it is released. -/
theorem pursued_step {e : FloorEvent} {d : List Deed} (hs : f.Sound) (hplain : s.IsPlain)
    (hopen : f.manager.queue.closed = false) (hstep : f.step? e = some g)
    (hsmooth : e.isSmooth = true) (hadmits : f.admits s e = true)
    (hdomains : ∀ i r, (f.post i).request? = some r → r.target = s → r.domains = D)
    (hcommas : ∀ host ∈ D.hosts, ',' ∉ host.toList) (hd : g.journal = d ++ f.journal)
    (hreleased : .released s ∉ d) (h : f.Pursued s) :
    g.Pursued s ∨ g.Foreign s ∨ g.Meets s D := by
  have hmove := move_of_step? hstep
  have hothers : ∀ t : SecretRef, .released t ∈ d → t.key ≠ s.key := by
    intro t ht hkey
    rw [SecretRef.key_inj hplain hkey] at ht
    exact hreleased ht
  rcases h with hqueued | ⟨hunreleased, i, hi⟩
  · rcases queues_move hs hopen hmove hd hothers hqueued with hstays | ⟨i, r, hpost, hkey, hflag⟩
    · exact Or.inl (Or.inl hstays)
    · refine Or.inl (Or.inr ⟨hflag, i, ?_⟩)
      rw [hpost]
      exact SecretRef.key_inj hplain hkey
  · have hflag := unreleased_move hmove hd hothers hunreleased
    -- the worker that has promised the secret moves, or stays where it is
    by_cases hown : e.worker? = some i
    · have hgoes := promises_step hs hstep hsmooth hadmits hown (hdomains i) hcommas hunreleased hi
      exact hgoes.imp_left fun hpromises => Or.inr ⟨hflag, i, hpromises⟩
    · refine Or.inl (Or.inr ⟨hflag, i, ?_⟩)
      rw [post_step_ne hstep hown]
      exact hi.congr (settings_move hmove)

end Floor

end IngressTls
