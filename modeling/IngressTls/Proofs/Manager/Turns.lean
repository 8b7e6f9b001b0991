import IngressTls.Proofs.Manager.Posts

set_option autoImplicit false

/-! # Event by event

What each event does, for statements that tell the events apart, and what it leaves: a worker
stands where it did unless the event is its own, and a worker that goes on stands where the
manager says.

Main statements: `turn_of_step?`, `post_step_ne` and `post_advance`.
-/

namespace IngressTls

/-- The worker that an event moves. -/
def FloorEvent.worker? : FloorEvent → Option Nat
  | take i | serve i _ | resume i | order i _ => some i
  | ring _ | list | renew _ | obtain _ | release _ | look _ | remove _ | put _ | stop => none

namespace Floor

variable {f g : Floor}

/-- What an event does to the floor. -/
inductive Turn (f : Floor) : FloorEvent → Floor → Prop where
  | began {i : Nat} (idle : f.post i = .idle)
      (awake : f.manager.queue.bell.waiting.contains i = false) : Turn f (.take i) (f.begin i)
  | read {i : Nat} {r : Request} (service : Service) (reading : f.post i = .reading r none) :
      Turn f (.serve i service) ((f.judge r.target service).setPost i
        (.reading r (some (service.answer (f.secret? r.target)))))
  | wrote {i : Nat} {r : Request} {s : Secret} {service : Service}
      (storing : f.post i = .storing r s none) (effect : service.takesEffect = true) :
      Turn f (.serve i service) ((((f.insert s).note (.wrote r.target)).judge r.target
        service).setPost i (.storing r s (some (service.answer ()))))
  | unwritten {i : Nat} {r : Request} {s : Secret} {service : Service}
      (storing : f.post i = .storing r s none) (effect : service.takesEffect = false) :
      Turn f (.serve i service)
        ((f.judge r.target service).setPost i (.storing r s (some (service.answer ()))))
  | withdrew {i : Nat} {r : Request} {service : Service}
      (withdrawing : f.post i = .withdrawing r none) (effect : service.takesEffect = true) :
      Turn f (.serve i service) ((((f.erase r.target).note (.withdrew r.target)).judge r.target
        service).setPost i (.withdrawing r (some (service.answer ()))))
  | unwithdrawn {i : Nat} {r : Request} {service : Service}
      (withdrawing : f.post i = .withdrawing r none) (effect : service.takesEffect = false) :
      Turn f (.serve i service)
        ((f.judge r.target service).setPost i (.withdrawing r (some (service.answer ()))))
  /-- A worker is told what it has read. -/
  | informed {i : Nat} {r : Request} {a : Except Error (Option Secret)}
      (reading : f.post i = .reading r (some a)) :
      Turn f (.resume i) (f.advance i r (f.manager.afterRead r a))
  /-- A worker is told what has become of its write. -/
  | stored {i : Nat} {r : Request} {s : Secret} {a : Except Error Unit}
      (storing : f.post i = .storing r s (some a)) :
      Turn f (.resume i) (f.advance i r (f.manager.afterStore r a))
  /-- A worker is told what has become of its withdrawal. -/
  | cleared {i : Nat} {r : Request} {a : Except Error Unit}
      (withdrawing : f.post i = .withdrawing r (some a)) :
      Turn f (.resume i) (f.advance i r (f.manager.afterWithdraw a))
  | ordered {i : Nat} {r : Request} (a : Except AuthorityError Certificate)
      (ordering : f.post i = .ordering r) :
      Turn f (.order i a) (f.advance i r (f.manager.afterOrder r a))
  | rang {place : Nat} {k : String} (timer : f.timers[place]? = some k) :
      Turn f (.ring place)
        { f with manager := f.manager.readd k, timers := f.timers.eraseIdx place }
  | listed (unlisted : f.scan = none) : Turn f .list { f with scan := some f.owned }
  | renewed {listing : List Secret} {threshold : Int} (now : Instant)
      (scan : f.scan = some listing) (valid : f.manager.renewalThreshold = .ok threshold) :
      Turn f (.renew now) (f.renew threshold now listing)
  | asked (r : Request) : Turn f (.obtain r) ((f.setManager (f.manager.obtain r)).note (.asked r))
  | released (s : SecretRef) :
      Turn f (.release s) ((f.setManager (f.manager.release s)).note (.released s))
  | looked (s : SecretRef) : Turn f (.look s) (f.note (.looked s))
  | removed (s : SecretRef) : Turn f (.remove s) ((f.erase s).note (.removed s))
  | placed {s : Secret} (named : s.metadata.key = s.ref.place) :
      Turn f (.put s) ((f.insert s).note (.placed s.ref))
  | stopped : Turn f .stop (f.setManager f.manager.shutDown)

theorem turn_serve {i : Nat} {service : Service} (h : f.serve? i service = some g) :
    Turn f (.serve i service) g := by
  rw [serve?] at h
  split at h
  · next r hpost =>
      cases h
      exact .read service hpost
  · next r s hpost =>
      cases h
      cases heffect : service.takesEffect with
      | true => exact .wrote hpost heffect
      | false => exact .unwritten hpost heffect
  · next r hpost =>
      cases h
      cases heffect : service.takesEffect with
      | true => exact .withdrew hpost heffect
      | false => exact .unwithdrawn hpost heffect
  · cases h

theorem turn_resume {i : Nat} (h : f.resume? i = some g) : Turn f (.resume i) g := by
  rw [resume?] at h
  split at h
  · next r a hpost =>
      cases h
      exact .informed hpost
  · next r s a hpost =>
      cases h
      exact .stored hpost
  · next r a hpost =>
      cases h
      exact .cleared hpost
  · cases h

/-- Every step is one of the turns. -/
theorem turn_of_step? {e : FloorEvent} (h : f.step? e = some g) : Turn f e g := by
  cases e with
  | take i =>
      rw [step?] at h
      split at h
      · next hidle =>
          split at h
          · cases h
          · next hawake =>
              cases h
              exact .began hidle (by simpa using hawake)
      · cases h
  | serve i service => exact turn_serve h
  | resume i => exact turn_resume h
  | order i a =>
      rw [step?] at h
      split at h
      · next r hpost =>
          cases h
          exact .ordered a hpost
      · cases h
  | ring place =>
      obtain ⟨k, hk, rfl⟩ := Option.map_eq_some_iff.1 h
      exact .rang hk
  | list =>
      rw [step?] at h
      split at h
      · next hscan _ =>
          cases h
          exact .listed hscan
      · cases h
  | renew now =>
      rw [step?] at h
      split at h
      · next listing threshold hscan hvalid =>
          cases h
          exact .renewed now hscan hvalid
      · cases h
  | obtain r =>
      cases h
      exact .asked r
  | release s =>
      cases h
      exact .released s
  | look s =>
      cases h
      exact .looked s
  | remove s =>
      cases h
      exact .removed s
  | put s =>
      rw [step?] at h
      split at h
      · next hnamed =>
          cases h
          exact .placed hnamed
      · cases h
  | stop =>
      cases h
      exact .stopped

/-- What becomes of a worker that looks for a key. -/
inductive Begun (f : Floor) (i : Nat) : Floor → Prop where
  | waited {m : Manager} (taken : f.manager.take i = (m, .blocked)) : Begun f i (f.setManager m)
  | left {m : Manager} (taken : f.manager.take i = (m, .closed)) :
      Begun f i ((f.setManager m).setPost i .ended)
  /-- It gets a key without a request. -/
  | skipped {m : Manager} {k : String} (taken : f.manager.take i = (m, .key k))
      (none : f.manager.requests.find? k = none) :
      Begun f i (f.setManager ((m.startOn k).1.finish k))
  | started {m : Manager} {k : String} {r : Request} (taken : f.manager.take i = (m, .key k))
      (some : f.manager.requests.find? k = some r) :
      Begun f i ((f.setManager (m.startOn k).1).setPost i (.reading r .none))

theorem begun (f : Floor) (i : Nat) : Begun f i (f.begin i) := by
  rw [begin]
  split
  · next m ht => exact .waited ht
  · next m ht => exact .left ht
  · next m k ht =>
      rw [Manager.startOn]
      cases hreq : m.requests.find? k with
      | none => exact .skipped ht (by rwa [take_requests ht] at hreq)
      | some r => exact .started ht (by rwa [take_requests ht] at hreq)

/-! ## Where the others stand -/

theorem post_setPost_ne {i j : Nat} (h : j ≠ i) (p : Post) : (f.setPost i p).post j = f.post j := by
  simp only [post, setPost]
  rw [List.getElem?_set_ne fun heq => h heq.symm]

theorem post_advance_ne {i j : Nat} (h : j ≠ i) (r : Request) (next : Manager × Progress) :
    (f.advance i r next).post j = f.post j := by
  obtain ⟨m, progress⟩ := next
  cases progress with
  | order => exact post_setPost_ne h _
  | store sec => exact post_setPost_ne h _
  | withdraw => exact post_setPost_ne h _
  | ended result => exact post_setPost_ne h .idle

theorem post_begin_ne {i j : Nat} (h : j ≠ i) : (f.begin i).post j = f.post j := by
  have hbegun := begun f i
  generalize f.begin i = g at hbegun
  cases hbegun with
  | waited taken => rfl
  | left taken => exact post_setPost_ne h .ended
  | skipped taken none => rfl
  | started taken some => exact post_setPost_ne h (.reading _ none)

/-- A worker stays where it is unless the event is its own. -/
theorem post_step_ne {e : FloorEvent} {i : Nat} (hstep : f.step? e = some g)
    (hi : e.worker? ≠ some i) : g.post i = f.post i := by
  have hne : ∀ {j}, e.worker? = some j → i ≠ j := fun hj hij => hi (hij ▸ hj)
  -- events without a worker do not touch the posts at all
  cases turn_of_step? hstep with
  | began idle awake => exact post_begin_ne (hne rfl)
  | read service reading => exact post_setPost_ne (hne rfl) _
  | wrote storing effect => exact post_setPost_ne (hne rfl) _
  | unwritten storing effect => exact post_setPost_ne (hne rfl) _
  | withdrew withdrawing effect => exact post_setPost_ne (hne rfl) _
  | unwithdrawn withdrawing effect => exact post_setPost_ne (hne rfl) _
  | informed reading => exact post_advance_ne (hne rfl) _ _
  | stored storing => exact post_advance_ne (hne rfl) _ _
  | cleared withdrawing => exact post_advance_ne (hne rfl) _ _
  | ordered a ordering => exact post_advance_ne (hne rfl) _ _
  | _ => rfl

/-- A worker without a request can only look for a key. -/
theorem take_of_free {e : FloorEvent} {i : Nat} (hstep : f.step? e = some g)
    (hi : e.worker? = some i) (hfree : (f.post i).request? = none) :
    e = .take i ∧ f.post i = .idle := by
  have hbusy : ∀ {p r}, f.post i = p → p.request? = some r → e = .take i ∧ f.post i = .idle := by
    rintro p r rfl hr
    cases hfree.symm.trans hr
  cases turn_of_step? hstep with
  | began idle awake =>
      cases hi
      exact ⟨rfl, idle⟩
  | read service reading =>
      cases hi
      exact hbusy reading rfl
  | wrote storing effect =>
      cases hi
      exact hbusy storing rfl
  | unwritten storing effect =>
      cases hi
      exact hbusy storing rfl
  | withdrew withdrawing effect =>
      cases hi
      exact hbusy withdrawing rfl
  | unwithdrawn withdrawing effect =>
      cases hi
      exact hbusy withdrawing rfl
  | informed reading =>
      cases hi
      exact hbusy reading rfl
  | stored storing =>
      cases hi
      exact hbusy storing rfl
  | cleared withdrawing =>
      cases hi
      exact hbusy withdrawing rfl
  | ordered a ordering =>
      cases hi
      exact hbusy ordering rfl
  | _ => cases hi

/-! ## Where a worker goes -/

/-- Where a worker stands that goes on with a request as the manager says. -/
def postAfter (r : Request) : Progress → Post
  | .order => .ordering r
  | .store sec => .storing r sec none
  | .withdraw => .withdrawing r none
  | .ended _ => .idle

theorem advance_ended (f : Floor) (i : Nat) (r : Request) (m : Manager)
    (result : Except Error Unit) :
    f.advance i r (m, .ended result) = (f.setManager m).conclude i r result := rfl

theorem post_advance {i : Nat} (hi : f.post i ≠ .ended) (r : Request)
    (next : Manager × Progress) : (f.advance i r next).post i = postAfter r next.2 := by
  obtain ⟨m, progress⟩ := next
  have hpost : ∀ p, ((f.setManager m).setPost i p).post i = p := fun p =>
    (post_setPost hi p i).trans (if_pos rfl)
  cases progress with
  | order => exact hpost (.ordering r)
  | store sec => exact hpost (.storing r sec none)
  | withdraw => exact hpost (.withdrawing r none)
  | ended result => exact hpost .idle

/-! ## The secrets and the journal -/

theorem shelf_advance (f : Floor) (i : Nat) (r : Request) (next : Manager × Progress) :
    (f.advance i r next).shelf = f.shelf := by
  obtain ⟨m, progress⟩ := next
  cases progress with
  | order => rfl
  | store sec => rfl
  | withdraw => rfl
  | ended result => rfl

theorem shelf_begin (f : Floor) (i : Nat) : (f.begin i).shelf = f.shelf := by
  have hbegun := begun f i
  generalize f.begin i = g at hbegun
  cases hbegun with
  | _ => rfl

theorem journal_advance (f : Floor) (i : Nat) (r : Request) (next : Manager × Progress) :
    (f.advance i r next).journal = f.journal := by
  obtain ⟨m, progress⟩ := next
  cases progress with
  | order => rfl
  | store sec => rfl
  | withdraw => rfl
  | ended result => rfl

theorem journal_begin (f : Floor) (i : Nat) : (f.begin i).journal = f.journal := by
  have hbegun := begun f i
  generalize f.begin i = g at hbegun
  cases hbegun with
  | _ => rfl

end Floor

end IngressTls
