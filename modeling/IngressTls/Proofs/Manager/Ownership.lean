import IngressTls.Proofs.Journal
import IngressTls.Proofs.Manager.Aftermath
import IngressTls.Proofs.Manager.Targets
import IngressTls.Proofs.Manager.Turns

set_option autoImplicit false

/-! # Secrets of somebody else

A worker reads the secret of its request and gives up if it belongs to somebody else. Then it
reserves quota and asks the authority, which takes its time, and it does not read the secret
again before it writes. While it has the key no other worker changes the secret, but somebody
outside may.

So a worker that is about to write finds a secret of somebody else in its way exactly if one was
put there after it read, and nothing has taken its place since; and it writes nevertheless.

Main statements: `secret_step` and `foreign_spared`.
-/

namespace IngressTls

namespace FloorEvent

/-- The event changes the secret at a place from outside. -/
def Touches (s : SecretRef) : FloorEvent → Prop
  | put o => o.ref = s
  | remove t => t = s
  | _ => False

/-- The event puts a secret at a place that does not carry the label of a controller. -/
def PutsForeign (controllerName : String) (s : SecretRef) : FloorEvent → Prop
  | put o => o.ref = s ∧ o.metadata.isManagedBy controllerName = false
  | _ => False

/-- What stands at a place after an event from outside. -/
def leaves (s : SecretRef) (standing : Option Secret) : FloorEvent → Option Secret
  | put o => if o.ref = s then some o else standing
  | remove t => if t = s then none else standing
  | _ => standing

end FloorEvent

/-- What events from outside leave at a place belongs to somebody else if it was put there as
such, and nothing has taken its place since. -/
theorem Manager.isForeign_foldl_iff {m : Manager} {standing : Option Secret}
    (h : m.isForeign standing = false) (s : SecretRef) (es : List FloorEvent) :
    m.isForeign (es.foldl (FloorEvent.leaves s) standing) = true ↔
      Since (FloorEvent.PutsForeign m.settings.controllerName s) (FloorEvent.Touches s)
        es.reverse := by
  induction es using List.reverseRecOn with
  | nil => exact iff_of_false (by simp [h]) not_since_nil
  | append_singleton es e ih =>
      rw [List.foldl_append, List.reverse_append, List.foldl_cons, List.foldl_nil,
        List.reverse_singleton, List.singleton_append, since_cons]
      cases e with
      | put o =>
          by_cases ho : o.ref = s
          · simp [FloorEvent.leaves, FloorEvent.PutsForeign, FloorEvent.Touches, ho, isForeign]
          · simp [FloorEvent.leaves, FloorEvent.PutsForeign, FloorEvent.Touches, ho, ih]
      | remove t =>
          by_cases ht : t = s
          · simp [FloorEvent.leaves, FloorEvent.PutsForeign, FloorEvent.Touches, ht, isForeign]
          · simp [FloorEvent.leaves, FloorEvent.PutsForeign, FloorEvent.Touches, ht, ih]
      | _ => simpa [FloorEvent.leaves, FloorEvent.PutsForeign, FloorEvent.Touches] using ih

namespace Floor

variable {f g : Floor}

/-- The secret at a place belongs to somebody else. -/
def Foreign (f : Floor) (s : SecretRef) : Prop := f.manager.isForeign (f.secret? s) = true

/-! ## What changes a secret while a worker has its key -/

/-- Whether a worker issues for a request and has not come to write. -/
def Unwritten (r : Request) : Post → Prop
  | .reading r' _ | .ordering r' => r' = r
  | .storing _ _ _ | .withdrawing _ _ | .idle | .ended => False

theorem Unwritten.request {r : Request} {p : Post} (h : Unwritten r p) : p.request? = some r := by
  cases p with
  | reading r' a => exact congrArg some h
  | ordering r' => exact congrArg some h
  | storing r' sec a => exact h.elim
  | withdrawing r' a => exact h.elim
  | idle => exact h.elim
  | ended => exact h.elim

/-- Another worker that writes or deletes a secret does so at another place. -/
theorem Sound.target_ne {i j : Nat} {r r' : Request} (hs : f.Sound)
    (hi : (f.post i).request? = some r) (hj : (f.post j).request? = some r') (hne : j ≠ i) :
    r'.target ≠ r.target := by
  intro heq
  refine hne (hs.apart j i r.key ?_ (keyAt_of_request hi))
  rw [keyAt_of_request hj, Request.key, Request.key, heq]

/-- While a worker has not come to write, only events from outside change the secret of its
request. -/
theorem secret_step {e : FloorEvent} {i : Nat} {r : Request} (hs : f.Sound)
    (hi : Unwritten r (f.post i)) (hstep : f.step? e = some g) :
    g.secret? r.target = e.leaves r.target (f.secret? r.target) := by
  have hrequest := hi.request
  have hsame : g.shelf = f.shelf → g.secret? r.target = f.secret? r.target := by
    intro heq
    rw [secret?, secret?, heq]
  -- a worker that writes or withdraws is another one, and has another place
  have hother : ∀ {j r'}, (f.post j).request? = some r' → ¬ Unwritten r (f.post j) →
      r'.target ≠ r.target := by
    intro j r' hj hwritten
    refine hs.target_ne hrequest hj ?_
    rintro rfl
    exact hwritten hi
  cases turn_of_step? hstep with
  | @began j idle awake => exact hsame (shelf_begin f j)
  | @wrote j r' sec service storing effect =>
      obtain ⟨c, rfl⟩ := hs.written j r' sec none storing
      have hj : (f.post j).request? = some r' := by rw [storing]; rfl
      have hne := hother hj (by rw [storing]; exact id)
      have hat : (managedSecret r' c f.manager.settings.controllerName).metadata.key =
          r'.target.place := rfl
      exact (secret?_insert (f := f) hat r.target).trans (if_neg hne)
  | @withdrew j r' service withdrawing effect =>
      have hj : (f.post j).request? = some r' := by rw [withdrawing]; rfl
      have hne := hother hj (by rw [withdrawing]; exact id)
      exact (secret?_erase f r'.target r.target).trans (if_neg hne)
  | informed reading => exact hsame (shelf_advance _ _ _ _)
  | stored storing => exact hsame (shelf_advance _ _ _ _)
  | cleared withdrawing => exact hsame (shelf_advance _ _ _ _)
  | ordered a ordering => exact hsame (shelf_advance _ _ _ _)
  | removed t => exact secret?_erase f t r.target
  | placed named => exact secret?_insert named r.target
  | _ => exact hsame rfl

/-! ## From reading to writing -/

/-- Where a worker can stand after it was told what it read, until it takes another key: it only
comes to order and to write if what it read was not somebody else's. -/
def Follows (m : Manager) (r : Request) (existing : Option Secret) : Post → Prop
  | .reading r' a => r' = r ∧ a = some (.ok existing)
  | .ordering r' | .storing r' _ _ | .withdrawing r' _ => r' = r ∧ m.isForeign existing = false
  | .idle | .ended => True

/-- A worker that goes on either ends, or may go on. -/
theorem follows_advance {i : Nat} {r r' : Request} {existing : Option Secret} {m : Manager}
    {next : Manager × Progress} (hi : f.post i ≠ .ended)
    (hnext : (∃ result, next.2 = .ended result) ∨ r' = r ∧ m.isForeign existing = false) :
    Follows m r existing ((f.advance i r' next).post i) := by
  rw [post_advance hi]
  rcases hnext with ⟨result, hended⟩ | hours
  · rw [hended]
    trivial
  · cases next.2 with
    | ended result => trivial
    | order => exact hours
    | store sec => exact hours
    | withdraw => exact hours

/-- A worker that has read a secret of somebody else ends. -/
theorem ended_or_ours (m : Manager) (r : Request) (existing : Option Secret) :
    (∃ result, (m.afterRead r (.ok existing)).2 = .ended result) ∨
      m.isForeign existing = false := by
  obtain ⟨e, heq⟩ | ⟨existing', q, hread, hours, -, -⟩ := m.afterRead_cases r (.ok existing)
  · exact Or.inl ⟨_, congrArg Prod.snd heq⟩
  · cases hread
    exact Or.inr hours

theorem follows_of_posts {i : Nat} {p : Post} {r : Request} {existing : Option Secret}
    {m : Manager} (hi : f.post i ≠ .ended) (hposts : g.posts = (f.setPost i p).posts)
    (hp : Follows m r existing p) : Follows m r existing (g.post i) := by
  rwa [post_of_posts hi hposts, if_pos rfl]

theorem follows_step {e : FloorEvent} {i : Nat} {r : Request} {existing : Option Secret}
    {m : Manager} (hm : f.manager.isForeign existing = m.isForeign existing)
    (h : Follows m r existing (f.post i)) (he : e ≠ .take i) (hstep : f.step? e = some g) :
    Follows m r existing (g.post i) := by
  by_cases hworker : e.worker? = some i
  swap
  · rwa [post_step_ne hstep hworker]
  cases turn_of_step? hstep with
  | began idle awake =>
      cases hworker
      exact absurd rfl he
  | read service reading =>
      cases hworker
      rw [reading] at h
      cases h.2
  | @wrote _ r' sec service storing effect =>
      cases hworker
      rw [storing] at h
      exact follows_of_posts (f := f) (p := .storing r' sec _) (by simp [storing]) rfl h
  | @unwritten _ r' sec service storing effect =>
      cases hworker
      rw [storing] at h
      exact follows_of_posts (f := f) (p := .storing r' sec _) (by simp [storing]) rfl h
  | @withdrew _ r' service withdrawing effect =>
      cases hworker
      rw [withdrawing] at h
      exact follows_of_posts (f := f) (p := .withdrawing r' _) (by simp [withdrawing]) rfl h
  | @unwithdrawn _ r' service withdrawing effect =>
      cases hworker
      rw [withdrawing] at h
      exact follows_of_posts (f := f) (p := .withdrawing r' _) (by simp [withdrawing]) rfl h
  | @informed _ r' a reading =>
      cases hworker
      rw [reading] at h
      obtain ⟨rfl, ha⟩ := h
      cases ha
      -- this is where the ownership is judged, once and for all
      refine follows_advance (by simp [reading]) ?_
      exact (ended_or_ours f.manager r' existing).imp_right fun hours => ⟨rfl, hm ▸ hours⟩
  | stored storing =>
      cases hworker
      rw [storing] at h
      exact follows_advance (by simp [storing]) (Or.inr h)
  | cleared withdrawing =>
      cases hworker
      rw [withdrawing] at h
      exact follows_advance (by simp [withdrawing]) (Or.inr h)
  | ordered a ordering =>
      cases hworker
      rw [ordering] at h
      exact follows_advance (by simp [ordering]) (Or.inr h)
  | _ => cases hworker

/-- A worker that has come to write does not come back to its reading or its order. -/
theorem unwritten_step {e : FloorEvent} {i : Nat} {r : Request} (he : e ≠ .take i)
    (hstep : f.step? e = some g) (h : Unwritten r (g.post i)) : Unwritten r (f.post i) := by
  by_cases hworker : e.worker? = some i
  swap
  · rwa [post_step_ne hstep hworker] at h
  have hgoes : ∀ {p}, f.post i ≠ .ended → g.posts = (f.setPost i p).posts → Unwritten r p := by
    intro p hi hposts
    rwa [post_of_posts hi hposts, if_pos rfl] at h
  -- a worker that goes on is unwritten only if it goes on to the order
  have hadvance : ∀ {r' next}, f.post i ≠ .ended → g = f.advance i r' next →
      next.2 = .order ∧ r' = r := by
    rintro r' next hi rfl
    rw [post_advance hi] at h
    cases hnext : next.2 with
    | order => exact ⟨rfl, by rwa [hnext] at h⟩
    | store sec => rw [hnext] at h; exact h.elim
    | withdraw => rw [hnext] at h; exact h.elim
    | ended result => rw [hnext] at h; exact h.elim
  cases turn_of_step? hstep with
  | began idle awake =>
      cases hworker
      exact absurd rfl he
  | @read _ r' service reading =>
      cases hworker
      have hsame : r' = r := hgoes (p := .reading r' _) (by simp [reading]) rfl
      rwa [reading]
  | @wrote _ r' sec service storing effect =>
      cases hworker
      exact (hgoes (p := .storing r' sec _) (by simp [storing]) rfl).elim
  | @unwritten _ r' sec service storing effect =>
      cases hworker
      exact (hgoes (p := .storing r' sec _) (by simp [storing]) rfl).elim
  | @withdrew _ r' service withdrawing effect =>
      cases hworker
      exact (hgoes (p := .withdrawing r' _) (by simp [withdrawing]) rfl).elim
  | @unwithdrawn _ r' service withdrawing effect =>
      cases hworker
      exact (hgoes (p := .withdrawing r' _) (by simp [withdrawing]) rfl).elim
  | informed reading =>
      cases hworker
      rw [reading]
      exact (hadvance (by simp [reading]) rfl).2
  | @stored _ r' sec a storing =>
      cases hworker
      obtain ⟨horder, -⟩ := hadvance (by simp [storing]) rfl
      -- a worker that has written does not order again
      obtain ⟨e, -, heq⟩ | ⟨-, -, heq⟩ | ⟨-, -, heq⟩ := f.manager.afterStore_cases r' a
      · cases (congrArg Prod.snd heq).symm.trans horder
      · cases (congrArg Prod.snd heq).symm.trans horder
      · cases (congrArg Prod.snd heq).symm.trans horder
  | cleared withdrawing =>
      cases hworker
      obtain ⟨horder, -⟩ := hadvance (by simp [withdrawing]) rfl
      cases horder
  | ordered a ordering =>
      cases hworker
      rw [ordering]
      exact (hadvance (by simp [ordering]) rfl).2
  | _ => cases hworker

/-- What has become of a worker and of the secret of its request since it was told what it read. -/
structure SinceRead (m : Manager) (i : Nat) (r : Request) (existing : Option Secret)
    (es : List FloorEvent) (f : Floor) : Prop where
  /-- The floor is consistent. -/
  sound : f.Sound
  /-- The settings have not changed. -/
  settings : f.manager.settings = m.settings
  /-- Where the worker stands. -/
  follows : Follows m r existing (f.post i)
  /-- Until it writes, only events from outside change the secret. -/
  standing : Unwritten r (f.post i) →
    f.secret? r.target = es.foldl (FloorEvent.leaves r.target) existing

theorem SinceRead.step {m : Manager} {i : Nat} {r : Request} {existing : Option Secret}
    {es : List FloorEvent} {e : FloorEvent} (h : SinceRead m i r existing es f)
    (he : e ≠ .take i) (hstep : f.step? e = some g) : SinceRead m i r existing (es ++ [e]) g where
  sound := h.sound.move (move_of_step? hstep)
  settings := (settings_move (move_of_step? hstep)).trans h.settings
  follows := by
    refine follows_step ?_ h.follows he hstep
    rw [Manager.isForeign, Manager.isForeign, h.settings]
  standing := by
    intro hg
    have hf := unwritten_step he hstep hg
    rw [List.foldl_append, ← h.standing hf]
    exact secret_step h.sound hf hstep

theorem SinceRead.run? {m : Manager} {i : Nat} {r : Request} {existing : Option Secret}
    {es es' : List FloorEvent} (h : SinceRead m i r existing es f) (hsame : .take i ∉ es')
    (hrun : f.run? es' = some g) : SinceRead m i r existing (es ++ es') g := by
  induction es' generalizing f es with
  | nil =>
      cases hrun
      rwa [List.append_nil]
  | cons e es' ih =>
      rw [run?_cons] at hrun
      obtain ⟨f₁, hstep, hrest⟩ := Option.bind_eq_some_iff.1 hrun
      have he : e ≠ .take i := fun heq => hsame (heq ▸ List.mem_cons_self)
      have hrest := ih (h.step he hstep) (fun hin => hsame (List.mem_cons_of_mem _ hin)) hrest
      rwa [List.append_assoc] at hrest

/-- The store has served the reading of a worker. -/
theorem sinceRead_start {i : Nat} {r : Request} (hs : f.Sound)
    (hi : f.post i = .reading r none) (hstep : f.step? (.serve i .done) = some g) :
    SinceRead f.manager i r (f.secret? r.target) [] g := by
  have hsg := hs.move (move_of_step? hstep)
  cases turn_of_step? hstep with
  | read service reading =>
      cases hi.symm.trans reading
      refine ⟨hsg, rfl, ?_, fun _ => rfl⟩
      exact follows_of_posts (f := f) (p := .reading r (some (.ok (f.secret? r.target))))
        (by simp [hi]) rfl ⟨rfl, rfl⟩
  | wrote storing effect => cases hi.symm.trans storing
  | unwritten storing effect => cases effect
  | withdrew withdrawing effect => cases hi.symm.trans withdrawing
  | unwithdrawn withdrawing effect => cases effect

/-- An issuance has ended because the secret belongs to somebody else: nothing is reserved for it,
its request is not stored again, and the secrets are as they were. -/
structure Declined (f g : Floor) (i : Nat) (r : Request) : Prop where
  /-- The issuance ends with the error. -/
  concluded : g = f.conclude i r (.error (.foreignSecret r.target))
  /-- The worker is free. -/
  idle : g.post i = .idle
  /-- Nothing is reserved. -/
  unreserved : g.manager.quota.pending.find? r.key = none
  /-- No request is stored. -/
  requests : g.manager.requests = f.manager.requests
  /-- No addition is scheduled. -/
  timers : g.timers = f.timers
  /-- The secrets stay. -/
  shelf : g.shelf = f.shelf

theorem declined_of_foreign {i : Nat} {r : Request} {existing : Option Secret} (hs : f.Sound)
    (hi : f.post i = .reading r (some (.ok existing)))
    (hforeign : f.manager.isForeign existing = true) (hstep : f.step? (.resume i) = some g) :
    Declined f g i r := by
  have hrequest : (f.post i).request? = some r := by rw [hi]; rfl
  have hne := ne_ended_of_request hrequest
  have hg : g = f.conclude i r (.error (.foreignSecret r.target)) := by
    cases turn_of_step? hstep with
    | informed reading =>
        cases hi.symm.trans reading
        simp [Manager.afterRead, hforeign, advance, setManager]
    | stored storing => cases hi.symm.trans storing
    | cleared withdrawing => cases hi.symm.trans withdrawing
  have hsg : g.Sound := hs.move (move_of_step? hstep)
  have hsettle : f.manager.settle r.key r (.error (.foreignSecret r.target)) =
      (f.manager.forget r.key, .forgotten) := by
    simp [Manager.settle, Manager.settleFailure, Error.isPending, Error.isRetryable]
  have hidle : g.post i = .idle := by
    rw [hg]
    exact (post_of_posts (p := .idle) hne rfl i).trans (if_pos rfl)
  constructor
  · exact hg
  · exact hidle
  · refine hsg.pending_eq_none fun hbusy => ?_
    rw [hg] at hbusy
    exact ((busy_setPost_end hs.apart hrequest (p := .idle) rfl r.key).1 hbusy).1 rfl
  · rw [hg]
    simp [conclude, hsettle, setPost, setManager, Manager.forget]
  · rw [hg]
    simp [conclude, hsettle]
  · rw [hg]
    rfl

/-- A worker reads the secret of its request, and until it comes to write it takes no other key. If
the secret belongs to somebody else when it is read, the worker asks for no certificate and gives
up when it goes on. Otherwise, when the certificate is there and the worker calls for the write,
the secret belongs to somebody else exactly if one such was put there after the reading, and
nothing has taken its place since. -/
theorem foreign_spared {settings : ManagerSettings} {max : Int}
    {listing : Except Error (List Secret)} {shelf : Snapshot Secret} {es₀ es : List FloorEvent}
    {f₀ f₁ f : Floor} {i : Nat} {r : Request}
    (hreach : (start settings max listing shelf).run? es₀ = some f₀)
    (hreading : f₀.post i = .reading r none) (hread : f₀.step? (.serve i .done) = some f₁)
    (hrun : f₁.run? es = some f) (hsame : .take i ∉ es) :
    (f₀.Foreign r.target → (f.post i).reservation? = none ∧
      ∀ a g, f.post i = .reading r a → f.step? (.resume i) = some g → Declined f g i r) ∧
    ∀ c g sec, f.step? (.order i (.ok c)) = some g → g.post i = .storing r sec none →
      (f.Foreign r.target ↔
        Since (FloorEvent.PutsForeign settings.controllerName r.target)
          (FloorEvent.Touches r.target) es.reverse) := by
  have hs₀ : f₀.Sound := sound_run? (sound_start settings max listing shelf) hreach
  have h : SinceRead f₀.manager i r (f₀.secret? r.target) es f :=
    (sinceRead_start hs₀ hreading hread).run? hsame hrun
  have hfollows := h.follows
  have hforeign : ∀ x, f.manager.isForeign x = f₀.manager.isForeign x := by
    intro x
    rw [Manager.isForeign, Manager.isForeign, h.settings]
  constructor
  · intro hf₀
    constructor
    · cases hpost : f.post i with
      | ordering r' =>
          rw [hpost] at hfollows
          exact absurd (hf₀.symm.trans hfollows.2) (by decide)
      | storing r' sec a =>
          rw [hpost] at hfollows
          exact absurd (hf₀.symm.trans hfollows.2) (by decide)
      | _ => rfl
    · intro a g hpost hstep
      rw [hpost] at hfollows
      rw [hfollows.2] at hpost
      exact declined_of_foreign h.sound hpost ((hforeign _).trans hf₀) hstep
  · rintro c g sec hstep -
    cases turn_of_step? hstep with
    | ordered _ ordering =>
        rw [ordering] at hfollows
        obtain ⟨rfl, hours⟩ := hfollows
        have hname : f₀.manager.settings = settings :=
          (settings_run? hreach).trans (settings_start settings max listing shelf)
        rw [Foreign, hforeign, h.standing (by rw [ordering]; rfl),
          Manager.isForeign_foldl_iff hours, hname]

/-! ## A secret in the way -/

/-- A secret that somebody else has put at the place of a request. -/
def somebodyElses : Secret where
  metadata := { Metadata.empty with name := some "shared", ns := some "default" }
  data := none
  type := none
  others := []

/-- The only worker has been handed a request whose secret does not exist. -/
def handedOut : List FloorEvent := [.obtain (requestFor "a.com"), .take 0]

/-- It reserves quota, and then somebody else puts a secret at the place. -/
def putMeanwhile : List FloorEvent := [.resume 0, .put somebodyElses]

theorem putMeanwhile_runs :
    ∃ f₀ f₁ f g g', small.run? handedOut = some f₀ ∧
      f₀.post 0 = .reading (requestFor "a.com") none ∧ f₀.step? (.serve 0 .done) = some f₁ ∧
      f₁.run? putMeanwhile = some f ∧ f.Foreign (requestFor "a.com").target ∧
      f.step? (.order 0 (.ok ⟨[], [], [], default, default⟩)) = some g ∧
      (∃ sec, g.post 0 = .storing (requestFor "a.com") sec none) ∧
      g.step? (.serve 0 .done) = some g' ∧ ¬ g'.Foreign (requestFor "a.com").target := by
  refine ⟨_, _, _, _, _, rfl, rfl, rfl, rfl, ?_, rfl, ⟨_, rfl⟩, rfl, ?_⟩
  · rfl
  · intro hforeign
    cases hforeign

/-- The secret was put there after the reading, and so it is in the way of the write. -/
theorem foreign_spared_putMeanwhile :
    ∃ f₀ f₁ f, small.run? handedOut = some f₀ ∧ f₀.step? (.serve 0 .done) = some f₁ ∧
      f₁.run? putMeanwhile = some f ∧ f.Foreign (requestFor "a.com").target := by
  obtain ⟨f₀, f₁, f, g, -, hreach, hreading, hread, hrun, -, hstep, ⟨sec, hpost⟩, -⟩ :=
    putMeanwhile_runs
  obtain ⟨-, hiff⟩ := foreign_spared hreach hreading hread hrun (by simp [putMeanwhile])
  refine ⟨f₀, f₁, f, hreach, hread, hrun, (hiff _ g sec hstep hpost).2 ?_⟩
  exact since_cons.2 (Or.inl ⟨rfl, rfl⟩)

/-- It is not true that a secret of somebody else is never overwritten: the worker calls for the
write although the secret is in its way. -/
theorem foreign_secrets_can_be_overwritten :
    ¬ ∀ (settings : ManagerSettings) (max : Int) (listing : Except Error (List Secret))
      (shelf : Snapshot Secret) (es : List FloorEvent) (f g : Floor) (i : Nat) (r : Request)
      (c : Certificate) (sec : Secret),
      (start settings max listing shelf).run? es = some f → f.Foreign r.target →
      f.step? (.order i (.ok c)) = some g → g.post i ≠ .storing r sec none := by
  intro hall
  obtain ⟨f₀, f₁, f, g, -, hreach, -, hread, hrun, hforeign, hstep, ⟨sec, hpost⟩, -⟩ :=
    putMeanwhile_runs
  have hwhole : small.run? (handedOut ++ .serve 0 .done :: putMeanwhile) = some f := by
    rw [run?_append, hreach, Option.bind_some, run?_cons, hread, Option.bind_some, hrun]
  exact hall _ _ _ _ _ f g 0 _ _ sec hwhole hforeign hstep hpost

end Floor

end IngressTls
