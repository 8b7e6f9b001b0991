import IngressTls.Proofs.Manager.Settlement
import IngressTls.Snapshot

set_option autoImplicit false

/-! # The floor of the manager

The manager with its workers, its renewal scan and the store of secrets, in any order of
what can happen next. Whoever calls the store or the authority waits, and meanwhile anything
else may happen: a call of the store takes effect at one moment and its answer reaches the
caller at a later one, and in between other workers go on, delayed additions are made,
secrets are listed for renewal, and demand comes in from outside.

A `Floor` is the state, a `FloorEvent` is what happens next, and `Floor.step?` says what it does,
if it can happen. The journal keeps what has happened to requests and secrets. `Move` states
the same as `step?` with one constructor for each case; proofs about all steps go through
`move_of_step?`.

Main statement: `move_of_step?`.
-/

namespace IngressTls

/-- Where a worker stands while it waits. -/
inductive Post where
  /-- It has no key. -/
  | idle
  /-- It has asked the store for the secret of a request. -/
  | reading (request : Request) (answer : Option (Except Error (Option Secret)))
  /-- It has asked the authority for the certificate. -/
  | ordering (request : Request)
  /-- It has asked the store to write the secret. -/
  | storing (request : Request) (secret : Secret) (answer : Option (Except Error Unit))
  /-- It has asked the store to delete the secret that it wrote. -/
  | withdrawing (request : Request) (answer : Option (Except Error Unit))
  /-- It has ended. -/
  | ended

namespace Post

/-- The request that a worker issues for. -/
def request? : Post → Option Request
  | reading r _ | ordering r | storing r _ _ | withdrawing r _ => some r
  | idle | ended => none

/-- The request that a worker holds an open reservation for. -/
def reservation? : Post → Option Request
  | ordering r | storing r _ _ => some r
  | idle | reading _ _ | withdrawing _ _ | ended => none

end Post

/-- What has happened to requests and secrets. -/
inductive Deed where
  /-- A certificate was asked for from outside. -/
  | asked (request : Request)
  /-- The renewal scan asked for a certificate. -/
  | renewed (request : Request)
  /-- A secret was released. -/
  | released (secret : SecretRef)
  /-- Somebody outside looked at a secret. -/
  | looked (secret : SecretRef)
  /-- A worker's write of a secret took effect. -/
  | wrote (secret : SecretRef)
  /-- A worker's deletion of a secret took effect. -/
  | withdrew (secret : SecretRef)
  /-- A deletion from outside took effect. -/
  | removed (secret : SecretRef)
  /-- A write from outside took effect. -/
  | placed (secret : SecretRef)
  /-- A worker's call of the store for a secret failed. -/
  | failed (secret : SecretRef)
  deriving DecidableEq

/-- What becomes of a call of the store. -/
inductive Service where
  /-- It takes effect, and the caller learns so. -/
  | done
  /-- It fails without effect. -/
  | refused (error : Error)
  /-- It takes effect, and the caller is told that it failed. -/
  | lost (error : Error)

namespace Service

/-- Whether the call takes effect. -/
def takesEffect : Service → Bool
  | done | lost _ => true
  | refused _ => false

/-- What the caller is told about a call with a given result. -/
def answer {α : Type} (result : α) : Service → Except Error α
  | done => .ok result
  | refused e | lost e => .error e

/-- What is noted about a call for a secret beside its effect. -/
def notes (s : SecretRef) : Service → List Deed
  | done => []
  | refused _ | lost _ => [.failed s]

end Service

/-- What happens next. -/
inductive FloorEvent where
  /-- A worker looks for a key. -/
  | take (worker : Nat)
  /-- The store serves the call of a worker. -/
  | serve (worker : Nat) (service : Service)
  /-- The answer of the store reaches a worker. -/
  | resume (worker : Nat)
  /-- The answer of the authority reaches a worker. -/
  | order (worker : Nat) (answer : Except AuthorityError Certificate)
  /-- The delayed addition at a place is made. -/
  | ring (place : Nat)
  /-- The store serves the listing of the renewal scan. -/
  | list
  /-- The listing reaches the renewal scan, which takes the present to be an instant. -/
  | renew (now : Instant)
  /-- A certificate is asked for from outside. -/
  | obtain (request : Request)
  /-- A secret is released. -/
  | release (secret : SecretRef)
  /-- Somebody outside looks at a secret. -/
  | look (secret : SecretRef)
  /-- A deletion from outside takes effect. -/
  | remove (secret : SecretRef)
  /-- A write from outside takes effect; the secret has a name and a namespace. -/
  | put (secret : Secret)
  /-- The manager is told to stop. -/
  | stop

/-- The manager at work. -/
structure Floor where
  /-- The manager. -/
  manager : Manager
  /-- The secrets. -/
  shelf : Snapshot Secret
  /-- Where the workers stand. -/
  posts : List Post
  /-- The keys that are to be added again after a delay. -/
  timers : List String
  /-- The secrets that the renewal scan has been given and not looked through yet. -/
  scan : Option (List Secret)
  /-- What has happened, the last deed first. -/
  journal : List Deed

/-- The key of the place of a secret in a store. -/
def SecretRef.place (s : SecretRef) : ObjectKey := ⟨some s.ns, s.name⟩

namespace Floor

/-! ## Changes of the state -/

/-- Where a worker stands; there is nobody beyond the last one. -/
def post (f : Floor) (worker : Nat) : Post := f.posts[worker]?.getD .ended

/-- A worker stands somewhere else. -/
def setPost (f : Floor) (worker : Nat) (p : Post) : Floor :=
  { f with posts := f.posts.set worker p }

/-- The manager has changed. -/
def setManager (f : Floor) (m : Manager) : Floor := { f with manager := m }

/-- Something has happened. -/
def note (f : Floor) (d : Deed) : Floor := { f with journal := d :: f.journal }

/-- A call of a worker for a secret has been served. -/
def judge (f : Floor) (s : SecretRef) (service : Service) : Floor :=
  { f with journal := service.notes s ++ f.journal }

/-- The secret at a place. -/
def secret? (f : Floor) (s : SecretRef) : Option Secret := f.shelf.lookup s.place

/-- A secret is stored. -/
def insert (f : Floor) (s : Secret) : Floor :=
  { f with shelf := f.shelf.insert s.metadata.key s }

/-- The secret at a place is deleted. -/
def erase (f : Floor) (s : SecretRef) : Floor := { f with shelf := f.shelf.erase s.place }

/-- The secrets that the manager owns. -/
def owned (f : Floor) : List Secret :=
  f.shelf.objects.filter fun s => s.metadata.isManagedBy f.manager.settings.controllerName

/-- The manager with a ceiling for its quota, started on the answer to its first listing. -/
def restored (settings : ManagerSettings) (max : Int) (listing : Except Error (List Secret)) :
    Manager :=
  let m := Manager.new settings (.new max)
  (if m.quota.enabled then m.afterRestoreListing listing else m).markRestored

/-- The manager starts: its workers look for keys. -/
def start (settings : ManagerSettings) (max : Int) (listing : Except Error (List Secret))
    (shelf : Snapshot Secret) : Floor where
  manager := restored settings max listing
  shelf := shelf
  posts := List.replicate (Nat.max 1 settings.workers) .idle
  timers := []
  scan := none
  journal := []

/-! ## Steps -/

/-- A worker looks for a key and, if there is a request for it, asks for its secret. -/
def begin (f : Floor) (i : Nat) : Floor :=
  match f.manager.take i with
  | (m, .blocked) => f.setManager m
  | (m, .closed) => (f.setManager m).setPost i .ended
  | (m, .key k) =>
    match m.startOn k with
    | (m, some r) => (f.setManager m).setPost i (.reading r none)
    | (m, none) => f.setManager (m.finish k)

/-- The store serves the call of a worker. -/
def serve? (f : Floor) (i : Nat) (service : Service) : Option Floor :=
  match f.post i with
  | .reading r none =>
    some ((f.judge r.target service).setPost i
      (.reading r (some (service.answer (f.secret? r.target)))))
  | .storing r s none =>
    let f := if service.takesEffect then (f.insert s).note (.wrote r.target) else f
    some ((f.judge r.target service).setPost i (.storing r s (some (service.answer ()))))
  | .withdrawing r none =>
    let f := if service.takesEffect then (f.erase r.target).note (.withdrew r.target) else f
    some ((f.judge r.target service).setPost i (.withdrawing r (some (service.answer ()))))
  | _ => none

/-- An issuance has ended: the outcome is settled, and the worker looks for a key again. -/
def conclude (f : Floor) (i : Nat) (r : Request) (result : Except Error Unit) : Floor :=
  let (m, settlement) := f.manager.settle r.key r result
  let timers := match settlement with
    | .forgotten => f.timers
    | .again _ => r.key :: f.timers
  { (f.setManager (m.finish r.key)).setPost i .idle with timers }

/-- A worker goes on as the manager says. -/
def advance (f : Floor) (i : Nat) (r : Request) (next : Manager × Progress) : Floor :=
  match next with
  | (m, .order) => (f.setManager m).setPost i (.ordering r)
  | (m, .store s) => (f.setManager m).setPost i (.storing r s none)
  | (m, .withdraw) => (f.setManager m).setPost i (.withdrawing r none)
  | (m, .ended result) => (f.setManager m).conclude i r result

/-- The answer of the store reaches a worker. -/
def resume? (f : Floor) (i : Nat) : Option Floor :=
  match f.post i with
  | .reading r (some a) => some (f.advance i r (f.manager.afterRead r a))
  | .storing r _ (some a) => some (f.advance i r (f.manager.afterStore r a))
  | .withdrawing r (some a) => some (f.advance i r (f.manager.afterWithdraw a))
  | _ => none

/-- The renewal scan asks again for what is due among the secrets that it was given. -/
def renew (f : Floor) (threshold : Int) (now : Instant) (listing : List Secret) : Floor :=
  let due := listing.filterMap (f.manager.due? threshold now)
  { f with
    manager := (f.manager.afterRenewalListing threshold now (.ok listing)).1
    scan := none
    journal := (due.map fun b => Deed.renewed b.toRequest).reverse ++ f.journal }

/-- What an event does, if it can happen. -/
def step? (f : Floor) : FloorEvent → Option Floor
  | .take i =>
    match f.post i with
    | .idle => if f.manager.queue.bell.waiting.contains i then none else some (f.begin i)
    | _ => none
  | .serve i service => f.serve? i service
  | .resume i => f.resume? i
  | .order i a =>
    match f.post i with
    | .ordering r => some (f.advance i r (f.manager.afterOrder r a))
    | _ => none
  | .ring place =>
    f.timers[place]?.map fun k =>
      { f with manager := f.manager.readd k, timers := f.timers.eraseIdx place }
  | .list =>
    match f.scan, f.manager.renewalThreshold with
    | none, .ok _ => some { f with scan := some f.owned }
    | _, _ => none
  | .renew now =>
    match f.scan, f.manager.renewalThreshold with
    | some listing, .ok threshold => some (f.renew threshold now listing)
    | _, _ => none
  | .obtain r => some ((f.setManager (f.manager.obtain r)).note (.asked r))
  | .release s => some ((f.setManager (f.manager.release s)).note (.released s))
  | .look s => some (f.note (.looked s))
  | .remove s => some ((f.erase s).note (.removed s))
  | .put s =>
    if s.metadata.key = s.ref.place then some ((f.insert s).note (.placed s.ref)) else none
  | .stop => some (f.setManager f.manager.shutDown)

/-- Events happen one after the other. -/
def run? (f : Floor) : List FloorEvent → Option Floor
  | [] => some f
  | e :: es => (f.step? e).bind fun g => g.run? es

/-- Nothing is queued, in flight or scheduled. -/
def IsQuiet (f : Floor) : Prop :=
  f.manager.queue.ready = [] ∧ (∀ p ∈ f.posts, p.request? = none) ∧ f.timers = [] ∧
    f.scan = none

theorem run?_cons (f : Floor) (e : FloorEvent) (es : List FloorEvent) :
    f.run? (e :: es) = (f.step? e).bind fun g => g.run? es := rfl

theorem run?_append (f : Floor) (es es' : List FloorEvent) :
    f.run? (es ++ es') = (f.run? es).bind fun g => g.run? es' := by
  induction es generalizing f with
  | nil => rfl
  | cons e es ih =>
      rw [List.cons_append, run?_cons, run?_cons]
      cases f.step? e with
      | none => rfl
      | some g => exact ih g

/-! ## All that a step can do -/

/-- What happens between two states that follow each other. -/
inductive Move (f : Floor) : Floor → Prop where
  | waited {i : Nat} {m : Manager} (idle : f.post i = .idle)
      (taken : f.manager.take i = (m, .blocked)) : Move f (f.setManager m)
  | left {i : Nat} {m : Manager} (idle : f.post i = .idle)
      (taken : f.manager.take i = (m, .closed)) : Move f ((f.setManager m).setPost i .ended)
  /-- A worker takes a key without a request. -/
  | skipped {i : Nat} {m : Manager} {k : String} (idle : f.post i = .idle)
      (taken : f.manager.take i = (m, .key k)) (none : f.manager.requests.find? k = none) :
      Move f (f.setManager ((m.startOn k).1.finish k))
  | started {i : Nat} {m : Manager} {k : String} {r : Request} (idle : f.post i = .idle)
      (taken : f.manager.take i = (m, .key k)) (some : f.manager.requests.find? k = some r) :
      Move f ((f.setManager (m.startOn k).1).setPost i (.reading r .none))
  | read {i : Nat} {r : Request} (service : Service) (reading : f.post i = .reading r none) :
      Move f ((f.judge r.target service).setPost i
        (.reading r (some (service.answer (f.secret? r.target)))))
  | wrote {i : Nat} {r : Request} {s : Secret} {service : Service}
      (storing : f.post i = .storing r s none) (effect : service.takesEffect = true) :
      Move f ((((f.insert s).note (.wrote r.target)).judge r.target service).setPost i
        (.storing r s (some (service.answer ()))))
  | unwritten {i : Nat} {r : Request} {s : Secret} {service : Service}
      (storing : f.post i = .storing r s none) (effect : service.takesEffect = false) :
      Move f ((f.judge r.target service).setPost i (.storing r s (some (service.answer ()))))
  | withdrew {i : Nat} {r : Request} {service : Service}
      (withdrawing : f.post i = .withdrawing r none) (effect : service.takesEffect = true) :
      Move f ((((f.erase r.target).note (.withdrew r.target)).judge r.target service).setPost i
        (.withdrawing r (some (service.answer ()))))
  | unwithdrawn {i : Nat} {r : Request} {service : Service}
      (withdrawing : f.post i = .withdrawing r none) (effect : service.takesEffect = false) :
      Move f ((f.judge r.target service).setPost i (.withdrawing r (some (service.answer ()))))
  /-- An issuance fails before anything is reserved. -/
  | failed {i : Nat} {r : Request} {a : Except Error (Option Secret)} (e : Error)
      (reading : f.post i = .reading r (some a)) : Move f (f.conclude i r (.error e))
  | reserved {i : Nat} {r : Request} {existing : Option Secret} {q : Quota}
      (reading : f.post i = .reading r (some (.ok existing)))
      (ours : f.manager.isForeign existing = false)
      (ok : f.manager.quota.reserve r.key r.domains.size = .ok q) :
      Move f ((f.setManager { f.manager with quota := q }).setPost i (.ordering r))
  /-- An issuance ends without a secret being written: it fails, or it was released. -/
  | gaveUp {i : Nat} {r : Request} {result : Except Error Unit}
      (standing : f.post i = .ordering r ∨ ∃ s e, f.post i = .storing r s (some (.error e)))
      (why : (∃ e, result = .error e) ∨ f.manager.isReleased r.key = true) :
      Move f ((f.setManager (f.manager.rollback r)).conclude i r result)
  /-- The certificate is there, and its secret is to be written. -/
  | ordered {i : Nat} {r : Request} (certificate : Certificate)
      (ordering : f.post i = .ordering r) (unreleased : f.manager.isReleased r.key = false) :
      Move f (f.setPost i
        (.storing r (managedSecret r certificate f.manager.settings.controllerName) none))
  /-- The secret was written and is to be deleted again. -/
  | recalled {i : Nat} {r : Request} {s : Secret}
      (storing : f.post i = .storing r s (some (.ok ())))
      (released : f.manager.isReleased r.key = true) :
      Move f ((f.setManager (f.manager.rollback r)).setPost i (.withdrawing r none))
  /-- The secret was written and the reservation is committed. -/
  | stored {i : Nat} {r : Request} {s : Secret}
      (storing : f.post i = .storing r s (some (.ok ())))
      (unreleased : f.manager.isReleased r.key = false) :
      Move f ((f.setManager { f.manager with
        inFlight := f.manager.inFlight.erase r.key
        quota := f.manager.quota.commit r.key }).conclude i r (.ok ()))
  /-- The withdrawal has been answered. -/
  | cleared {i : Nat} {r : Request} {a : Except Error Unit}
      (withdrawing : f.post i = .withdrawing r (some a)) : Move f (f.conclude i r (.ok ()))
  /-- A delayed addition is made. -/
  | rang {place : Nat} {k : String} (timer : f.timers[place]? = some k) :
      Move f { f with manager := f.manager.readd k, timers := f.timers.eraseIdx place }
  | listed (unlisted : f.scan = none) : Move f { f with scan := some f.owned }
  | renewed {listing : List Secret} (threshold : Int) (now : Instant)
      (scan : f.scan = some listing) : Move f (f.renew threshold now listing)
  | asked (r : Request) : Move f ((f.setManager (f.manager.obtain r)).note (.asked r))
  | released (s : SecretRef) : Move f ((f.setManager (f.manager.release s)).note (.released s))
  | looked (s : SecretRef) : Move f (f.note (.looked s))
  | removed (s : SecretRef) : Move f ((f.erase s).note (.removed s))
  | placed {s : Secret} (named : s.metadata.key = s.ref.place) :
      Move f ((f.insert s).note (.placed s.ref))
  | stopped : Move f (f.setManager f.manager.shutDown)

theorem take_requests {m m' : Manager} {i : Nat} {taken : Taken} (h : m.take i = (m', taken)) :
    m'.requests = m.requests := by
  obtain ⟨rfl, -⟩ := Prod.mk.inj h
  rfl

theorem move_begin {f : Floor} {i : Nat} (h : f.post i = .idle) : Move f (f.begin i) := by
  rw [begin]
  split
  · next m ht => exact .waited h ht
  · next m ht => exact .left h ht
  · next m k ht =>
      rw [Manager.startOn]
      cases hreq : m.requests.find? k with
      | none => exact .skipped h ht (by rwa [take_requests ht] at hreq)
      | some r => exact .started h ht (by rwa [take_requests ht] at hreq)

theorem move_serve {f g : Floor} {i : Nat} {service : Service}
    (h : f.serve? i service = some g) : Move f g := by
  rw [serve?] at h
  split at h
  · next r hpost =>
      cases h
      exact .read service hpost
  · next r s hpost =>
      cases h
      cases heffect : service.takesEffect with
      | true => exact .wrote hpost heffect
      | false => exact .unwritten hpost heffect
  · next r hpost =>
      cases h
      cases heffect : service.takesEffect with
      | true => exact .withdrew hpost heffect
      | false => exact .unwithdrawn hpost heffect
  · cases h

theorem move_afterRead {f : Floor} {i : Nat} {r : Request} {a : Except Error (Option Secret)}
    (h : f.post i = .reading r (some a)) : Move f (f.advance i r (f.manager.afterRead r a)) := by
  obtain ⟨e, heq⟩ | ⟨existing, q, rfl, hours, hq, heq⟩ := f.manager.afterRead_cases r a
  · rw [heq]
    exact .failed e h
  · rw [heq]
    exact .reserved h hours hq

theorem move_afterOrder {f : Floor} {i : Nat} {r : Request} (h : f.post i = .ordering r)
    (a : Except AuthorityError Certificate) :
    Move f (f.advance i r (f.manager.afterOrder r a)) := by
  obtain ⟨result, heq, why⟩ | ⟨c, -, hunreleased, heq⟩ := f.manager.afterOrder_cases r a
  · rw [heq]
    refine .gaveUp (Or.inl h) (why.imp_left ?_)
    rintro ⟨e, -, hresult⟩
    exact ⟨_, hresult⟩
  · rw [heq]
    exact .ordered c h hunreleased

theorem move_afterStore {f : Floor} {i : Nat} {r : Request} {s : Secret}
    {a : Except Error Unit} (h : f.post i = .storing r s (some a)) :
    Move f (f.advance i r (f.manager.afterStore r a)) := by
  obtain ⟨e, rfl, heq⟩ | ⟨rfl, hreleased, heq⟩ | ⟨rfl, hunreleased, heq⟩ :=
    f.manager.afterStore_cases r a
  · rw [heq]
    exact .gaveUp (Or.inr ⟨s, e, h⟩) (Or.inl ⟨e, rfl⟩)
  · rw [heq]
    exact .recalled h hreleased
  · rw [heq]
    exact .stored h hunreleased

/-- Every step is one of the moves. -/
theorem move_of_step? {f g : Floor} {e : FloorEvent} (h : f.step? e = some g) : Move f g := by
  cases e with
  | take i =>
      rw [step?] at h
      split at h
      · next hpost =>
          split at h
          · cases h
          · cases h
            exact move_begin hpost
      · cases h
  | serve i service => exact move_serve h
  | resume i =>
      rw [step?, resume?] at h
      split at h
      · next r a hpost =>
          cases h
          exact move_afterRead hpost
      · next r s a hpost =>
          cases h
          exact move_afterStore hpost
      · next r a hpost =>
          cases h
          exact .cleared hpost
      · cases h
  | order i a =>
      rw [step?] at h
      split at h
      · next r hpost =>
          cases h
          exact move_afterOrder hpost a
      · cases h
  | ring place =>
      rw [step?] at h
      obtain ⟨k, hk, rfl⟩ := Option.map_eq_some_iff.1 h
      exact .rang hk
  | list =>
      rw [step?] at h
      split at h
      · next hscan _ =>
          cases h
          exact .listed hscan
      · cases h
  | renew now =>
      rw [step?] at h
      split at h
      · next listing threshold hscan _ =>
          cases h
          exact .renewed threshold now hscan
      · cases h
  | obtain r =>
      cases h
      exact .asked r
  | release s =>
      cases h
      exact .released s
  | look s =>
      cases h
      exact .looked s
  | remove s =>
      cases h
      exact .removed s
  | put s =>
      rw [step?] at h
      split at h
      · next hnamed =>
          cases h
          exact .placed hnamed
      · cases h
  | stop =>
      cases h
      exact .stopped

end Floor

end IngressTls
