import IngressTls.Rehearsal.Agenda
import IngressTls.Rehearsal.Script

set_option autoImplicit false

/-! # The manager at work

The manager with its workers and its renewal timer, run on a virtual clock against a store
of secrets and a scripted authority. The store is reached through a `Store` of calls, so
that the same workshop runs against a plain shelf and against an API server.

Workers take turns: one that runs goes on until it waits, for a key or for a late answer of
the authority, and then the next one that can run does. When several alarms ring at one
instant, those they concern run first, in order, and then the workers that were woken meanwhile.
The store answers at once.

The quota is computed in 64 bits. Where that cannot be done, who needs it breaks off: a worker is
gone and keeps its key, a start is over before there are workers, and what was asked for
directly has no outcome.
-/

namespace IngressTls.Rehearsal

/-- The calls of a store with state `σ`. Demand may reach the manager during a call. -/
structure Store (σ : Type) where
  /-- Reads a secret. -/
  get : σ → Manager → SecretRef → (σ × Manager) × Except Error (Option Secret)
  /-- Writes a secret. -/
  apply : σ → Manager → Secret → (σ × Manager) × Except Error Unit
  /-- Deletes a secret. -/
  delete : σ → Manager → SecretRef → (σ × Manager) × Except Error Unit
  /-- Lists the secrets. -/
  list : σ → Manager → (σ × Manager) × Except Error (List Secret)

/-- A call to the store or the authority, noted when it begins. -/
inductive Call where
  | get (secret : SecretRef)
  | authority (hosts : String)
  | apply (secret : Secret)
  | delete (secret : SecretRef)
  | list

/-- Who issues: a worker, or somebody who asked for it directly. -/
inductive Issuer where
  | worker (id : Nat)
  | direct

/-- What waits for its instant. -/
inductive Alarm where
  /-- A key is added again. -/
  | readd (key : String)
  /-- The authority answers. -/
  | reply (issuer : Issuer) (request : Request) (reply : Reply)
  /-- The renewal scan is due. -/
  | renewal

/-- How an issuance that was asked for directly ended. -/
inductive DirectEnd where
  /-- With an outcome. -/
  | outcome (result : Except Error Unit)
  /-- Without one. -/
  | brokenOff

/-- What can run now. -/
inductive Job where
  /-- A worker looks for a key. -/
  | worker (id : Nat)
  /-- The first renewal scan. -/
  | renewal

/-- The manager at work. -/
structure Workshop (σ : Type) where
  /-- The manager. -/
  manager : Manager
  /-- The store. -/
  store : σ
  /-- What the authority is told to answer. -/
  authority : AuthorityScript
  /-- The clock, with what waits for its instant. -/
  agenda : Agenda Alarm
  /-- What can run now, beside the workers that have been woken. -/
  jobs : List Job
  /-- The calls so far, the last one first. -/
  calls : List Call
  /-- The number of workers that have not ended. -/
  workers : Nat
  /-- Whether the manager has been started. -/
  started : Bool
  /-- Whether the start broke off. -/
  brokenOff : Bool
  /-- Whether it has been told to stop. -/
  cancelled : Bool
  /-- The end of the issuance that was asked for directly. -/
  direct : Option DirectEnd
  /-- The present, for the validity of certificates. -/
  today : Instant

namespace Workshop

variable {σ : Type}

/-- A manager that has not been started. -/
def start (manager : Manager) (store : σ) (authority : AuthorityScript) (today : Instant) :
    Workshop σ :=
  { manager, store, authority, agenda := .start, jobs := [], calls := [], workers := 0,
    started := false, brokenOff := false, cancelled := false, direct := none, today }

/-- Whether the manager was started and has not ended. -/
def isRunning (w : Workshop σ) : Bool :=
  w.started && !w.brokenOff && !(w.cancelled && w.workers = 0)

/-- Notes a call. -/
def noteCall (w : Workshop σ) (c : Call) : Workshop σ := { w with calls := c :: w.calls }

/-- Makes a call of the store. -/
def call {α : Type} (w : Workshop σ) (c : Call) (f : σ → Manager → (σ × Manager) × α) :
    Workshop σ × α :=
  let w := w.noteCall c
  let ((store, manager), answer) := f w.store w.manager
  ({ w with store, manager }, answer)

/-- An issuance has ended. A worker settles the outcome and looks for the next key. -/
def conclude (w : Workshop σ) (issuer : Issuer) (r : Request) (result : Except Error Unit) :
    Workshop σ :=
  match issuer with
  | .direct => { w with direct := some (.outcome result) }
  | .worker id =>
    let (manager, settlement) := w.manager.settle r.key r result
    let agenda := match settlement with
      | .forgotten => w.agenda
      | .again n => w.agenda.note (manager.requeueDelay n / 1000000) (.readd r.key)
    { w with manager := manager.finish r.key, agenda, jobs := .worker id :: w.jobs }

/-- Deletes what was written for a request that was released meanwhile. -/
def withdraw (st : Store σ) (w : Workshop σ) (issuer : Issuer) (r : Request) : Workshop σ :=
  let (w, answer) := w.call (.delete r.target) fun s m => st.delete s m r.target
  let (manager, progress) := w.manager.afterWithdraw answer
  let w := { w with manager }
  match progress with
  | .ended result => w.conclude issuer r result
  | _ => w

/-- Writes the secret. -/
def write (st : Store σ) (w : Workshop σ) (issuer : Issuer) (r : Request) (s : Secret) :
    Workshop σ :=
  let (w, answer) := w.call (.apply s) fun t m => st.apply t m s
  let (manager, progress) := w.manager.afterStore r answer
  let w := { w with manager }
  match progress with
  | .withdraw => w.withdraw st issuer r
  | .ended result => w.conclude issuer r result
  | _ => w

/-- The authority answers. -/
def receive (st : Store σ) (w : Workshop σ) (issuer : Issuer) (r : Request) (reply : Reply) :
    Workshop σ :=
  let m := Demand.reachAll w.manager reply.during
  let (manager, progress) := m.afterOrder r reply.outcome
  let w := { w with manager }
  match progress with
  | .store s => w.write st issuer r s
  | .ended result => w.conclude issuer r result
  | _ => w

/-- Asks the authority, whose answer may come late. -/
def order (st : Store σ) (w : Workshop σ) (issuer : Issuer) (r : Request) : Workshop σ :=
  let hosts := r.domains.joined
  let (authority, reply) := w.authority.reply hosts
  let w := { w.noteCall (.authority hosts) with authority }
  if reply.delay = 0 then w.receive st issuer r reply
  else { w with agenda := w.agenda.note reply.delay (.reply issuer r reply) }

/-- An issuance breaks off. Its worker is gone; the key stays in flight. -/
def breakOff (w : Workshop σ) (issuer : Issuer) : Workshop σ :=
  match issuer with
  | .direct => { w with direct := some .brokenOff }
  | .worker _ => { w with workers := w.workers - 1 }

/-- Begins an issuance. -/
def issue (st : Store σ) (w : Workshop σ) (issuer : Issuer) (r : Request) : Workshop σ :=
  let (w, answer) := w.call (.get r.target) fun s m => st.get s m r.target
  if !w.manager.readFits r answer then w.breakOff issuer
  else
    let (manager, progress) := w.manager.afterRead r answer
    let w := { w with manager }
    match progress with
    | .order => w.order st issuer r
    | .ended result => w.conclude issuer r result
    | _ => w

/-- A worker looks for a key. -/
def work (st : Store σ) (w : Workshop σ) (id : Nat) : Workshop σ :=
  let (manager, taken) := w.manager.take id
  let w := { w with manager }
  match taken with
  | .blocked => w
  | .closed => { w with workers := w.workers - 1 }
  | .key k =>
    let (manager, request) := w.manager.startOn k
    let w := { w with manager }
    match request with
    | some r => w.issue st (.worker id) r
    | none => { w with manager := w.manager.finish k, jobs := .worker id :: w.jobs }

/-- Makes a renewal scan. -/
def renew (st : Store σ) (w : Workshop σ) : Workshop σ × Except Error Nat :=
  match w.manager.renewalThreshold with
  | .error e => (w, .error e)
  | .ok threshold =>
    let (w, answer) := w.call .list st.list
    let (manager, result) := w.manager.afterRenewalListing threshold w.today answer
    ({ w with manager }, result)

/-- Makes a renewal scan and waits for the next one. -/
def renewalTick (st : Store σ) (w : Workshop σ) : Workshop σ :=
  let (w, _) := w.renew st
  { w with agenda := w.agenda.note (w.manager.settings.renewalInterval * 1000) .renewal }

/-- What can run now runs, one job after the other; `wake` says whether the workers that have
been woken run as well. -/
def runJobs (st : Store σ) (wake : Bool) : (fuel : Nat) → Workshop σ → Workshop σ
  | 0, w => w
  | fuel + 1, w =>
    match w.jobs with
    | .worker id :: rest => runJobs st wake fuel (work st { w with jobs := rest } id)
    | .renewal :: rest => runJobs st wake fuel (renewalTick st { w with jobs := rest })
    | [] =>
      match w.manager.queue.bell.woken with
      | v :: _ => if wake then runJobs st wake fuel (work st w v.taker) else w
      | [] => w

/-- The most turns that are taken without the clock moving. -/
def turnLimit : Nat := 20000

/-- What is due happens, and whom it concerns goes on. -/
def ring (st : Store σ) (w : Workshop σ) (alarm : Alarm) : Workshop σ :=
  let w := match alarm with
    | .readd key => { w with manager := w.manager.readd key }
    | .reply issuer r reply => w.receive st issuer r reply
    | .renewal => if w.cancelled then w else w.renewalTick st
  w.runJobs st false turnLimit

/-- The alarms of one instant ring. -/
def ringAll (st : Store σ) (w : Workshop σ) (alarms : List Alarm) : Workshop σ :=
  alarms.foldl (ring st) w

/-- All that can happen without the clock moving happens. -/
def settle (st : Store σ) (w : Workshop σ) : Workshop σ := w.runJobs st true turnLimit

/-- Moves the clock up to an instant, from one at which something is due to the next. -/
def runTo (st : Store σ) (limit : Nat) : (fuel : Nat) → Workshop σ → Workshop σ
  | 0, w => w
  | fuel + 1, w =>
    match w.agenda.next? limit with
    | none => w
    | some (alarms, agenda) =>
      runTo st limit fuel ((ringAll st { w with agenda } alarms).settle st)

/-- Moves the clock. -/
def advance (st : Store σ) (w : Workshop σ) (ms : Nat) : Workshop σ :=
  let target := w.agenda.now + ms
  let w := (w.settle st).runTo st target turnLimit
  { w with agenda := { w.agenda with now := target } }

/-- Restores the quota from the secrets that exist, as far as it can be computed; the second
part of the result says whether it could be to the end. -/
def restore (st : Store σ) (w : Workshop σ) : Workshop σ × Bool :=
  let done (w : Workshop σ) : Workshop σ × Bool :=
    ({ w with manager := w.manager.markRestored }, true)
  if w.manager.quota.enabled then
    let (w, answer) := w.call .list st.list
    let listing := answer.toOption.getD []
    let admitted := Manager.computable w.manager.quota listing
    let w := { w with manager := w.manager.afterRestoreListing (.ok admitted) }
    if admitted.length < listing.length then (w, false) else done w
  else done w

/-- The job of the renewal timer, which ends at once if its period is zero. -/
def renewalJobs (w : Workshop σ) : List Job :=
  if w.manager.settings.renewalInterval = 0 then [] else [.renewal]

/-- Starts the manager: the quota is restored, then workers and renewal begin. -/
def launch (st : Store σ) (w : Workshop σ) : Workshop σ :=
  let (w, restored) := w.restore st
  let w := { w with started := true, brokenOff := !restored }
  if !restored then w
  else
    let count := Nat.max 1 w.manager.settings.workers
    let jobs := (List.range count).map Job.worker
    let w := { w with workers := count }
    if w.cancelled then { w with manager := w.manager.shutDown, jobs := w.jobs ++ jobs }
    else { w with jobs := w.jobs ++ jobs ++ w.renewalJobs }

/-- Starts the manager against a store that never answers a listing. If the quota is enabled
the manager never gets beyond restoring it; else only the renewal scan never ends. -/
def launchUnanswered (w : Workshop σ) : Workshop σ :=
  if w.manager.quota.enabled then { w with started := true, workers := 1 }
  else
    let count := Nat.max 1 w.manager.settings.workers
    { w with
      started := true
      workers := count + w.renewalJobs.length
      manager := w.manager.markRestored
      jobs := w.jobs ++ (List.range count).map Job.worker }

/-- Tells the manager to stop: no key is handed out any more, and the renewal timer ends. -/
def cancel (w : Workshop σ) : Workshop σ :=
  { w with
    cancelled := true
    agenda := w.agenda.cancel fun a => match a with | .renewal => true | _ => false
    manager := if w.started && !w.brokenOff then w.manager.shutDown else w.manager }

/-- Issues for a request and waits for the outcome, moving the clock if it must. -/
def resolve (st : Store σ) (w : Workshop σ) (r : Request) :
    Workshop σ × Option (Except Error Unit) :=
  let w := ({ w with direct := none }.issue st .direct r).settle st
  let rec wait : (fuel : Nat) → Workshop σ → Workshop σ
    | 0, w => w
    | fuel + 1, w =>
      match w.direct, w.agenda.noted with
      | none, e :: _ => wait fuel (w.runTo st e.due 1)
      | _, _ => w
  let w := wait turnLimit w
  (w, match w.direct with
    | some (.outcome result) => some result
    | _ => none)

end Workshop

/-! ## The shelf as a store -/

namespace SecretShelf

/-- Takes the next entry of a list of faults. -/
def nextFault (fs : List (Option Fault)) : Option Fault × List (Option Fault) :=
  match fs with
  | [] => (none, [])
  | f :: rest => (f, rest)

/-- Makes a call that a fault may hit: demand reaches the manager first, then the call fails
or has its effect. -/
def hit {α : Type} (h : SecretShelf) (m : Manager) (fault : Option Fault)
    (effect : SecretShelf → SecretShelf × α) : (SecretShelf × Manager) × Except Error α :=
  let m := Demand.reachAll m ((fault.map Fault.during).getD [])
  match fault.bind Fault.error with
  | some e => ((h, m), .error e)
  | none =>
    let (h, a) := effect h
    ((h, m), .ok a)

/-- The shelf as the manager calls it. -/
def store : Store SecretShelf where
  get h m r :=
    let (fault, rest) := nextFault h.faults.get
    { h with faults := { h.faults with get := rest } }.hit m fault fun h => (h, h.find? r)
  apply h m s :=
    let (fault, rest) := nextFault h.faults.apply
    { h with faults := { h.faults with apply := rest } }.hit m fault fun h => (h.put s, ())
  delete h m r :=
    let (fault, rest) := nextFault h.faults.delete
    { h with faults := { h.faults with delete := rest } }.hit m fault fun h => (h.remove r, ())
  list h m :=
    let (fault, rest) := nextFault h.faults.list
    { h with faults := { h.faults with list := rest } }.hit m fault fun h => (h, h.secrets)

end SecretShelf

end IngressTls.Rehearsal
