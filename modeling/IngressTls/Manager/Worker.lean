import IngressTls.Manager.Issuance

set_option autoImplicit false

/-! # Workers

A worker takes a key from the queue, issues for the newest request of the key, and settles
the outcome: the request is done, or dropped, or added again after a delay. A pending answer
of the authority is no failure and is asked for again as often as it takes; other failures
that can pass are tried again a limited number of times.
-/

namespace IngressTls

/-- What becomes of a request after an attempt. -/
inductive Settlement where
  /-- The key is forgotten. -/
  | forgotten
  /-- The key is added again after the delay that follows the given count of failures. -/
  | again (failures : Nat)
  deriving DecidableEq, Repr

namespace Manager

/-- A worker looks for a key; it waits if there is none. -/
def take (m : Manager) (worker : Nat) : Manager × Taken :=
  let (queue, taken) := m.queue.take worker
  ({ m with queue }, taken)

/-- A worker starts on a key: the key is in flight, and its newest request, if it was not
withdrawn, is taken. -/
def startOn (m : Manager) (key : String) : Manager × Option Request :=
  ({ m with inFlight := m.inFlight.insert key false, requests := m.requests.erase key },
    m.requests.find? key)

/-- Forgets the failures of a key. -/
def forget (m : Manager) (key : String) : Manager := { m with queue := m.queue.forget key }

/-- Stores a request again, unless a newer one came meanwhile, and counts the attempt. -/
def requeue (m : Manager) (key : String) (r : Request) : Manager × Settlement :=
  let requests := if m.requests.has key then m.requests else m.requests.insert key r
  let (queue, count) := m.queue.fail key
  ({ m with requests, queue }, .again count)

/-- Decides what becomes of a request whose attempt failed. -/
def settleFailure (m : Manager) (key : String) (r : Request) (e : Error) :
    Manager × Settlement :=
  if m.isReleased key then (m.forget key, .forgotten)
  else if e.isPending then m.requeue key r
  else
    match e with
    | .quota _ => (m.forget key, .forgotten)
    | _ =>
      if e.isRetryable && m.queue.failuresOf key < m.settings.maxRetries then m.requeue key r
      else (m.forget key, .forgotten)

/-- Decides what becomes of a request after an attempt. -/
def settle (m : Manager) (key : String) (r : Request) (result : Except Error Unit) :
    Manager × Settlement :=
  match result with
  | .ok () => (m.forget key, .forgotten)
  | .error e => m.settleFailure key r e

/-- A worker is done with a key: it is no longer in flight, a release recorded meanwhile
gives back what an earlier issuance acquired, and the queue may hand the key out again. -/
def finish (m : Manager) (key : String) : Manager :=
  let released := m.isReleased key
  let m := { m with inFlight := m.inFlight.erase key }
  let m := if released then m.releaseQuota key else m
  { m with queue := m.queue.done key }

/-- A delayed addition of a key is made. -/
def readd (m : Manager) (key : String) : Manager := { m with queue := m.queue.add key }

/-- No key is handed out any more. -/
def shutDown (m : Manager) : Manager := { m with queue := m.queue.close }

/-- The delay before a key is added again after a count of failures. -/
def requeueDelay (m : Manager) (failures : Nat) : Duration :=
  ((Backoff.requeue m.settings.maxRetries).delay? failures).getD 0

end Manager

end IngressTls
