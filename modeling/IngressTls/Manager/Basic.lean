import IngressTls.Backoff
import IngressTls.Bookkeeping
import IngressTls.Quota
import IngressTls.WorkQueue

set_option autoImplicit false

/-! # The certificate manager

The manager turns demand into stored certificates. It keeps the newest request of every
secret, queues the secret's key, and has workers issue: reserve quota for the hosts, order
the certificate, store it as a managed secret, then commit or roll back the reservation.

A request that is withdrawn while a worker issues for it is recorded as a flag on the key in
flight. The worker sees the flag at its next step and discards or deletes what it made.

This file holds the state and the demand side: `obtain` and `release`.
-/

namespace IngressTls

/-- What the manager can be set to. -/
structure ManagerSettings where
  /-- The ownership label of managed secrets. -/
  controllerName : String
  /-- Certificates with less validity left than a span of time are renewed: its whole seconds. -/
  renewBefore : Nat
  /-- The nanoseconds that the span has beyond them. -/
  renewBeforeNanos : Nat := 0
  /-- They make no second. -/
  renewBeforeNanos_lt : renewBeforeNanos < Duration.nanosPerSecond := by
    exact Duration.nanosPerSecond_pos
  /-- The period of the renewal scan, in seconds. -/
  renewalInterval : Nat
  /-- The number of workers. -/
  workers : Nat
  /-- How often a failing request is tried again. -/
  maxRetries : Nat
  deriving DecidableEq, Repr

/-- The validity below which certificates are renewed, in nanoseconds. -/
def ManagerSettings.threshold (s : ManagerSettings) : Int :=
  s.renewBefore * Instant.nanosPerSecond + s.renewBeforeNanos

/-- Thirty days of validity, an hourly scan, four workers and ten retries. -/
def ManagerSettings.standard : ManagerSettings where
  controllerName := Wire.defaultControllerName
  renewBefore := 30 * 24 * 3600
  renewalInterval := 3600
  workers := 4
  maxRetries := 10

/-- The state of the manager. -/
structure Manager where
  /-- What it is set to. -/
  settings : ManagerSettings
  /-- The newest request of each key that no worker has taken. -/
  requests : Table Request
  /-- The keys that workers issue for, and whether they were released meanwhile. -/
  inFlight : Table Bool
  /-- The queue of keys. -/
  queue : WorkQueue
  /-- Whether the quota has been restored. -/
  restored : Bool
  /-- The quota. -/
  quota : Quota

namespace Manager

/-- A manager without demand. -/
def new (settings : ManagerSettings) (quota : Quota) : Manager :=
  ⟨settings, .empty, .empty, .empty, false, quota⟩

/-- The number of keys that wait for a worker. -/
def queued (m : Manager) : Nat := m.queue.size

/-- Asks for a certificate; a newer request for the same secret replaces an older one. -/
def obtain (m : Manager) (r : Request) : Manager :=
  { m with requests := m.requests.insert r.key r, queue := m.queue.add r.key }

/-- Whether a key in flight has been released. -/
def isReleased (m : Manager) (key : String) : Bool := m.inFlight.find? key = some true

/-- Gives back the quota that a key holds. -/
def releaseQuota (m : Manager) (key : String) : Manager :=
  { m with quota := m.quota.release key }

/-- Withdraws the request for a secret. If a worker issues for it, the worker is told, and
gives the quota back itself. -/
def release (m : Manager) (secret : SecretRef) : Manager :=
  let key := secret.key
  let m := { m with requests := m.requests.erase key }
  if m.inFlight.has key then { m with inFlight := m.inFlight.insert key true }
  else m.releaseQuota key

end Manager

end IngressTls
