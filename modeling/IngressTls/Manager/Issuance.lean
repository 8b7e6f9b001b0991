import IngressTls.Manager.Basic

set_option autoImplicit false

/-! # Issuing a certificate

An issuance waits for four answers in turn: the secret as it stands, the certificate, the
outcome of the write and, if the secret was released during the write, the outcome of the
deletion that undoes it. Between two answers anything else may happen to the manager, so
each step is a function of the manager as it is when the answer arrives.

`afterRead`, `afterOrder`, `afterStore` and `afterWithdraw` are these steps; each says what
the issuance does next.
-/

namespace IngressTls

/-- What an issuance does next. -/
inductive Progress where
  /-- It asks the authority for the certificate. -/
  | order
  /-- It writes the secret. -/
  | store (secret : Secret)
  /-- It deletes the secret it has just written. -/
  | withdraw
  /-- It has ended. -/
  | ended (result : Except Error Unit)

namespace Manager

/-- Whether a secret that was found belongs to somebody else. -/
def isForeign (m : Manager) (existing : Option Secret) : Bool :=
  existing.any fun s => !s.metadata.isManagedBy m.settings.controllerName

/-- Refuses a secret of somebody else, then reserves quota for the hosts of the request. -/
def afterRead (m : Manager) (r : Request) (answer : Except Error (Option Secret)) :
    Manager × Progress :=
  match answer with
  | .error e => (m, .ended (.error e))
  | .ok existing =>
    if m.isForeign existing then (m, .ended (.error (.foreignSecret r.target)))
    else
      match m.quota.reserve r.key r.domains.size with
      | .error e => (m, .ended (.error (.quota e)))
      | .ok quota => ({ m with quota }, .order)

/-- Whether the quota for a request can be computed once the secret has been read. -/
def readFits (m : Manager) (r : Request) (answer : Except Error (Option Secret)) : Bool :=
  match answer with
  | .error _ => true
  | .ok existing => m.isForeign existing || m.quota.reserveFits r.key r.domains.size

/-- Drops the reservation of a request. -/
def rollback (m : Manager) (r : Request) : Manager := { m with quota := m.quota.rollback r.key }

/-- Writes the secret, unless the request was released meanwhile. -/
def afterOrder (m : Manager) (r : Request) (answer : Except AuthorityError Certificate) :
    Manager × Progress :=
  match answer with
  | .error e => (m.rollback r, .ended (.error (.authority e)))
  | .ok certificate =>
    if m.isReleased r.key then (m.rollback r, .ended (.ok ()))
    else (m, .store (managedSecret r certificate m.settings.controllerName))

/-- Commits the reservation, unless the request was released meanwhile: then what was
written is deleted again. The test and the commit are one step. -/
def afterStore (m : Manager) (r : Request) (answer : Except Error Unit) : Manager × Progress :=
  match answer with
  | .error e => (m.rollback r, .ended (.error e))
  | .ok () =>
    if m.isReleased r.key then (m.rollback r, .withdraw)
    else
      ({ m with inFlight := m.inFlight.erase r.key, quota := m.quota.commit r.key },
        .ended (.ok ()))

/-- A deletion that fails is not tried again. -/
def afterWithdraw (m : Manager) (_answer : Except Error Unit) : Manager × Progress :=
  (m, .ended (.ok ()))

end Manager

end IngressTls
