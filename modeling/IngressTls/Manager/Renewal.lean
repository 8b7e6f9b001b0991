import IngressTls.Manager.Basic

set_option autoImplicit false

/-! # Renewal and restoring the quota

Two passes over the secrets that the controller owns. The renewal scan asks again for every
certificate with less validity left than a threshold. The restore, made once at the start,
admits the hosts of every existing secret into the quota, in the order of the listing, as
far as they fit.
-/

namespace IngressTls.Manager

/-- The whole seconds of the longest threshold that can be compared with the validity left. -/
def longestSeconds : Nat := 9223372036854775

/-- The nanoseconds that it has beyond them. -/
def longestNanos : Nat := 807000000

/-- The threshold of the renewal scan, in nanoseconds. -/
def renewalThreshold (m : Manager) : Except Error Int :=
  if m.settings.renewBefore < longestSeconds ∨
      m.settings.renewBefore = longestSeconds ∧ m.settings.renewBeforeNanos ≤ longestNanos then
    .ok m.settings.threshold
  else
    .error (.validation
      "renewal threshold out of range: Source duration value is out of range for the target type")

/-- The bookkeeping of a listed secret, if it is owned and due for renewal. -/
def due? (m : Manager) (threshold : Int) (now : Instant) (s : Secret) : Option Bookkeeping :=
  if s.metadata.isManagedBy m.settings.controllerName then
    match Bookkeeping.read s with
    | .error _ => none
    | .ok b => if b.notAfter.toNanos - now.toNanos < threshold then some b else none
  else none

/-- Asks again for every listed certificate that is due; the result is their number. -/
def renewListed (m : Manager) (threshold : Int) (now : Instant) (listing : List Secret) :
    Manager × Nat :=
  let due := listing.filterMap (m.due? threshold now)
  (due.foldl (fun m b => m.obtain b.toRequest) m, due.length)

/-- The renewal scan, once the secrets have been listed. -/
def afterRenewalListing (m : Manager) (threshold : Int) (now : Instant)
    (answer : Except Error (List Secret)) : Manager × Except Error Nat :=
  match answer with
  | .error e => (m, .error e)
  | .ok listing =>
    let (m, count) := m.renewListed threshold now listing
    (m, .ok count)

/-- Admits the hosts of one existing secret, if its bookkeeping is sound and they fit. -/
def admitListed (q : Quota) (s : Secret) : Quota :=
  match Bookkeeping.read s with
  | .error _ => q
  | .ok b =>
    match q.reserve b.secret.key b.domains.size with
    | .error _ => q
    | .ok q => q.commit b.secret.key

/-- Whether the quota for one existing secret can be computed. -/
def admitFits (q : Quota) (s : Secret) : Bool :=
  match Bookkeeping.read s with
  | .error _ => true
  | .ok b => q.reserveFits b.secret.key b.domains.size

/-- The secrets of a listing up to the first one whose quota cannot be computed. -/
def computable : Quota → List Secret → List Secret
  | _, [] => []
  | q, s :: rest => if admitFits q s then s :: computable (admitListed q s) rest else []

/-- The restore, once the secrets have been listed; a listing that fails admits nothing. -/
def afterRestoreListing (m : Manager) (answer : Except Error (List Secret)) : Manager :=
  match answer with
  | .error _ => m
  | .ok listing => { m with quota := listing.foldl admitListed m.quota }

/-- Says that the quota is restored. -/
def markRestored (m : Manager) : Manager := { m with restored := true }

end IngressTls.Manager
