import IngressTls.Table
import IngressTls.Text.Integer

set_option autoImplicit false

/-! # Quota

A ceiling on the number of secured hosts. Each resource holds an acquired amount and, while
a transaction for it is open, a pending one. A transaction is opened by `reserve`, which
registers the pending amount if it fits, and is ended by `commit`, which lets the pending
amount replace the acquired one, or by `rollback`, which drops it.

An amount replaces what the resource already holds, so only the difference counts against
the ceiling. A ceiling of zero or less switches the quota off: nothing is admitted.

The admission test is made twice. `precheck` reads the state, `register` tests again and
writes, each as one step on its own; `reserve` is both without anything in between.

The operations are stated on unbounded integers. Who computes in 64 bits can do so as long as
`usedFits` and `reserveFits` hold, and has to break off where they do not.
-/

namespace IngressTls

/-- Why a transaction is refused. -/
inductive QuotaRefusal where
  /-- The ceiling is zero or negative. -/
  | disabled
  /-- The resource has an open transaction. -/
  | pending (resource : String)
  /-- The amount would overshoot the ceiling. -/
  | exceeded (resource : String) (requested inUse max : Int)
  deriving DecidableEq, Repr

/-- The wording of a refusal. -/
def QuotaRefusal.message : QuotaRefusal → String
  | disabled => "quota is disabled"
  | pending resource => s!"resource {resource} already has a pending transaction"
  | exceeded resource requested inUse max =>
    s!"quota exceeded for {resource}: requested {requested}, in use {inUse}, max {max}"

/-- The state of the quota. -/
structure Quota where
  /-- The ceiling. -/
  max : Int
  /-- The committed amounts; no entry means zero. -/
  acquired : Table Int
  /-- The amounts of the open transactions. -/
  pending : Table Int
  deriving Inhabited

namespace Quota

/-- The quota with nothing acquired and nothing pending. -/
def new (max : Int) : Quota := ⟨max, Table.empty, Table.empty⟩

/-- Whether the quota admits anything at all. -/
def enabled (q : Quota) : Bool := 0 < q.max

/-- The sum of all acquired amounts. -/
def used (q : Quota) : Int := q.acquired.total

/-- The sum of all acquired and all pending amounts. -/
def inUse (q : Quota) : Int := q.acquired.total + q.pending.total

/-- The amount a resource has acquired. -/
def acquiredBy (q : Quota) (resource : String) : Int := (q.acquired.find? resource).getD 0

/-- Tests whether an amount may replace what the resource holds. -/
def check (q : Quota) (resource : String) (amount : Int) : Except QuotaRefusal Unit :=
  if q.pending.has resource then .error (.pending resource)
  else if q.inUse + (amount - q.acquiredBy resource) > q.max then
    .error (.exceeded resource amount q.inUse q.max)
  else .ok ()

/-- The part of the admission test that only reads. An amount of zero needs no room and is
not tested here. -/
def precheck (q : Quota) (resource : String) (amount : Int) : Except QuotaRefusal Unit :=
  if !q.enabled then .error .disabled
  else if amount = 0 then .ok ()
  else if amount > q.max then .error (.exceeded resource amount q.inUse q.max)
  else q.check resource amount

/-- Tests again and makes the amount pending. -/
def register (q : Quota) (resource : String) (amount : Int) : Except QuotaRefusal Quota :=
  let opened : Quota := { q with pending := q.pending.insert resource amount }
  if amount = 0 then
    if q.pending.has resource then .error (.pending resource) else .ok opened
  else (q.check resource amount).map fun _ => opened

/-- Opens a transaction for a resource. -/
def reserve (q : Quota) (resource : String) (amount : Int) : Except QuotaRefusal Quota :=
  match q.precheck resource amount with
  | .error e => .error e
  | .ok () => q.register resource amount

/-- Whether a number fits into 64 bits. -/
def fits (n : Int) : Bool := Text.IntRange.int64.has n

/-- Whether amounts can be added to a sum one after the other in 64 bits. -/
def sumFits : Int → List Int → Bool
  | _, [] => true
  | sum, n :: ns => fits (sum + n) && sumFits (sum + n) ns

/-- Whether `used` can be computed in 64 bits. -/
def usedFits (q : Quota) : Bool := sumFits 0 q.acquired.values

/-- Whether `inUse` can be computed in 64 bits. -/
def inUseFits (q : Quota) : Bool :=
  q.usedFits && sumFits 0 q.pending.values && fits q.inUse

/-- Whether `check` can be computed in 64 bits; a pending amount settles it without a sum. -/
def checkFits (q : Quota) (resource : String) (amount : Int) : Bool :=
  let change := amount - q.acquiredBy resource
  q.pending.has resource || (q.inUseFits && fits change && fits (q.inUse + change))

/-- Whether `reserve` can be computed in 64 bits. -/
def reserveFits (q : Quota) (resource : String) (amount : Int) : Bool :=
  if !q.enabled || amount = 0 then true
  else if amount > q.max then q.inUseFits
  else q.checkFits resource amount

/-- What is in use, if it can be computed in 64 bits. -/
def used? (q : Quota) : Option Int := if q.usedFits then some q.used else none

/-- Lets the pending amount of a resource replace its acquired one. -/
def commit (q : Quota) (resource : String) : Quota :=
  match q.pending.find? resource with
  | none => q
  | some amount =>
    { q with
      pending := q.pending.erase resource
      acquired :=
        if amount = 0 then q.acquired.erase resource else q.acquired.insert resource amount }

/-- Drops the pending amount of a resource. -/
def rollback (q : Quota) (resource : String) : Quota :=
  { q with pending := q.pending.erase resource }

/-- Gives back all that a resource has acquired, unless a transaction is open for it. -/
def release (q : Quota) (resource : String) : Quota :=
  match q.reserve resource 0 with
  | .ok q => q.commit resource
  | .error _ => q

end Quota

/-- The handle of a transaction. The first commit or rollback through it takes effect;
later ones do nothing. -/
structure Transaction where
  /-- The resource that the transaction reserves for. -/
  resource : String
  /-- Whether it has been committed or rolled back. -/
  finalized : Bool
  deriving DecidableEq, Repr

namespace Transaction

/-- Opens a transaction. -/
def start (q : Quota) (resource : String) (amount : Int) :
    Except QuotaRefusal (Quota × Transaction) :=
  (q.reserve resource amount).map fun q => (q, ⟨resource, false⟩)

/-- Commits through the handle. -/
def commit (t : Transaction) (q : Quota) : Quota × Transaction :=
  if t.finalized then (q, t) else (q.commit t.resource, { t with finalized := true })

/-- Rolls back through the handle. -/
def rollback (t : Transaction) (q : Quota) : Quota × Transaction :=
  if t.finalized then (q, t) else (q.rollback t.resource, { t with finalized := true })

/-- Drops the handle, which rolls back a transaction that is still open. -/
def drop (t : Transaction) (q : Quota) : Quota := (t.rollback q).1

end Transaction

end IngressTls
