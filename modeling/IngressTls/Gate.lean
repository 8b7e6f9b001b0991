import IngressTls.NameSet

set_option autoImplicit false

/-! # The ready gate

Handlers wait behind a gate until every kind of resource has been listed once. Kinds are
registered before the gate is started; the gate opens when it has been started and every
registered kind has been marked as synced. It never closes again. Whoever waits for it
passes when it opens, and passes at once if it is open.
-/

namespace IngressTls

/-- The state of the gate. -/
inductive GateState where
  /-- Kinds are still being registered. -/
  | uninitialized
  /-- Some kind has not been listed yet. -/
  | syncing
  /-- The gate is open. -/
  | ready
  deriving DecidableEq, Repr

/-- The gate. -/
structure Gate where
  /-- Its state. -/
  state : GateState
  /-- The registered kinds that have not been listed. -/
  pending : NameSet
  /-- How many wait for the gate. -/
  waiting : Nat
  /-- How many have passed it. -/
  passed : Nat
  deriving DecidableEq

namespace Gate

/-- The gate before any kind is registered. -/
def new : Gate := ⟨.uninitialized, .empty, 0, 0⟩

instance : Inhabited Gate := ⟨new⟩

/-- Whether handlers may run. -/
def isReady (g : Gate) : Bool := g.state = .ready

/-- Registers a kind; once the gate is started this does nothing. -/
def register (g : Gate) (kind : String) : Gate :=
  if g.state = .uninitialized then { g with pending := g.pending.insert kind } else g

/-- Opens the gate; all who wait pass. -/
def unlock (g : Gate) : Gate :=
  { g with state := .ready, waiting := 0, passed := g.passed + g.waiting }

/-- Starts the gate, which opens at once if nothing is pending. -/
def start (g : Gate) : Gate :=
  if g.state = .uninitialized then
    if g.pending.isEmpty then g.unlock else { g with state := .syncing }
  else g

/-- Marks a kind as listed; the last one opens a gate that has been started. -/
def markSynced (g : Gate) (kind : String) : Gate :=
  if g.pending.has kind then
    let g := { g with pending := g.pending.erase kind }
    if g.pending.isEmpty && g.state = .syncing then g.unlock else g
  else g

/-- Somebody comes to the gate, and passes if it is open. -/
def arrive (g : Gate) : Gate :=
  if g.isReady then { g with passed := g.passed + 1 } else { g with waiting := g.waiting + 1 }

end Gate

end IngressTls
