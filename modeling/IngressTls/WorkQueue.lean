import IngressTls.Table

set_option autoImplicit false

/-! # The work queue

A queue of secret keys in which a key waits at most once. A key that is added while a
worker holds it becomes dirty and is queued again when the worker is done with it, so no
two workers ever hold one key and no request is lost.

Workers that find nothing to do wait on a `Bell`. A ring wakes the worker that has waited
longest; if nobody waits, one ring is remembered for the next that would wait. A woken
worker is not handed a key: it looks again, and finds one unless another worker was faster.
-/

namespace IngressTls

/-- A waiting worker that has been woken and has not looked again yet. -/
structure Wakeup where
  /-- The worker. -/
  taker : Nat
  /-- Whether a single ring woke it, and not the closing of the queue. -/
  byRing : Bool
  deriving DecidableEq, Repr

/-- The bell that workers wait on. -/
structure Bell where
  /-- A ring that nobody has heard yet. -/
  remembered : Bool
  /-- The workers that wait, the one that has waited longest first. -/
  waiting : List Nat
  /-- The workers that have been woken, in the order of their waking. -/
  woken : List Wakeup
  deriving DecidableEq, Repr

namespace Bell

/-- Nobody waits and nothing is remembered. -/
def quiet : Bell := ⟨false, [], []⟩

instance : Inhabited Bell := ⟨quiet⟩

/-- Wakes the worker that has waited longest, or remembers the ring. -/
def ring (b : Bell) : Bell :=
  match b.waiting with
  | [] => { b with remembered := true }
  | w :: ws => { b with waiting := ws, woken := b.woken ++ [⟨w, true⟩] }

/-- Wakes every worker that waits. -/
def ringAll (b : Bell) : Bell :=
  { b with waiting := [], woken := b.woken ++ b.waiting.map fun w => ⟨w, false⟩ }

/-- A worker starts to wait. A remembered ring is used up: it lets the worker look once
more, and here it has just looked. -/
def wait (b : Bell) (taker : Nat) : Bell :=
  { b with remembered := false, waiting := b.waiting ++ [taker] }

/-- A woken worker runs again. -/
def answer (b : Bell) (taker : Nat) : Bell :=
  { b with woken := b.woken.filter fun w => w.taker ≠ taker }

/-- A waiting or woken worker goes away. A ring that had woken it is passed on. -/
def leave (b : Bell) (taker : Nat) : Bell :=
  let passOn := b.woken.any fun w => w.taker = taker && w.byRing
  let left : Bell := { b.answer taker with waiting := b.waiting.filter (· ≠ taker) }
  if passOn then left.ring else left

end Bell

/-- What a worker gets when it looks for a key. -/
inductive Taken where
  /-- A key, which the worker now holds. -/
  | key (k : String)
  /-- The queue is shut down. -/
  | closed
  /-- Nothing is queued; the worker waits. -/
  | blocked
  deriving DecidableEq, Repr

/-- The state of the work queue. -/
structure WorkQueue where
  /-- The keys to hand out, the next one first. -/
  ready : List String
  /-- The keys that were added and not handed out since. -/
  dirty : List String
  /-- The keys that workers hold. -/
  held : List String
  /-- How often each key has been added again after a failure. -/
  failures : Table Nat
  /-- Whether the queue is shut down. -/
  closed : Bool
  /-- The bell that workers wait on. -/
  bell : Bell
  deriving Inhabited

namespace WorkQueue

/-- The queue without keys. -/
def empty : WorkQueue := ⟨[], [], [], Table.empty, false, .quiet⟩

/-- The number of keys to hand out. -/
def size (q : WorkQueue) : Nat := q.ready.length

/-- Adds a key. A key that is already dirty is not added twice, and one that a worker holds
is queued only once the worker is done with it. -/
def add (q : WorkQueue) (k : String) : WorkQueue :=
  if q.closed || q.dirty.contains k then q
  else if q.held.contains k then { q with dirty := k :: q.dirty }
  else { q with dirty := k :: q.dirty, ready := q.ready ++ [k], bell := q.bell.ring }

/-- A worker looks for a key, and waits if there is none. -/
def take (q : WorkQueue) (taker : Nat) : WorkQueue × Taken :=
  let q := { q with bell := q.bell.answer taker }
  if q.closed then (q, .closed)
  else
    match q.ready with
    | [] => ({ q with bell := q.bell.wait taker }, .blocked)
    | k :: rest =>
      ({ q with
          ready := rest
          dirty := q.dirty.erase k
          held := if q.held.contains k then q.held else k :: q.held
          bell := if rest.isEmpty then q.bell else q.bell.ring },
        .key k)

/-- A waiting worker goes away. -/
def leave (q : WorkQueue) (taker : Nat) : WorkQueue := { q with bell := q.bell.leave taker }

/-- A worker is done with a key, which is queued again if it has become dirty. -/
def done (q : WorkQueue) (k : String) : WorkQueue :=
  let q := { q with held := q.held.erase k }
  if q.dirty.contains k then { q with ready := q.ready ++ [k], bell := q.bell.ring } else q

/-- Counts one more failure of a key; the result is the count. -/
def fail (q : WorkQueue) (k : String) : WorkQueue × Nat :=
  let count := (q.failures.find? k).getD 0 + 1
  ({ q with failures := q.failures.insert k count }, count)

/-- How often a key has failed since it was last forgotten. -/
def failuresOf (q : WorkQueue) (k : String) : Nat := (q.failures.find? k).getD 0

/-- Forgets the failures of a key. -/
def forget (q : WorkQueue) (k : String) : WorkQueue :=
  { q with failures := q.failures.erase k }

/-- Shuts the queue down and wakes every waiting worker. -/
def close (q : WorkQueue) : WorkQueue := { q with closed := true, bell := q.bell.ringAll }

end WorkQueue

end IngressTls
