import IngressTls.Backoff
import IngressTls.Rehearsal.Agenda
import IngressTls.WorkQueue

set_option autoImplicit false

/-! # The work queue under a virtual clock

A work queue with delayed additions and named waiters. After every step all that can
happen without the clock moving has happened: additions without delay are made, and every
woken waiter has looked for a key again. All additions of one instant are made before a
woken waiter looks.
-/

namespace IngressTls.Rehearsal

/-- A waiter: its name, and what it got. -/
structure Waiter where
  /-- The name. -/
  name : String
  /-- What it got; `blocked` while it waits. -/
  got : Taken

/-- A work queue with delayed additions and waiters. -/
structure QueueStage where
  /-- The queue. -/
  queue : WorkQueue
  /-- The keys to be added later. -/
  agenda : Agenda String
  /-- The waiters; a waiter is known to the queue by its place in this list. -/
  waiters : List Waiter
  deriving Inhabited

/-- What is done to the queue. -/
inductive QueueStep where
  | add (key : String)
  | done (key : String)
  | forget (key : String)
  | addRateLimited (key : String)
  | addAfter (key : String) (ms : Nat)
  | numRequeues (key : String)
  | get
  | wait (name : String)
  | advance (ms : Nat)
  | shutdown

/-- What a step answers. -/
inductive QueueAnswer where
  /-- Nothing. -/
  | done
  /-- A count. -/
  | count (n : Nat)
  /-- What a worker got. -/
  | got (taken : Taken)

namespace QueueStage

/-- An empty queue. -/
def start : QueueStage := ⟨.empty, .start, []⟩

/-- The woken waiters look for a key again, one after the other. -/
def wake : (fuel : Nat) → QueueStage → QueueStage
  | 0, s => s
  | fuel + 1, s =>
    match s.queue.bell.woken with
    | [] => s
    | w :: _ =>
      let (queue, taken) := s.queue.take w.taker
      let waiters := s.waiters.modify w.taker fun v => { v with got := taken }
      wake fuel { s with queue, waiters }

/-- All that can happen now happens: every woken waiter looks again. Each waiter leaves or
waits again, so there are at most as many turns as waiters and keys. -/
def settle (s : QueueStage) : QueueStage :=
  s.wake (2 * (s.waiters.length + s.queue.ready.length) + 2)

/-- Makes the additions that are due by an instant; `fuel` bounds the number of instants. -/
def runTo (limit : Nat) : (fuel : Nat) → QueueStage → QueueStage
  | 0, s => s
  | fuel + 1, s =>
    match s.agenda.next? limit with
    | none => s
    | some (keys, agenda) =>
      runTo limit fuel { s with agenda, queue := keys.foldl WorkQueue.add s.queue }.settle

/-- Makes the additions that are due by an instant. -/
def catchUp (s : QueueStage) (limit : Nat) : QueueStage :=
  s.settle.runTo limit (s.agenda.noted.length + 1)

/-- The delay before a failed key is added again, in milliseconds. -/
def requeueDelay (count : Nat) : Nat := ((Backoff.requeue 10).delay? count).getD 0 / 1000000

/-- One step, before what follows from it. -/
def act (s : QueueStage) : QueueStep → QueueStage × QueueAnswer
  | .add k => ({ s with queue := s.queue.add k }, .done)
  | .done k => ({ s with queue := s.queue.done k }, .done)
  | .forget k => ({ s with queue := s.queue.forget k }, .done)
  | .addRateLimited k =>
    let (queue, count) := s.queue.fail k
    ({ s with queue, agenda := s.agenda.note (requeueDelay count) k }, .done)
  | .addAfter k ms => ({ s with agenda := s.agenda.note ms k }, .done)
  | .numRequeues k => (s, .count (s.queue.failuresOf k))
  | .get =>
    let passer := s.waiters.length
    let (queue, taken) := s.queue.take passer
    ({ s with queue := queue.leave passer }, .got taken)
  | .wait name =>
    let (queue, taken) := s.queue.take s.waiters.length
    ({ s with queue, waiters := s.waiters ++ [⟨name, taken⟩] }, .done)
  | .advance ms =>
    let target := s.agenda.now + ms
    let s := s.catchUp target
    ({ s with agenda := { s.agenda with now := target } }, .done)
  | .shutdown => ({ s with queue := s.queue.close }, .done)

/-- One step and all that follows from it now. -/
def step (s : QueueStage) (q : QueueStep) : QueueStage × QueueAnswer :=
  let (s, answer) := s.act q
  (s.catchUp s.agenda.now, answer)

end QueueStage

end IngressTls.Rehearsal
