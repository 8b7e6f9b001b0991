import IngressTls.Proofs.WorkQueue.Bell

set_option autoImplicit false

/-! # Wake-ups at the work queue

A call to the work queue is not one step. It changes the keys under the lock of the queue and rings
the bell after it has let go of the lock, and everybody else may get in between. A call that gets a
key goes round in a loop: it begins to listen to the bell, then it looks for a key under the lock,
and if there is none it waits. It may find at once that it need not wait. A remembered ring is used
up by that, and the closing of the queue reaches all who have been listening before it. A call that
waits can be given up. A `QueueInUse` is the queue with the calls that get keys, the rings that
other calls still have to give, and the shutdowns that have not woken everybody yet.

The keys are changed by the operations of the queue itself, and a call that nobody interrupts does
what its operation does to keys and bell together (`add_uninterrupted`, `done_uninterrupted`,
`close_uninterrupted`, `get_uninterrupted` and `rise_uninterrupted`).

If there are keys to hand out, then a ring is due or remembered, or some call has been woken and
has not looked since. Each step keeps this up, so no wake-up is lost.

Main statements: `Sound.step` and `no_wakeup_lost`.
-/

namespace IngressTls

/-- Where a call that gets a key stands. -/
inductive GetStage where
  /-- It is about to listen to the bell; perhaps it has just been woken. -/
  | rising (woken : Bool)
  /-- It listens, and is about to look for a key. The queue had been closed `since` times when it
  began to listen. -/
  | listening (woken : Bool) (since : Nat)
  /-- It has found no key, and is about to wait. -/
  | emptyHanded (since : Nat)
  /-- It stands at the bell. -/
  | standing
  /-- It has been handed a key, or told that the queue is shut down. -/
  | ended (taken : Taken)
  /-- It was given up while it waited. -/
  | gone
  deriving DecidableEq

namespace GetStage

/-- Whether it has been woken and is still going to look for a key. -/
def isWoken : GetStage → Bool
  | .rising woken => woken
  | .listening woken _ => woken
  | _ => false

/-- It has heard of no more closings than there were, and it was sent to wait before the first. -/
def Knows (closings : Nat) : GetStage → Prop
  | .listening _ since => since ≤ closings
  | .emptyHanded since => since = 0
  | _ => True

theorem Knows.mono {m n : Nat} {stage : GetStage} (h : stage.Knows m) (hmn : m ≤ n) :
    stage.Knows n := by
  cases stage with
  | listening woken since => exact Nat.le_trans h hmn
  | _ => exact h

/-- Where it stands when it has looked and waits if it found nothing. -/
def afterTurn : Taken → GetStage
  | .blocked => .standing
  | taken => .ended taken

end GetStage

/-- A work queue with the calls to it that are under way. -/
structure QueueInUse where
  /-- The queue. -/
  queue : WorkQueue
  /-- The calls that get keys; a call is known to the bell by its place in this list. -/
  gets : List GetStage
  /-- How many calls have to ring the bell before they are finished. -/
  owed : Nat
  /-- How many shutdowns have not woken everybody yet. -/
  closing : Nat
  /-- How many shutdowns have woken everybody. -/
  closings : Nat

/-- What happens at a work queue that is in use. -/
inductive QueueMove where
  /-- A call adds a key, under the lock. -/
  | add (key : String)
  /-- A call gives back a key, under the lock. -/
  | done (key : String)
  /-- A call shuts the queue down, under the lock. -/
  | close
  /-- A call that has to ring the bell rings it. -/
  | ring
  /-- A call that has shut the queue down wakes everybody. -/
  | ringAll
  /-- Somebody calls for a key. -/
  | arrive
  /-- A call that gets a key begins to listen to the bell. -/
  | listen (get : Nat)
  /-- It looks for a key, under the lock. -/
  | look (get : Nat)
  /-- It has found nothing, and waits unless it need not. -/
  | wait (get : Nat)
  /-- It has been woken and goes on. -/
  | rise (get : Nat)
  /-- It is given up while it waits. -/
  | abandon (get : Nat)

namespace QueueInUse

/-- The queue without keys and calls. -/
def start : QueueInUse := ⟨.empty, [], 0, 0, 0⟩

/-- The keys are changed, and the bell is not rung yet. -/
def withKeys (s : QueueInUse) (q : WorkQueue) : QueueInUse :=
  { s with queue := { q with bell := s.queue.bell } }

/-- The bell is changed. -/
def withBell (s : QueueInUse) (b : Bell) : QueueInUse :=
  { s with queue := { s.queue with bell := b } }

/-- A call that gets a key moves on. -/
def put (s : QueueInUse) (i : Nat) (stage : GetStage) : QueueInUse :=
  { s with gets := s.gets.set i stage }

/-- The keys are changed; if there is one more to hand out, a ring is due. -/
def brings (s : QueueInUse) (q : WorkQueue) : QueueInUse :=
  { s.withKeys q with
    owed := if s.queue.ready.length < q.ready.length then s.owed + 1 else s.owed }

/-- A call that listens looks for a key. If it is handed one and leaves others, a ring is due. -/
def look (s : QueueInUse) (i since : Nat) : QueueInUse :=
  match s.queue.take i with
  | (q, .key k) =>
    { (s.withKeys q).put i (.ended (.key k)) with
      owed := if q.ready.isEmpty then s.owed else s.owed + 1 }
  | (q, .closed) => (s.withKeys q).put i (.ended .closed)
  | (q, .blocked) => (s.withKeys q).put i (.emptyHanded since)

/-- A call that has found nothing waits. It need not if a ring is remembered, or if the queue has
been closed since it began to listen. -/
def wait (s : QueueInUse) (i since : Nat) : QueueInUse :=
  if s.queue.bell.remembered then
    (s.withBell { s.queue.bell with remembered := false }).put i (.rising true)
  else if since < s.closings then s.put i (.rising true)
  else (s.withBell (s.queue.bell.wait i)).put i .standing

/-- What a move does, if it can happen. -/
def step? (s : QueueInUse) : QueueMove → Option QueueInUse
  | .add k => some (s.brings (s.queue.add k))
  | .done k => some (s.brings (s.queue.done k))
  | .close => some { s.withKeys s.queue.close with closing := s.closing + 1 }
  | .ring =>
    if 0 < s.owed then some { s.withBell s.queue.bell.ring with owed := s.owed - 1 } else none
  | .ringAll =>
    if 0 < s.closing then
      some { s.withBell s.queue.bell.ringAll with
        closing := s.closing - 1, closings := s.closings + 1 }
    else none
  | .arrive => some { s with gets := s.gets ++ [.rising false] }
  | .listen i =>
    match s.gets[i]? with
    | some (.rising woken) => some (s.put i (.listening woken s.closings))
    | _ => none
  | .look i =>
    match s.gets[i]? with
    | some (.listening _ since) => some (s.look i since)
    | _ => none
  | .wait i =>
    match s.gets[i]? with
    | some (.emptyHanded since) => some (s.wait i since)
    | _ => none
  | .rise i =>
    if s.gets[i]? = some .standing ∧ i ∈ s.queue.bell.called then
      some ((s.withBell (s.queue.bell.answer i)).put i (.rising true))
    else none
  | .abandon i =>
    if s.gets[i]? = some .standing then
      some ((s.withBell (s.queue.bell.leave i)).put i .gone)
    else none

/-- Moves happen one after the other. -/
def run? (s : QueueInUse) : List QueueMove → Option QueueInUse
  | [] => some s
  | e :: es => (s.step? e).bind fun s' => s'.run? es

/-- A call that gets a key stands at the bell and has not been woken. -/
def IsBlocked (s : QueueInUse) (i : Nat) : Prop :=
  s.gets[i]? = some .standing ∧ i ∉ s.queue.bell.called

/-- A call that gets a key has been woken, and has not looked for a key since. -/
def IsWoken (s : QueueInUse) (i : Nat) : Prop :=
  s.gets[i]? = some .standing ∧ i ∈ s.queue.bell.called ∨
    ∃ stage, s.gets[i]? = some stage ∧ stage.isWoken = true

variable {s s' : QueueInUse} {i : Nat}

/-! ## Calls that nobody interrupts -/

/-- A list of which one place is changed. -/
theorem getElem?_put {gets : List GetStage} {stage : GetStage} (h : gets[i]? = some stage)
    (stage' : GetStage) (j : Nat) :
    (gets.set i stage')[j]? = if j = i then some stage' else gets[j]? := by
  obtain ⟨hi, -⟩ := List.getElem?_eq_some_iff.1 h
  rw [List.getElem?_set]
  by_cases hj : i = j
  · rw [if_pos hj, if_pos hj.symm, if_pos (hj ▸ hi)]
  · rw [if_neg hj, if_neg (Ne.symm hj)]

theorem get_put {stage : GetStage} (h : s.gets[i]? = some stage) (stage' : GetStage) :
    (s.put i stage').gets[i]? = some stage' :=
  (getElem?_put h stage' i).trans (if_pos rfl)

theorem run?_cons {e : QueueMove} (h : s.step? e = some s') (es : List QueueMove) :
    s.run? (e :: es) = s'.run? es := by
  rw [run?, h]
  rfl

/-- A change of the keys leaves the keys to hand out and the bell alone, or there is one more of
them and the bell rings. -/
def Rings (q q' : WorkQueue) : Prop :=
  q'.ready = q.ready ∧ q'.bell = q.bell ∨ (∃ k, q'.ready = q.ready ++ [k]) ∧ q'.bell = q.bell.ring

theorem rings_add (q : WorkQueue) (k : String) : Rings q (q.add k) := by
  rw [WorkQueue.add]
  split
  · exact Or.inl ⟨rfl, rfl⟩
  · split
    · exact Or.inl ⟨rfl, rfl⟩
    · exact Or.inr ⟨⟨k, rfl⟩, rfl⟩

theorem rings_done (q : WorkQueue) (k : String) : Rings q (q.done k) := by
  simp only [WorkQueue.done]
  split
  · exact Or.inr ⟨⟨k, rfl⟩, rfl⟩
  · exact Or.inl ⟨rfl, rfl⟩

/-- Who rings the bell right after the change of the keys has done both at once. -/
theorem run_brings {q : WorkQueue} (h : Rings s.queue q) :
    ∃ es, (∀ e ∈ es, e = .ring) ∧ (s.brings q).run? es = some { s with queue := q } := by
  rcases h with ⟨hready, hbell⟩ | ⟨⟨k, hready⟩, hbell⟩
  · refine ⟨[], by simp, ?_⟩
    have hkeys : s.withKeys q = { s with queue := q } := by rw [withKeys, ← hbell]
    have hnot : ¬ s.queue.ready.length < q.ready.length := by simp [hready]
    rw [run?, brings, hkeys, if_neg hnot]
  · refine ⟨[.ring], by simp, ?_⟩
    have hlt : s.queue.ready.length < q.ready.length := by simp [hready]
    simp only [run?, step?, brings, withKeys, withBell, if_pos hlt, Nat.add_one_pos, if_true,
      Option.bind_some, ← hbell, Nat.add_sub_cancel]

theorem add_uninterrupted (s : QueueInUse) (k : String) :
    ∃ es, (∀ e ∈ es, e = .ring) ∧
      s.run? (.add k :: es) = some { s with queue := s.queue.add k } := by
  obtain ⟨es, hes, hrun⟩ := run_brings (rings_add s.queue k)
  exact ⟨es, hes, (run?_cons rfl es).trans hrun⟩

theorem done_uninterrupted (s : QueueInUse) (k : String) :
    ∃ es, (∀ e ∈ es, e = .ring) ∧
      s.run? (.done k :: es) = some { s with queue := s.queue.done k } := by
  obtain ⟨es, hes, hrun⟩ := run_brings (rings_done s.queue k)
  exact ⟨es, hes, (run?_cons rfl es).trans hrun⟩

theorem close_uninterrupted (s : QueueInUse) :
    s.run? [.close, .ringAll] =
      some { s with queue := s.queue.close, closings := s.closings + 1 } := by
  simp [run?, step?, withKeys, withBell, WorkQueue.close]

theorem take_closed {q : WorkQueue} (hnot : i ∉ q.bell.called) (hclosed : q.closed = true) :
    q.take i = (q, .closed) := by
  rw [WorkQueue.take, Bell.answer_of_not_mem hnot]
  exact if_pos hclosed

theorem take_blocked {q : WorkQueue} (hnot : i ∉ q.bell.called) (hopen : q.closed = false)
    (hready : q.ready = []) : q.take i = ({ q with bell := q.bell.wait i }, .blocked) := by
  obtain ⟨ready, dirty, held, failures, closed, bell⟩ := q
  cases hopen
  cases hready
  simp [WorkQueue.take, Bell.answer_of_not_mem hnot]

theorem take_key {q : WorkQueue} {k : String} {rest : List String} (hnot : i ∉ q.bell.called)
    (hopen : q.closed = false) (hready : q.ready = k :: rest) :
    q.take i =
      ({ q with
          ready := rest
          dirty := q.dirty.erase k
          held := if q.held.contains k then q.held else k :: q.held
          bell := if rest.isEmpty then q.bell else q.bell.ring },
        .key k) := by
  obtain ⟨ready, dirty, held, failures, closed, bell⟩ := q
  cases hopen
  cases hready
  simp [WorkQueue.take, Bell.answer_of_not_mem hnot]

/-- A call that gets a key begins to listen and looks. -/
theorem run_look {woken : Bool} (hi : s.gets[i]? = some (.rising woken)) (es : List QueueMove) :
    s.run? (.listen i :: .look i :: es) =
      ((s.put i (.listening woken s.closings)).look i s.closings).run? es := by
  have hlisten : s.step? (.listen i) = some (s.put i (.listening woken s.closings)) := by
    rw [step?, hi]
  have hlook : (s.put i (.listening woken s.closings)).step? (.look i) =
      some ((s.put i (.listening woken s.closings)).look i s.closings) := by
    rw [step?, get_put hi]
  rw [run?_cons hlisten, run?_cons hlook]

/-- It finds nothing, and is about to wait. -/
theorem run_emptyHanded {woken : Bool} (hi : s.gets[i]? = some (.rising woken))
    (hnot : i ∉ s.queue.bell.called) (hopen : s.queue.closed = false)
    (hready : s.queue.ready = []) (es : List QueueMove) :
    s.run? (.listen i :: .look i :: .wait i :: es) =
      ((s.put i (.emptyHanded s.closings)).wait i s.closings).run? es := by
  have hlook : (s.put i (.listening woken s.closings)).look i s.closings =
      s.put i (.emptyHanded s.closings) := by
    simp only [look, put, take_blocked hnot hopen hready, withKeys, List.set_set]
  have hwait : (s.put i (.emptyHanded s.closings)).step? (.wait i) =
      some ((s.put i (.emptyHanded s.closings)).wait i s.closings) := by
    rw [step?, get_put hi]
  rw [run_look hi, hlook, run?_cons hwait]

/-- Without a remembered ring it waits. -/
theorem run_wait {woken : Bool} (hi : s.gets[i]? = some (.rising woken))
    (hnot : i ∉ s.queue.bell.called) (hopen : s.queue.closed = false)
    (hready : s.queue.ready = []) (hquiet : s.queue.bell.remembered = false) :
    s.run? [.listen i, .look i, .wait i] =
      some ((s.withBell (s.queue.bell.wait i)).put i .standing) := by
  rw [run_emptyHanded hi hnot hopen hready, run?]
  simp [wait, put, withBell, hquiet]

/-- It uses up a remembered ring, looks again, and waits. -/
theorem run_wait_twice {woken : Bool} (hi : s.gets[i]? = some (.rising woken))
    (hnot : i ∉ s.queue.bell.called) (hopen : s.queue.closed = false)
    (hready : s.queue.ready = []) (hring : s.queue.bell.remembered = true) :
    s.run? [.listen i, .look i, .wait i, .listen i, .look i, .wait i] =
      some ((s.withBell (s.queue.bell.wait i)).put i .standing) := by
  have hwait : (s.put i (.emptyHanded s.closings)).wait i s.closings =
      (s.withBell { s.queue.bell with remembered := false }).put i (.rising true) := by
    simp [wait, put, withBell, hring]
  have hrising := get_put (s := s.withBell { s.queue.bell with remembered := false }) hi
    (.rising true)
  rw [run_emptyHanded hi hnot hopen hready, hwait, run_wait hrising hnot hopen hready rfl]
  simp [put, withBell, Bell.wait]

/-- It is handed a key, and rings the bell if there are others. -/
theorem run_key {woken : Bool} {k : String} {rest : List String}
    (hi : s.gets[i]? = some (.rising woken)) (hnot : i ∉ s.queue.bell.called)
    (hopen : s.queue.closed = false) (hready : s.queue.ready = k :: rest) :
    ∃ es, (∀ e ∈ es, e = .ring) ∧ s.run? (.listen i :: .look i :: es) =
      some (({ s with queue := (s.queue.take i).1 } : QueueInUse).put i (.ended (.key k))) := by
  rw [take_key hnot hopen hready]
  cases hrest : rest.isEmpty with
  | true =>
      refine ⟨[], by simp, ?_⟩
      rw [run_look hi, run?]
      simp [look, put, take_key hnot hopen hready, withKeys, hrest]
  | false =>
      refine ⟨[.ring], by simp, ?_⟩
      rw [run_look hi]
      simp [run?, step?, look, put, take_key hnot hopen hready, withKeys, withBell, hrest]

/-- A call that gets a key does what the queue does, unless it is interrupted. -/
theorem get_uninterrupted {woken : Bool} (hi : s.gets[i]? = some (.rising woken))
    (hnot : i ∉ s.queue.bell.called) :
    ∃ es, s.run? es = some
      (({ s with queue := (s.queue.take i).1 } : QueueInUse).put i
        (.afterTurn (s.queue.take i).2)) := by
  cases hclosed : s.queue.closed with
  | true =>
      refine ⟨[.listen i, .look i], ?_⟩
      rw [run_look hi, take_closed hnot hclosed, run?]
      simp [look, put, take_closed hnot hclosed, withKeys, GetStage.afterTurn]
  | false =>
      cases hready : s.queue.ready with
      | nil =>
          rw [take_blocked hnot hclosed hready]
          cases hquiet : s.queue.bell.remembered with
          | false => exact ⟨_, run_wait hi hnot hclosed hready hquiet⟩
          | true => exact ⟨_, run_wait_twice hi hnot hclosed hready hquiet⟩
      | cons k rest =>
          obtain ⟨es, -, hrun⟩ := run_key hi hnot hclosed hready
          rw [take_key hnot hclosed hready] at hrun ⊢
          exact ⟨_, hrun⟩

theorem rise_uninterrupted (hi : s.gets[i]? = some .standing) (hcalled : i ∈ s.queue.bell.called) :
    ∃ es, s.run? (.rise i :: es) = some
      (({ s with queue := (s.queue.take i).1 } : QueueInUse).put i
        (.afterTurn (s.queue.take i).2)) := by
  have hrise : s.step? (.rise i) =
      some ((s.withBell (s.queue.bell.answer i)).put i (.rising true)) := by
    rw [step?, if_pos ⟨hi, hcalled⟩]
  have hnot : i ∉ (s.queue.bell.answer i).called := by
    rw [Bell.called_answer, List.mem_filter]
    simp
  have htake : WorkQueue.take { s.queue with bell := s.queue.bell.answer i } i =
      s.queue.take i := by
    rw [WorkQueue.take, Bell.answer_answer]
    rfl
  obtain ⟨es, hrun⟩ :=
    get_uninterrupted (s := (s.withBell (s.queue.bell.answer i)).put i (.rising true))
      (get_put hi _) hnot
  refine ⟨es, ?_⟩
  rw [run?_cons hrise, hrun]
  simp only [put, withBell, htake, List.set_set]

/-! ## A call moves on -/

/-- Some call that gets a key has been woken, has gone on, and has not looked since. -/
def Running (gets : List GetStage) : Prop :=
  ∃ (i : Nat) (stage : GetStage), gets[i]? = some stage ∧ stage.isWoken = true

section Put

variable {gets : List GetStage} {a b : GetStage} {n j : Nat}

theorem Running.put (h : Running gets) (hi : gets[i]? = some a)
    (hkeep : a.isWoken = true → b.isWoken = true) : Running (gets.set i b) := by
  obtain ⟨j, stage, hj, hwoken⟩ := h
  by_cases heq : j = i
  · rw [heq, hi, Option.some.injEq] at hj
    exact ⟨i, b, (getElem?_put hi b i).trans (if_pos rfl), hkeep (hj ▸ hwoken)⟩
  · exact ⟨j, stage, ((getElem?_put hi b j).trans (if_neg heq)).trans hj, hwoken⟩

theorem running_put (hi : gets[i]? = some a) (hb : b.isWoken = true) : Running (gets.set i b) :=
  ⟨i, b, (getElem?_put hi b i).trans (if_pos rfl), hb⟩

theorem knows_put (h : ∀ (j : Nat) (stage : GetStage), gets[j]? = some stage → stage.Knows n)
    (hi : gets[i]? = some a) (hb : b.Knows n) :
    ∀ (j : Nat) (stage : GetStage), (gets.set i b)[j]? = some stage → stage.Knows n := by
  intro j stage hj
  rw [getElem?_put hi] at hj
  split at hj
  · cases hj
    exact hb
  · exact h j stage hj

/-- A call that does not stand at the bell afterwards. -/
theorem standing_put (hi : gets[i]? = some a) (hb : b ≠ .standing) :
    (gets.set i b)[j]? = some .standing ↔ gets[j]? = some .standing ∧ j ≠ i := by
  rw [getElem?_put hi]
  split
  · next heq => simp [hb, heq]
  · next hne => simp [hne]

/-- A call that stood there neither before nor afterwards. -/
theorem standing_put_other (hi : gets[i]? = some a) (ha : a ≠ .standing) (hb : b ≠ .standing) :
    (gets.set i b)[j]? = some .standing ↔ gets[j]? = some .standing := by
  rw [standing_put hi hb, and_iff_left_iff_imp]
  rintro hj rfl
  rw [hi, Option.some.injEq] at hj
  exact ha hj

theorem standing_put_standing (hi : gets[i]? = some a) :
    (gets.set i .standing)[j]? = some .standing ↔ j = i ∨ gets[j]? = some .standing := by
  rw [getElem?_put hi]
  split
  · next heq => simp [heq]
  · next hne => simp [hne]

/-- A new call. -/
theorem getElem?_arrive : (gets ++ [a])[j]? = some b ↔
    gets[j]? = some b ∨ j = gets.length ∧ a = b := by
  rw [List.getElem?_append]
  split
  · next hlt => simp [Nat.ne_of_lt hlt]
  · next hge =>
      have hnone : gets[j]? = none := List.getElem?_eq_none (Nat.le_of_not_lt hge)
      rw [hnone, List.getElem?_singleton]
      split
      · next heq => simp [show j = gets.length by omega]
      · next hne => simp [show j ≠ gets.length by omega]

end Put

/-! ## No key without somebody to take it -/

/-- A ring is due or remembered, or somebody has been woken and has not looked since. -/
def Alerted (s : QueueInUse) : Prop := 0 < s.owed ∨ s.queue.bell.Alert ∨ Running s.gets

/-- What holds of every queue in use. -/
structure Sound (s : QueueInUse) : Prop where
  /-- The calls that stand at the bell are known there. -/
  attends : s.queue.bell.Attends fun i => s.gets[i]? = some .standing
  /-- If there are keys, somebody looks for one or is going to be woken. -/
  alerted : s.queue.closed = false → s.queue.ready ≠ [] → s.Alerted
  /-- The queue is shut down by the first shutdown. -/
  closed : s.queue.closed = true ↔ 0 < s.closing ∨ 0 < s.closings
  /-- Since a shutdown has woken everybody, nobody waits. -/
  reached : 0 < s.closings → s.queue.bell.waiting = []
  /-- What the calls know about the shutdowns. -/
  knows : ∀ (i : Nat) (stage : GetStage), s.gets[i]? = some stage → stage.Knows s.closings

namespace Sound

theorem start : QueueInUse.start.Sound where
  attends := .quiet fun i => by simp [QueueInUse.start]
  alerted _ hready := absurd rfl hready
  closed := by simp [QueueInUse.start, WorkQueue.empty]
  reached h := absurd h (Nat.lt_irrefl 0)
  knows i stage h := by simp [QueueInUse.start] at h

/-- A call moves on away from the bell. If it had been woken, it still looks for a key, or that is
no use. -/
theorem put (h : s.Sound) {a b : GetStage} (hi : s.gets[i]? = some a) (ha : a ≠ .standing)
    (hb : b ≠ .standing) (hknows : b.Knows s.closings)
    (hkeep : s.queue.closed = false → s.queue.ready ≠ [] → a.isWoken = true → b.isWoken = true) :
    (s.put i b).Sound where
  attends := h.attends.congr fun j => standing_put_other hi ha hb
  alerted hopen hready := by
    rcases h.alerted hopen hready with howed | hbell | hrunning
    · exact Or.inl howed
    · exact Or.inr (Or.inl hbell)
    · exact Or.inr (Or.inr (hrunning.put hi (hkeep hopen hready)))
  closed := h.closed
  reached := h.reached
  knows := knows_put h.knows hi hknows

/-- A call adds a key or gives one back. -/
theorem brings (h : s.Sound) {q : WorkQueue} (hq : Rings s.queue q)
    (hclosed : q.closed = s.queue.closed) : (s.brings q).Sound where
  attends := h.attends
  alerted := by
    intro hopen hready
    rcases hq with ⟨hsame, -⟩ | ⟨⟨k, hmore⟩, -⟩
    · have hnot : ¬ s.queue.ready.length < q.ready.length := by simp [hsame]
      have howed : (s.brings q).owed = s.owed := if_neg hnot
      have halerted := h.alerted (hclosed.symm.trans hopen) fun hnil => hready (hsame.trans hnil)
      rw [Alerted, howed]
      exact halerted
    · have hlt : s.queue.ready.length < q.ready.length := by simp [hmore]
      have howed : (s.brings q).owed = s.owed + 1 := if_pos hlt
      exact Or.inl (howed ▸ Nat.succ_pos _)
  closed := by
    rw [show (s.brings q).queue.closed = s.queue.closed from hclosed]
    exact h.closed
  reached := h.reached
  knows := h.knows

/-- A call that listens looks for a key. -/
theorem look (h : s.Sound) {woken : Bool} {since : Nat}
    (hi : s.gets[i]? = some (.listening woken since)) : (s.look i since).Sound := by
  have hsince : since ≤ s.closings := h.knows i _ hi
  rcases htake : s.queue.take i with ⟨q, taken⟩
  rw [QueueInUse.look, htake]
  rcases WorkQueue.take_cases htake with
    ⟨rfl, hclosed, rfl⟩ | ⟨rfl, hopen, hready, rfl⟩ | ⟨k, rest, bell, rfl, hopen, hready, rfl⟩
  · exact h.put hi (by simp) (by simp) trivial fun hopen =>
      absurd (hclosed.symm.trans hopen) (by simp)
  · -- the queue has never been closed
    have hnever : s.closings = 0 := by
      by_contra hne
      have hclosed := h.closed.2 (Or.inr (Nat.pos_of_ne_zero hne))
      exact absurd (hopen.symm.trans hclosed) (by simp)
    refine h.put hi (by simp) (by simp) ?_ fun _ hne => absurd hready hne
    exact Nat.eq_zero_of_le_zero (hnever ▸ hsince)
  · dsimp only
    exact {
      attends := h.attends.congr fun j => standing_put_other hi (by simp) (by simp)
      alerted := fun _ hrest => by
        have howed : (if rest.isEmpty then s.owed else s.owed + 1) = s.owed + 1 :=
          if_neg fun hempty => hrest (List.isEmpty_iff.1 hempty)
        exact Or.inl (howed.symm ▸ Nat.succ_pos _)
      closed := h.closed
      reached := h.reached
      knows := knows_put h.knows hi trivial }

/-- A call that has found nothing waits, unless it need not. -/
theorem wait (h : s.Sound) {since : Nat} (hi : s.gets[i]? = some (.emptyHanded since)) :
    (s.wait i since).Sound := by
  have hsince : since = 0 := h.knows i _ hi
  have hnot : ¬ s.gets[i]? = some .standing := by simp [hi]
  rw [QueueInUse.wait]
  split
  · -- it has used up the ring, and looks again
    exact {
      attends := h.attends.useUp.congr fun j => standing_put_other hi (by simp) (by simp)
      alerted := fun _ _ => Or.inr (Or.inr (running_put hi rfl))
      closed := h.closed
      reached := h.reached
      knows := knows_put h.knows hi trivial }
  · next hquiet =>
      split
      · exact h.put hi (by simp) (by simp) trivial fun _ _ hwoken => nomatch hwoken
      · next hheard =>
          exact {
            attends := (h.attends.wait hnot).congr fun j => standing_put_standing hi
            alerted := fun hopen hready => by
              rcases h.alerted hopen hready with howed | (hring | hcalled) | hrunning
              · exact Or.inl howed
              · exact absurd hring hquiet
              · exact Or.inr (Or.inl (Or.inr hcalled))
              · exact Or.inr (Or.inr (hrunning.put hi fun hwoken => nomatch hwoken))
            closed := h.closed
            -- a shutdown that has woken everybody would have been heard
            reached := fun hclosings => absurd (hsince ▸ hclosings) hheard
            knows := knows_put h.knows hi trivial }

/-- A call that has been woken goes on. -/
theorem rise (h : s.Sound) (hi : s.gets[i]? = some .standing) (hcalled : i ∈ s.queue.bell.called) :
    ((s.withBell (s.queue.bell.answer i)).put i (.rising true)).Sound where
  attends := (h.attends.answer hcalled).congr fun j => standing_put hi (by simp)
  alerted _ _ := Or.inr (Or.inr (running_put hi rfl))
  closed := h.closed
  reached := h.reached
  knows := knows_put h.knows hi trivial

/-- A call is given up while it waits. -/
theorem abandon (h : s.Sound) (hi : s.gets[i]? = some .standing) :
    ((s.withBell (s.queue.bell.leave i)).put i .gone).Sound where
  attends := h.attends.leave.congr fun j => standing_put hi (by simp)
  alerted hopen hready := by
    rcases h.alerted hopen hready with howed | hbell | hrunning
    · exact Or.inl howed
    · exact Or.inr (Or.inl (hbell.leave i))
    · exact Or.inr (Or.inr (hrunning.put hi fun hwoken => nomatch hwoken))
  closed := h.closed
  reached hclosings := Bell.waiting_leave (h.reached hclosings)
  knows := knows_put h.knows hi trivial

/-- Each move keeps up what holds of every queue in use. -/
theorem step {e : QueueMove} (h : s.Sound) (hstep : s.step? e = some s') : s'.Sound := by
  cases e with
  | add k =>
      cases hstep
      exact h.brings (rings_add s.queue k) (WorkQueue.add_closed s.queue k)
  | done k =>
      cases hstep
      exact h.brings (rings_done s.queue k) (WorkQueue.done_closed s.queue k)
  | close =>
      cases hstep
      exact {
        attends := h.attends
        alerted := fun hopen => nomatch hopen
        closed := iff_of_true rfl (Or.inl (Nat.succ_pos _))
        reached := h.reached
        knows := h.knows }
  | ring =>
      obtain ⟨-, heq⟩ := Option.ite_none_right_eq_some.1 hstep
      cases heq
      exact {
        attends := h.attends.ring
        alerted := fun _ _ => Or.inr (Or.inl (Bell.alert_ring _))
        closed := h.closed
        reached := fun hclosings => WorkQueue.waiting_ring (h.reached hclosings)
        knows := h.knows }
  | ringAll =>
      obtain ⟨hclosing, heq⟩ := Option.ite_none_right_eq_some.1 hstep
      cases heq
      have hclosed : s.queue.closed = true := h.closed.2 (Or.inl hclosing)
      exact {
        attends := h.attends.ringAll
        alerted := fun hopen => absurd (hclosed.symm.trans hopen) (by simp)
        closed := iff_of_true hclosed (Or.inr (Nat.succ_pos _))
        reached := fun _ => rfl
        knows := fun j stage hj => (h.knows j stage hj).mono (Nat.le_succ _) }
  | arrive =>
      cases hstep
      exact {
        attends := h.attends.congr fun j => by simp [getElem?_arrive]
        alerted := fun hopen hready => by
          rcases h.alerted hopen hready with howed | hbell | ⟨j, stage, hj, hwoken⟩
          · exact Or.inl howed
          · exact Or.inr (Or.inl hbell)
          · exact Or.inr (Or.inr ⟨j, stage, getElem?_arrive.2 (Or.inl hj), hwoken⟩)
        closed := h.closed
        reached := h.reached
        knows := fun j stage hj => by
          rcases getElem?_arrive.1 hj with hj | ⟨-, rfl⟩
          · exact h.knows j stage hj
          · trivial }
  | listen i =>
      rw [step?] at hstep
      split at hstep
      · next woken hi =>
          cases hstep
          exact h.put hi (by simp) (by simp) (Nat.le_refl _) fun _ _ hwoken => hwoken
      · cases hstep
  | look i =>
      rw [step?] at hstep
      split at hstep
      · next hi =>
          cases hstep
          exact h.look hi
      · cases hstep
  | wait i =>
      rw [step?] at hstep
      split at hstep
      · next hi =>
          cases hstep
          exact h.wait hi
      · cases hstep
  | rise i =>
      obtain ⟨⟨hi, hcalled⟩, heq⟩ := Option.ite_none_right_eq_some.1 hstep
      cases heq
      exact h.rise hi hcalled
  | abandon i =>
      obtain ⟨hi, heq⟩ := Option.ite_none_right_eq_some.1 hstep
      cases heq
      exact h.abandon hi

theorem run {es : List QueueMove} (h : s.Sound) (hrun : s.run? es = some s') : s'.Sound := by
  induction es generalizing s with
  | nil =>
      cases hrun
      exact h
  | cons e es ih =>
      obtain ⟨s₁, hstep, hrest⟩ := Option.bind_eq_some_iff.1 hrun
      exact ih (h.step hstep) hrest

/-- Whoever is blocked waits at the bell. -/
theorem waiting_of_blocked (h : s.Sound) (hi : s.IsBlocked i) : i ∈ s.queue.bell.waiting :=
  (List.mem_append.1 ((h.attends.mem_standers i).2 hi.1)).resolve_right hi.2

end Sound

/-- Whatever calls come to the queue, and however they get in each other's way: if no call has a
ring to give, no shutdown has yet to wake anybody, and no call that was woken has yet to look for a
key, then there is no key or nobody is blocked. After a shutdown nobody is blocked. -/
theorem no_wakeup_lost {es : List QueueMove} (hrun : start.run? es = some s) :
    (s.owed = 0 → s.closing = 0 → (∀ i, ¬ s.IsWoken i) →
      s.queue.ready = [] ∨ ∀ i, ¬ s.IsBlocked i) ∧
    (0 < s.closings → ∀ i, ¬ s.IsBlocked i) := by
  have h : s.Sound := .run .start hrun
  have hnobody : s.queue.bell.waiting = [] → ∀ i, ¬ s.IsBlocked i := by
    intro hnone i hi
    have hmem := h.waiting_of_blocked hi
    rw [hnone] at hmem
    cases hmem
  refine ⟨fun howed hclosing hwoken => ?_, fun hclosings => hnobody (h.reached hclosings)⟩
  by_cases hready : s.queue.ready = []
  · exact Or.inl hready
  · refine Or.inr (hnobody ?_)
    cases hclosed : s.queue.closed with
    | true =>
        rcases h.closed.1 hclosed with hpos | hpos
        · exact absurd hpos (by simp [hclosing])
        · exact h.reached hpos
    | false =>
        rcases h.alerted hclosed hready with hpos | (hring | ⟨w, hw, -⟩) | ⟨i, stage, hi, hstage⟩
        · exact absurd hpos (by simp [howed])
        · exact h.attends.unheard hring
        · have hcalled : w.taker ∈ s.queue.bell.called := List.mem_map_of_mem hw
          have hstands := (h.attends.mem_standers w.taker).1 (List.mem_append_right _ hcalled)
          exact absurd (Or.inl ⟨hstands, hcalled⟩) (hwoken w.taker)
        · exact absurd (Or.inr ⟨stage, hi, hstage⟩) (hwoken i)

/-- One call waits and another is about to when two keys are added. The first call is woken and then
given up, so that its ring is left for the other one, which uses it up, is handed a key, and rings
for the key that is left. -/
def givenUpAmongRings : List QueueMove :=
  [.arrive, .listen 0, .look 0, .wait 0, .arrive, .listen 1, .look 1, .add "a", .add "b", .ring,
    .abandon 0, .ring, .wait 1, .listen 1, .look 1, .ring]

theorem no_wakeup_lost_givenUpAmongRings :
    ∃ s, start.run? givenUpAmongRings = some s ∧ s.gets = [.gone, .ended (.key "a")] ∧
      s.queue.ready = ["b"] ∧ ∀ i, ¬ s.IsBlocked i := by
  have hrun : (start.run? givenUpAmongRings).isSome := by decide
  obtain ⟨s, hs⟩ := Option.isSome_iff_exists.1 hrun
  have hstate : (start.run? givenUpAmongRings).map (fun s =>
      (s.gets, s.queue.ready, s.queue.bell.called, s.owed, s.closing)) =
      some ([.gone, .ended (.key "a")], ["b"], [], 0, 0) := by decide
  rw [hs] at hstate
  simp only [Option.map_some, Option.some.injEq, Prod.mk.injEq] at hstate
  obtain ⟨hgets, hready, hcalled, howed, hclosing⟩ := hstate
  have hwoken : ∀ i, ¬ s.IsWoken i := by
    rintro i (⟨-, hmem⟩ | ⟨stage, hi, hstage⟩)
    · rw [hcalled] at hmem
      cases hmem
    · rw [hgets] at hi
      rcases List.mem_pair.1 (List.mem_of_getElem? hi) with rfl | rfl
      · cases hstage
      · cases hstage
  have hnone := ((no_wakeup_lost hs).1 howed hclosing hwoken).resolve_left (by simp [hready])
  exact ⟨s, hs, hgets, hready, hnone⟩

end QueueInUse

end IngressTls
