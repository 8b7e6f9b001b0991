import IngressTls.Proofs.Table
import IngressTls.Proofs.WorkQueue.Tidy

set_option autoImplicit false

/-! # The share of a key in the work queue

A key's *share* of the work queue is the queue in which no other key stands anywhere, and in which
nobody waits. What happens to other keys leaves the share as it is, and what happens to the key
happens to the share as well. A worker that is handed the key finds it first in the share, too.

A worker that finds nothing, or that is handed another key, does not look into the share at all.

Main statements: `Share.add_self`, `Share.take_self`, `Share.take_other` and `Share.done_self`.
-/

namespace IngressTls.WorkQueue

/-- The second queue is the share of a key in the first. -/
structure Share (k : String) (q q' : WorkQueue) : Prop where
  /-- Whether the key is to be handed out. -/
  ready : q'.ready = q.ready.filter (· = k)
  /-- Whether the key is dirty. -/
  dirty : q'.dirty = q.dirty.filter (· = k)
  /-- Whether the key is held. -/
  held : q'.held = q.held.filter (· = k)
  /-- How often the key has failed. -/
  failures : Table.Share k q.failures q'.failures
  /-- Both are open or shut down. -/
  closed : q'.closed = q.closed
  /-- Nobody waits for the share. -/
  waiting : q'.bell.waiting = []

theorem contains_filter_self (l : List String) (k : String) :
    (l.filter (· = k)).contains k = l.contains k := by
  rw [Bool.eq_iff_iff, List.contains_iff_mem, List.contains_iff_mem, List.mem_filter]
  simp

theorem filter_cons_self (l : List String) (k : String) :
    (k :: l).filter (· = k) = k :: l.filter (· = k) :=
  List.filter_cons_of_pos (by simp)

theorem filter_cons_other {l : List String} {j k : String} (hj : j ≠ k) :
    (j :: l).filter (· = k) = l.filter (· = k) :=
  List.filter_cons_of_neg (by simpa using hj)

theorem filter_erase_self (l : List String) (k : String) :
    (l.erase k).filter (· = k) = (l.filter (· = k)).erase k := by
  induction l with
  | nil => rfl
  | cons a l ih =>
      by_cases ha : a = k
      · subst ha
        rw [List.erase_cons_head, filter_cons_self, List.erase_cons_head]
      · rw [List.erase_cons_tail (by simpa using ha), filter_cons_other ha, filter_cons_other ha,
          ih]

theorem filter_erase_other {l : List String} {j k : String} (hj : j ≠ k) :
    (l.erase j).filter (· = k) = l.filter (· = k) := by
  induction l with
  | nil => rfl
  | cons a l ih =>
      by_cases ha : a = j
      · subst ha
        rw [List.erase_cons_head, filter_cons_other hj]
      · rw [List.erase_cons_tail (by simpa using ha), List.filter_cons, List.filter_cons, ih]

namespace Share

variable {k j : String} {q q' : WorkQueue}

theorem empty (k : String) : Share k WorkQueue.empty WorkQueue.empty :=
  ⟨rfl, rfl, rfl, .empty k, rfl, rfl⟩

/-! ## Adding -/

theorem add_self (h : Share k q q') : Share k (q.add k) (q'.add k) := by
  have hdirty : q'.dirty.contains k = q.dirty.contains k := by
    rw [h.dirty, contains_filter_self]
  have hheld : q'.held.contains k = q.held.contains k := by
    rw [h.held, contains_filter_self]
  rw [add, add, h.closed, hdirty, hheld]
  split
  · exact h
  · split
    · exact ⟨h.ready, by rw [filter_cons_self, h.dirty], h.held, h.failures, rfl, h.waiting⟩
    · refine ⟨?_, by rw [filter_cons_self, h.dirty], h.held, h.failures, rfl,
        waiting_ring h.waiting⟩
      rw [List.filter_append, filter_cons_self, h.ready]
      rfl

theorem add_other (h : Share k q q') (hj : j ≠ k) : Share k (q.add j) q' := by
  rw [add]
  split
  · exact h
  · split
    · exact ⟨h.ready, by rw [filter_cons_other hj, h.dirty], h.held, h.failures, h.closed,
        h.waiting⟩
    · refine ⟨?_, by rw [filter_cons_other hj, h.dirty], h.held, h.failures, h.closed, h.waiting⟩
      rw [List.filter_append, filter_cons_other hj, h.ready]
      exact (List.append_nil _).symm

/-! ## Handing out -/

/-- A worker that is handed the key gets it from the share as well. -/
theorem take_self {q₁ : WorkQueue} {taker : Nat} (h : Share k q q')
    (ht : q.take taker = (q₁, .key k)) :
    ∃ q₁', q'.take taker = (q₁', .key k) ∧ Share k q₁ q₁' := by
  obtain ⟨htaken, -⟩ | ⟨htaken, -⟩ | ⟨i, rest, bell, htaken, hopen, hready, rfl⟩ := take_cases ht
  · cases htaken
  · cases htaken
  · cases htaken
    have hopen' : q'.closed = false := h.closed.trans hopen
    have hready' : q'.ready = k :: rest.filter (· = k) := by
      rw [h.ready, hready, filter_cons_self]
    have hheld : q'.held.contains k = q.held.contains k := by
      rw [h.held, contains_filter_self]
    refine ⟨_, by rw [WorkQueue.take, hopen', if_neg (by decide), hready'], ?_⟩
    refine ⟨rfl, by rw [filter_erase_self, h.dirty], ?_, h.failures, hopen.symm, ?_⟩
    · dsimp only
      rw [hheld]
      split
      · exact h.held
      · rw [filter_cons_self, h.held]
    · dsimp only
      split
      · exact h.waiting
      · exact waiting_ring h.waiting

/-- A worker that gets another key, or none, leaves the share as it is. -/
theorem take_other {q₁ : WorkQueue} {taker : Nat} {taken : Taken} (h : Share k q q')
    (ht : q.take taker = (q₁, taken)) (hother : taken ≠ .key k) : Share k q₁ q' := by
  obtain ⟨-, -, rfl⟩ | ⟨-, -, -, rfl⟩ | ⟨j, rest, bell, rfl, -, hready, rfl⟩ := take_cases ht
  · exact ⟨h.ready, h.dirty, h.held, h.failures, h.closed, h.waiting⟩
  · exact ⟨h.ready, h.dirty, h.held, h.failures, h.closed, h.waiting⟩
  · have hj : j ≠ k := fun hj => hother (hj ▸ rfl)
    refine ⟨?_, by rw [filter_erase_other hj, h.dirty], ?_, h.failures, h.closed, h.waiting⟩
    · rw [h.ready, hready, filter_cons_other hj]
    · dsimp only
      split
      · exact h.held
      · rw [filter_cons_other hj, h.held]

/-! ## Being done -/

theorem done_self (h : Share k q q') : Share k (q.done k) (q'.done k) := by
  have hdirty : q'.dirty.contains k = q.dirty.contains k := by
    rw [h.dirty, contains_filter_self]
  simp only [done]
  rw [hdirty]
  split
  · refine ⟨?_, h.dirty, by rw [filter_erase_self, h.held], h.failures, h.closed,
      waiting_ring h.waiting⟩
    rw [List.filter_append, filter_cons_self, h.ready]
    rfl
  · exact ⟨h.ready, h.dirty, by rw [filter_erase_self, h.held], h.failures, h.closed, h.waiting⟩

theorem done_other (h : Share k q q') (hj : j ≠ k) : Share k (q.done j) q' := by
  simp only [done]
  split
  · refine ⟨?_, h.dirty, by rw [filter_erase_other hj, h.held], h.failures, h.closed, h.waiting⟩
    rw [List.filter_append, filter_cons_other hj, h.ready]
    exact (List.append_nil _).symm
  · exact ⟨h.ready, h.dirty, by rw [filter_erase_other hj, h.held], h.failures, h.closed, h.waiting⟩

/-! ## The rest -/

theorem failuresOf_self (h : Share k q q') : q'.failuresOf k = q.failuresOf k := by
  rw [failuresOf, h.failures.find?_self, failuresOf]

theorem fail_self (h : Share k q q') :
    (q'.fail k).2 = (q.fail k).2 ∧ Share k (q.fail k).1 (q'.fail k).1 := by
  have hcount : (q'.fail k).2 = (q.fail k).2 := by
    rw [fail, fail, h.failures.find?_self]
  refine ⟨hcount, h.ready, h.dirty, h.held, ?_, h.closed, h.waiting⟩
  show Table.Share k (q.failures.insert k (q.fail k).2) (q'.failures.insert k (q'.fail k).2)
  rw [hcount]
  exact h.failures.insert_self _

theorem fail_other (h : Share k q q') (hj : j ≠ k) : Share k (q.fail j).1 q' :=
  ⟨h.ready, h.dirty, h.held, h.failures.insert_other hj _, h.closed, h.waiting⟩

theorem forget_self (h : Share k q q') : Share k (q.forget k) (q'.forget k) :=
  ⟨h.ready, h.dirty, h.held, h.failures.erase_self, h.closed, h.waiting⟩

theorem forget_other (h : Share k q q') (hj : j ≠ k) : Share k (q.forget j) q' :=
  ⟨h.ready, h.dirty, h.held, h.failures.erase_other hj, h.closed, h.waiting⟩

theorem close (h : Share k q q') : Share k q.close q'.close :=
  ⟨h.ready, h.dirty, h.held, h.failures, rfl, rfl⟩

end Share

end IngressTls.WorkQueue
