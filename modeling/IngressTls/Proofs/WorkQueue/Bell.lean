import IngressTls.Proofs.WorkQueue.Tidy
import Mathlib.Data.List.Nodup
import Mathlib.Data.List.Perm.Basic

set_option autoImplicit false

/-! # Who stands at the bell

Those who stand at the bell of the work queue wait, or they have been woken and have not run since.
Ringing moves them from the former to the latter, and only waiting and leaving changes who they
are. A bell is *alert* if it remembers a ring or if somebody whom a ring has woken has not run
since: then some worker is going to look for a key.

Main statements: `Attends.ring`, `Attends.leave`, `alert_ring` and `Alert.leave`.
-/

namespace IngressTls.Bell

/-- Those who have been woken and have not run since. -/
def called (b : Bell) : List Nat := b.woken.map (·.taker)

/-- Those who stand at the bell. -/
def standers (b : Bell) : List Nat := b.waiting ++ b.called

/-- Exactly the workers of a sort stand at the bell, none of them twice, and a ring is remembered
only while nobody waits. -/
structure Attends (b : Bell) (p : Nat → Prop) : Prop where
  /-- Nobody stands there twice. -/
  nodup : b.standers.Nodup
  /-- Who stands there. -/
  mem_standers : ∀ i, i ∈ b.standers ↔ p i
  /-- A ring that somebody could hear is not remembered. -/
  unheard : b.remembered = true → b.waiting = []

/-- A ring is remembered, or somebody has been woken by one and has not run since. -/
def Alert (b : Bell) : Prop := b.remembered = true ∨ ∃ w ∈ b.woken, w.byRing = true

variable {b : Bell} {p : Nat → Prop} {i : Nat}

/-! ## Standing there -/

theorem standers_ring (b : Bell) : b.ring.standers.Perm b.standers := by
  rw [ring]
  split
  · exact List.Perm.refl _
  · next w ws hwaiting =>
      simp only [standers, called, hwaiting, List.map_append, List.map_cons, List.map_nil,
        ← List.append_assoc]
      exact List.perm_append_singleton w _

theorem standers_ringAll (b : Bell) : b.ringAll.standers.Perm b.standers := by
  have hcalled : b.ringAll.called = b.called ++ b.waiting := by
    simp [called, ringAll, Function.comp_def]
  rw [standers, hcalled]
  change (b.called ++ b.waiting).Perm (b.waiting ++ b.called)
  exact List.perm_append_comm

theorem standers_wait (b : Bell) (i : Nat) : (b.wait i).standers.Perm (i :: b.standers) := by
  simp only [standers, wait, List.append_assoc, List.singleton_append]
  exact List.perm_middle

theorem called_answer (b : Bell) (i : Nat) : (b.answer i).called = b.called.filter (· ≠ i) := by
  simp [called, answer, List.filter_map, Function.comp_def]

theorem standers_answer (hnot : i ∉ b.waiting) :
    (b.answer i).standers = b.standers.filter (· ≠ i) := by
  have hwaiting : b.waiting.filter (· ≠ i) = b.waiting :=
    List.filter_eq_self.2 fun j hj => decide_eq_true fun heq => hnot (heq ▸ hj)
  rw [standers, standers, List.filter_append, hwaiting, called_answer]
  rfl

/-- Without a ring to pass on, only the one who leaves is gone; otherwise the ring wakes the
next. -/
theorem leave_cases (b : Bell) (i : Nat) : ∃ l : Bell,
    l.standers = b.standers.filter (· ≠ i) ∧ l.remembered = b.remembered ∧
      l.waiting = b.waiting.filter (· ≠ i) ∧ l.woken = b.woken.filter (·.taker ≠ i) ∧
      ((∃ w ∈ b.woken, w.taker = i ∧ w.byRing = true) ∧ b.leave i = l.ring ∨
        (∀ w ∈ b.woken, w.taker = i → w.byRing = false) ∧ b.leave i = l) := by
  refine ⟨{ b.answer i with waiting := b.waiting.filter (· ≠ i) }, ?_, rfl, rfl, rfl, ?_⟩
  · rw [standers, standers, List.filter_append, ← called_answer]
    rfl
  · rw [leave]
    split
    · next hpass =>
        obtain ⟨w, hw, hi⟩ := List.any_eq_true.1 hpass
        rw [Bool.and_eq_true, decide_eq_true_iff] at hi
        exact Or.inl ⟨⟨w, hw, hi⟩, rfl⟩
    · next hpass =>
        refine Or.inr ⟨fun w hw hi => ?_, rfl⟩
        by_contra hring
        rw [Bool.not_eq_false] at hring
        exact hpass (List.any_eq_true.2 ⟨w, hw, by simp [hi, hring]⟩)

namespace Attends

theorem quiet (hp : ∀ i, ¬ p i) : quiet.Attends p where
  nodup := List.nodup_nil
  mem_standers i := iff_of_false List.not_mem_nil (hp i)
  unheard h := nomatch h

/-- Who stands there may be described in another way. -/
theorem congr {p' : Nat → Prop} (h : b.Attends p) (hp : ∀ i, p' i ↔ p i) : b.Attends p' where
  nodup := h.nodup
  mem_standers i := (h.mem_standers i).trans (hp i).symm
  unheard := h.unheard

theorem ring (h : b.Attends p) : b.ring.Attends p where
  nodup := (standers_ring b).nodup_iff.2 h.nodup
  mem_standers i := (standers_ring b).mem_iff.trans (h.mem_standers i)
  unheard := by
    rw [Bell.ring]
    split
    · next hwaiting => exact fun _ => hwaiting
    · next hwaiting =>
        intro hring
        rw [h.unheard hring] at hwaiting
        cases hwaiting

theorem ringAll (h : b.Attends p) : b.ringAll.Attends p where
  nodup := (standers_ringAll b).nodup_iff.2 h.nodup
  mem_standers i := (standers_ringAll b).mem_iff.trans (h.mem_standers i)
  unheard _ := rfl

/-- A ring that is remembered may be used up. -/
theorem useUp (h : b.Attends p) : Attends { b with remembered := false } p where
  nodup := h.nodup
  mem_standers := h.mem_standers
  unheard hring := nomatch hring

theorem wait (h : b.Attends p) (hi : ¬ p i) : (b.wait i).Attends fun j => j = i ∨ p j where
  nodup := (standers_wait b i).nodup_iff.2
    (List.nodup_cons.2 ⟨mt (h.mem_standers i).1 hi, h.nodup⟩)
  mem_standers j := by rw [(standers_wait b i).mem_iff, List.mem_cons, h.mem_standers]
  unheard hring := nomatch hring

/-- Those who have been called do not wait. -/
theorem not_mem_waiting (h : b.Attends p) (hi : i ∈ b.called) : i ∉ b.waiting :=
  fun hwaiting => (List.nodup_append.1 h.nodup).2.2 i hwaiting i hi rfl

theorem answer (h : b.Attends p) (hi : i ∈ b.called) :
    (b.answer i).Attends fun j => p j ∧ j ≠ i where
  nodup := by
    rw [standers_answer (h.not_mem_waiting hi)]
    exact h.nodup.filter _
  mem_standers j := by
    rw [standers_answer (h.not_mem_waiting hi), List.mem_filter, h.mem_standers,
      decide_eq_true_iff]
  unheard := h.unheard

theorem leave (h : b.Attends p) : (b.leave i).Attends fun j => p j ∧ j ≠ i := by
  obtain ⟨l, hstanders, hremembered, hwaiting, -, hleave⟩ := leave_cases b i
  have hl : l.Attends fun j => p j ∧ j ≠ i := {
    nodup := hstanders ▸ h.nodup.filter _
    mem_standers := fun j => by
      rw [hstanders, List.mem_filter, h.mem_standers, decide_eq_true_iff]
    unheard := fun hring => by
      rw [hwaiting, h.unheard (hremembered ▸ hring), List.filter_nil] }
  rcases hleave with ⟨-, heq⟩ | ⟨-, heq⟩
  · exact heq ▸ hl.ring
  · exact heq ▸ hl

end Attends

/-! ## Waking somebody -/

/-- A ring is heard or remembered. -/
theorem alert_ring (b : Bell) : b.ring.Alert := by
  rw [ring]
  split
  · exact Or.inl rfl
  · exact Or.inr ⟨_, List.mem_append_right _ (List.mem_singleton_self _), rfl⟩

/-- Somebody leaves, and passes on the ring that was meant for them. -/
theorem Alert.leave (h : b.Alert) (i : Nat) : (b.leave i).Alert := by
  obtain ⟨l, -, hremembered, -, hwoken, hleave⟩ := leave_cases b i
  rcases hleave with ⟨-, heq⟩ | ⟨hnone, heq⟩
  · exact heq ▸ alert_ring l
  · rw [heq]
    rcases h with hring | ⟨w, hw, hring⟩
    · exact Or.inl (hremembered.trans hring)
    · refine Or.inr ⟨w, ?_, hring⟩
      rw [hwoken, List.mem_filter, decide_eq_true_iff]
      refine ⟨hw, fun hi => ?_⟩
      exact Bool.false_ne_true ((hnone w hw hi).symm.trans hring)

/-! ## Nobody waits -/

theorem waiting_leave (h : b.waiting = []) : (b.leave i).waiting = [] := by
  obtain ⟨l, -, -, hwaiting, -, hleave⟩ := leave_cases b i
  have hl : l.waiting = [] := by rw [hwaiting, h, List.filter_nil]
  rcases hleave with ⟨-, heq⟩ | ⟨-, heq⟩
  · exact heq ▸ WorkQueue.waiting_ring hl
  · exact heq ▸ hl

/-- Somebody who has not been called has nothing to answer. -/
theorem answer_of_not_mem (h : i ∉ b.called) : b.answer i = b := by
  have hwoken : b.woken.filter (fun w => w.taker ≠ i) = b.woken :=
    List.filter_eq_self.2 fun w hw => decide_eq_true fun hi => h (hi ▸ List.mem_map_of_mem hw)
  rw [answer, hwoken]

@[simp] theorem answer_answer (b : Bell) (i : Nat) : (b.answer i).answer i = b.answer i := by
  apply answer_of_not_mem
  rw [called_answer, List.mem_filter]
  simp

end IngressTls.Bell
