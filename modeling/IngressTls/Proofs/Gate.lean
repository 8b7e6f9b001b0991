import IngressTls.Gate
import Mathlib.Data.List.Basic

set_option autoImplicit false

/-! # What the gate waits for

Each operation of the gate, by what it does to the state and to the kinds that are pending. A gate
that is open waits for nothing, and it stays open whatever happens.

Main statement: `WaitsForNone.markSynced`.
-/

namespace IngressTls

namespace NameSet

theorem has_iff {s : NameSet} {x : String} : s.has x = true ↔ x ∈ s :=
  List.contains_iff_mem

theorem isEmpty_iff {s : NameSet} : s.isEmpty = true ↔ ∀ x, x ∉ s := by
  rw [isEmpty, List.isEmpty_iff, List.eq_nil_iff_forall_not_mem]
  exact Iff.rfl

end NameSet

namespace Gate

variable {g : Gate} {k j : String}

theorem isReady_iff : g.isReady = true ↔ g.state = .ready := decide_eq_true_iff

/-! ## Operations -/

@[simp] theorem state_register : (g.register k).state = g.state := by
  rw [register]
  split
  · rfl
  · rfl

theorem mem_pending_register :
    j ∈ (g.register k).pending ↔ j ∈ g.pending ∨ (g.state = .uninitialized ∧ j = k) := by
  rw [register]
  split
  · next hstate => simp [hstate, or_comm]
  · next hstate => simp [hstate]

/-- Before the start all kinds are registered. -/
theorem foldl_register (hstate : g.state = .uninitialized) (ks : List String) :
    (ks.foldl register g).state = .uninitialized ∧
      ∀ j, j ∈ (ks.foldl register g).pending ↔ j ∈ g.pending ∨ j ∈ ks := by
  induction ks generalizing g with
  | nil => simp [hstate]
  | cons k ks ih =>
      obtain ⟨hkept, hpending⟩ := ih (g := g.register k) (state_register.trans hstate)
      refine ⟨hkept, fun j => ?_⟩
      rw [List.foldl_cons, hpending, mem_pending_register, List.mem_cons, or_assoc]
      simp [hstate]

@[simp] theorem pending_start : g.start.pending = g.pending := by
  rw [start]
  split
  · split
    · rfl
    · rfl
  · rfl

theorem state_start_of_ready (h : g.state = .ready) : g.start.state = .ready := by
  rw [start, if_neg (by rw [h]; decide), h]

/-- A gate that is opened when it is started waits for nothing. -/
theorem ready_of_start (h : g.start.state = .ready) :
    g.state = .ready ∨ ∀ k, k ∉ g.pending := by
  rw [start] at h
  split at h
  · split at h
    · next hempty => exact Or.inr (NameSet.isEmpty_iff.1 hempty)
    · cases h
  · exact Or.inl h

@[simp] theorem mem_pending_markSynced :
    j ∈ (g.markSynced k).pending ↔ j ∈ g.pending ∧ j ≠ k := by
  rw [markSynced]
  split
  · dsimp only
    split
    · exact NameSet.mem_erase
    · exact NameSet.mem_erase
  · next hnot =>
      refine ⟨fun hj => ⟨hj, ?_⟩, fun hj => hj.1⟩
      rintro rfl
      exact hnot (NameSet.has_iff.2 hj)

/-- Marking a kind leaves the state as it is, or it opens a gate that has been started and waits
for nothing afterwards. -/
theorem state_markSynced : (g.markSynced k).state = g.state ∨
    g.state = .syncing ∧ (g.markSynced k).state = .ready ∧ ∀ j, j ∉ (g.markSynced k).pending := by
  rw [markSynced]
  split
  · dsimp only
    split
    · next hopens =>
        rw [Bool.and_eq_true, decide_eq_true_iff] at hopens
        exact Or.inr ⟨hopens.2, rfl, NameSet.isEmpty_iff.1 hopens.1⟩
    · exact Or.inl rfl
  · exact Or.inl rfl

theorem state_markSynced_of_ready (h : g.state = .ready) : (g.markSynced k).state = .ready := by
  rcases state_markSynced (g := g) (k := k) with heq | ⟨-, hready, -⟩
  · exact heq.trans h
  · exact hready

/-! ## An open gate -/

/-- A gate that is open waits for nothing. -/
def WaitsForNone (g : Gate) : Prop := g.state = .ready → ∀ k, k ∉ g.pending

namespace WaitsForNone

theorem new : Gate.new.WaitsForNone := fun h => nomatch h

theorem register (h : g.WaitsForNone) : (g.register k).WaitsForNone := by
  intro hready j hj
  rw [state_register] at hready
  rcases mem_pending_register.1 hj with hj | ⟨hstate, -⟩
  · exact h hready j hj
  · cases hstate.symm.trans hready

theorem start (h : g.WaitsForNone) : g.start.WaitsForNone := by
  intro hready
  rw [pending_start]
  exact (ready_of_start hready).elim h id

theorem markSynced (h : g.WaitsForNone) : (g.markSynced k).WaitsForNone := by
  intro hready
  rcases state_markSynced (g := g) (k := k) with heq | ⟨-, -, hnone⟩
  · exact fun j hj => h (heq ▸ hready) j (mem_pending_markSynced.1 hj).1
  · exact hnone

end WaitsForNone

end Gate

end IngressTls
