import IngressTls.WorkQueue

set_option autoImplicit false

/-! # Where a key stands in the work queue

A key can be to hand out, dirty and held by a worker. Adding it makes it dirty, handing it
out makes it clean and held, and a worker that is done with it no longer holds it. The
discipline of the workers is that only a held key is done.

A queue is *tidy* if no key stands anywhere twice and exactly the dirty keys that nobody
holds are to be handed out. Every operation keeps a queue tidy, and the lemmas here say for
each of them which keys it makes dirty or held.

Main statements: `Tidy.add`, `Tidy.take_key` and `Tidy.done`.
-/

namespace IngressTls.WorkQueue

/-- No key stands anywhere twice, and the dirty keys that nobody holds are to be handed
out. -/
structure Tidy (q : WorkQueue) : Prop where
  /-- No key is handed out twice. -/
  ready_nodup : q.ready.Nodup
  /-- No key is dirty twice. -/
  dirty_nodup : q.dirty.Nodup
  /-- No key is held twice. -/
  held_nodup : q.held.Nodup
  /-- The keys to hand out. -/
  mem_ready : ∀ k, k ∈ q.ready ↔ k ∈ q.dirty ∧ k ∉ q.held

theorem Tidy.empty : WorkQueue.empty.Tidy where
  ready_nodup := List.nodup_nil
  dirty_nodup := List.nodup_nil
  held_nodup := List.nodup_nil
  mem_ready := by
    intro k
    simp [WorkQueue.empty]

/-- Queues whose keys stand alike are tidy alike. -/
theorem Tidy.congr {q q' : WorkQueue} (h : q.Tidy) (hready : q'.ready = q.ready)
    (hdirty : q'.dirty = q.dirty) (hheld : q'.held = q.held) : q'.Tidy := by
  constructor
  · rw [hready]
    exact h.ready_nodup
  · rw [hdirty]
    exact h.dirty_nodup
  · rw [hheld]
    exact h.held_nodup
  · intro k
    rw [hready, hdirty, hheld]
    exact h.mem_ready k

/-! ## Adding -/

/-- Adding a key changes at most the keys to hand out, the dirty ones and the bell. -/
theorem add_eq (q : WorkQueue) (k : String) :
    q.add k =
      { q with ready := (q.add k).ready, dirty := (q.add k).dirty, bell := (q.add k).bell } := by
  rw [add]
  split
  · rfl
  · split
    · rfl
    · rfl

@[simp] theorem add_held (q : WorkQueue) (k : String) : (q.add k).held = q.held := by
  rw [add_eq]

@[simp] theorem add_closed (q : WorkQueue) (k : String) : (q.add k).closed = q.closed := by
  rw [add_eq]

/-- A key that is added to an open queue becomes dirty. -/
theorem mem_dirty_add {q : WorkQueue} (hopen : q.closed = false) (k j : String) :
    j ∈ (q.add k).dirty ↔ j = k ∨ j ∈ q.dirty := by
  rw [add, hopen]
  split
  · next hk =>
      have hk : k ∈ q.dirty := by simpa using hk
      exact ⟨Or.inr, fun hj => hj.elim (fun heq => heq ▸ hk) id⟩
  · split
    · exact List.mem_cons
    · exact List.mem_cons

/-- A key that is neither dirty nor held comes last among the keys to hand out. -/
theorem ready_add {q : WorkQueue} (hopen : q.closed = false) (k : String) :
    (q.add k).ready = if k ∈ q.dirty ∨ k ∈ q.held then q.ready else q.ready ++ [k] := by
  rw [add, hopen, Bool.false_or]
  by_cases hdirty : k ∈ q.dirty
  · rw [if_pos (List.contains_iff_mem.2 hdirty), if_pos (Or.inl hdirty)]
  · rw [if_neg (mt List.contains_iff_mem.1 hdirty)]
    by_cases hheld : k ∈ q.held
    · rw [if_pos (List.contains_iff_mem.2 hheld), if_pos (Or.inr hheld)]
    · rw [if_neg (mt List.contains_iff_mem.1 hheld), if_neg (by simp [hdirty, hheld])]

theorem Tidy.add {q : WorkQueue} (h : q.Tidy) (k : String) : (q.add k).Tidy := by
  rw [WorkQueue.add]
  split
  · exact h
  · next hnot =>
      have hdirty : k ∉ q.dirty := by
        intro hmem
        simp [hmem] at hnot
      have hready : k ∉ q.ready := fun hmem => hdirty ((h.mem_ready k).1 hmem).1
      split
      · next hheld =>
          -- somebody holds it: it is dirty, and handed out when they are done
          have hheld : k ∈ q.held := by simpa using hheld
          refine ⟨h.ready_nodup, List.nodup_cons.2 ⟨hdirty, h.dirty_nodup⟩, h.held_nodup, ?_⟩
          intro j
          simp only [h.mem_ready, List.mem_cons]
          constructor
          · rintro ⟨hj, hn⟩
            exact ⟨Or.inr hj, hn⟩
          · rintro ⟨rfl | hj, hn⟩
            · exact absurd hheld hn
            · exact ⟨hj, hn⟩
      · next hheld =>
          -- nobody holds it: it comes last among the keys to hand out
          have hheld : k ∉ q.held := by simpa using hheld
          refine ⟨?_, List.nodup_cons.2 ⟨hdirty, h.dirty_nodup⟩, h.held_nodup, ?_⟩
          · refine List.nodup_append.2 ⟨h.ready_nodup, List.nodup_cons.2 (by simp), ?_⟩
            rintro a ha b hb rfl
            rw [List.mem_singleton] at hb
            exact hready (hb ▸ ha)
          · intro j
            simp only [List.mem_append, List.mem_cons, List.not_mem_nil, or_false, h.mem_ready]
            constructor
            · rintro (⟨hj, hn⟩ | rfl)
              · exact ⟨Or.inr hj, hn⟩
              · exact ⟨Or.inl rfl, hheld⟩
            · rintro ⟨rfl | hj, hn⟩
              · exact Or.inr rfl
              · exact Or.inl ⟨hj, hn⟩

/-! ## Handing out -/

/-- What handing out does: it is refused, it finds nothing, or it hands out the first key. -/
theorem take_cases {q q' : WorkQueue} {worker : Nat} {taken : Taken}
    (h : q.take worker = (q', taken)) :
    (taken = .closed ∧ q.closed = true ∧ q' = { q with bell := q.bell.answer worker }) ∨
    (taken = .blocked ∧ q.closed = false ∧ q.ready = [] ∧
      q' = { q with bell := (q.bell.answer worker).wait worker }) ∨
    (∃ k rest bell, taken = .key k ∧ q.closed = false ∧ q.ready = k :: rest ∧
      q' = { q with
        ready := rest
        dirty := q.dirty.erase k
        held := if q.held.contains k then q.held else k :: q.held
        bell }) := by
  simp only [WorkQueue.take] at h
  split at h
  · next hclosed =>
      obtain ⟨rfl, rfl⟩ := Prod.mk.inj h
      exact Or.inl ⟨rfl, hclosed, rfl⟩
  · next hclosed =>
      have hopen : q.closed = false := by simpa using hclosed
      split at h
      · next hready =>
          obtain ⟨rfl, rfl⟩ := Prod.mk.inj h
          exact Or.inr (Or.inl ⟨rfl, hopen, hready, rfl⟩)
      · next k rest hready =>
          obtain ⟨rfl, rfl⟩ := Prod.mk.inj h
          exact Or.inr (Or.inr ⟨k, rest, _, rfl, hopen, hready, rfl⟩)

/-- A key that is handed out was nobody's; it is now clean and held. -/
theorem Tidy.take_key {q q' : WorkQueue} {worker : Nat} {k : String} (h : q.Tidy)
    (ht : q.take worker = (q', .key k)) :
    q'.Tidy ∧ k ∉ q.held ∧ q'.held = k :: q.held ∧ q'.closed = q.closed ∧
      ∀ j, j ∈ q'.dirty ↔ j ∈ q.dirty ∧ j ≠ k := by
  obtain ⟨htaken, -⟩ | ⟨htaken, -⟩ | ⟨j, rest, bell, htaken, -, hready, rfl⟩ := take_cases ht
  · cases htaken
  · cases htaken
  · cases htaken
    have hmem : k ∈ q.ready := hready ▸ List.mem_cons_self
    obtain ⟨hdirty, hheld⟩ := (h.mem_ready k).1 hmem
    have hnodup := h.ready_nodup
    rw [hready] at hnodup
    obtain ⟨hrest, hrest_nodup⟩ := List.nodup_cons.1 hnodup
    -- the key was nobody's, and so it becomes held
    have hnot : q.held.contains k = false := by simpa using hheld
    have hmem_dirty : ∀ j, j ∈ q.dirty.erase k ↔ j ∈ q.dirty ∧ j ≠ k := by
      intro j
      rw [h.dirty_nodup.mem_erase_iff]
      exact and_comm
    refine ⟨⟨hrest_nodup, h.dirty_nodup.erase k, ?_, ?_⟩, hheld, ?_, rfl, hmem_dirty⟩
    · simp only [hnot]
      exact List.nodup_cons.2 ⟨hheld, h.held_nodup⟩
    · intro j
      have hj := h.mem_ready j
      rw [hready, List.mem_cons] at hj
      simp only [hnot, hmem_dirty]
      constructor
      · intro hin
        have hne : j ≠ k := fun heq => hrest (heq ▸ hin)
        obtain ⟨hd, hn⟩ := hj.1 (Or.inr hin)
        refine ⟨⟨hd, hne⟩, ?_⟩
        simp [hne, hn]
      · rintro ⟨⟨hd, hne⟩, hn⟩
        have hn' : j ∉ q.held := fun hin => hn (by simp [hin])
        exact (hj.2 ⟨hd, hn'⟩).resolve_left hne
    · simp only [hnot]
      rfl

/-- A worker that gets no key leaves all keys where they stand. -/
theorem take_none {q q' : WorkQueue} {worker : Nat} {taken : Taken}
    (ht : q.take worker = (q', taken)) (hnone : ∀ k, taken ≠ .key k) :
    q'.ready = q.ready ∧ q'.dirty = q.dirty ∧ q'.held = q.held ∧ q'.closed = q.closed := by
  obtain ⟨-, -, rfl⟩ | ⟨-, -, -, rfl⟩ | ⟨k, _, _, htaken, -⟩ := take_cases ht
  · exact ⟨rfl, rfl, rfl, rfl⟩
  · exact ⟨rfl, rfl, rfl, rfl⟩
  · exact absurd htaken (hnone k)

/-! ## Done -/

@[simp] theorem done_held (q : WorkQueue) (k : String) : (q.done k).held = q.held.erase k := by
  simp only [done]
  split
  · rfl
  · rfl

@[simp] theorem done_dirty (q : WorkQueue) (k : String) : (q.done k).dirty = q.dirty := by
  simp only [done]
  split
  · rfl
  · rfl

@[simp] theorem done_closed (q : WorkQueue) (k : String) : (q.done k).closed = q.closed := by
  simp only [done]
  split
  · rfl
  · rfl

theorem Tidy.done {q : WorkQueue} (h : q.Tidy) {k : String} (hk : k ∈ q.held) :
    (q.done k).Tidy := by
  have hready : k ∉ q.ready := fun hmem => ((h.mem_ready k).1 hmem).2 hk
  have hheld : ∀ j, j ∈ q.held.erase k ↔ j ≠ k ∧ j ∈ q.held :=
    fun j => h.held_nodup.mem_erase_iff
  simp only [WorkQueue.done]
  split
  · next hdirty =>
      -- it was added again meanwhile, and is to be handed out once more
      have hdirty : k ∈ q.dirty := by simpa using hdirty
      refine ⟨?_, h.dirty_nodup, h.held_nodup.erase k, ?_⟩
      · refine List.nodup_append.2 ⟨h.ready_nodup, List.nodup_cons.2 (by simp), ?_⟩
        rintro a ha b hb rfl
        rw [List.mem_singleton] at hb
        exact hready (hb ▸ ha)
      · intro j
        simp only [List.mem_append, List.mem_singleton, hheld, h.mem_ready]
        by_cases hj : j = k
        · subst hj
          simp [hdirty]
        · simp [hj]
  · next hdirty =>
      have hdirty : k ∉ q.dirty := by simpa using hdirty
      refine ⟨h.ready_nodup, h.dirty_nodup, h.held_nodup.erase k, ?_⟩
      intro j
      simp only [hheld, h.mem_ready]
      by_cases hj : j = k
      · subst hj
        simp [hdirty]
      · simp [hj]

/-! ## The rest

Counting failures and shutting down leave all keys where they stand. -/

theorem Tidy.fail {q : WorkQueue} (h : q.Tidy) (k : String) : (q.fail k).1.Tidy :=
  h.congr rfl rfl rfl

theorem Tidy.forget {q : WorkQueue} (h : q.Tidy) (k : String) : (q.forget k).Tidy :=
  h.congr rfl rfl rfl

theorem Tidy.close {q : WorkQueue} (h : q.Tidy) : q.close.Tidy :=
  h.congr rfl rfl rfl

/-- Nobody waits for a bell that nobody waited for before it rang. -/
theorem waiting_ring {b : Bell} (h : b.waiting = []) : b.ring.waiting = [] := by
  rw [Bell.ring, h]

end IngressTls.WorkQueue
