import IngressTls.Proofs.Gate

set_option autoImplicit false

/-! # The gate and its history

Calls come to the gate in any order: kinds are registered and marked, before the start or after
it, once or many times, and everybody may come to the gate at any moment. The calls are listed
with the last one first.

A kind counts as registered only if that happens before the first start. It is owed a mark from
its registration on, and owed a new one when it is registered again. So the gate is open as soon
as it has been started and every registered kind has been marked after its last registration.

Main statements: `Reads.turn` and `gate_reads_history`.
-/

namespace IngressTls

/-- What the gate is called for. -/
inductive GateCall where
  /-- A kind is registered. -/
  | register (kind : String)
  /-- The gate is started. -/
  | start
  /-- A kind is marked as listed. -/
  | markSynced (kind : String)
  /-- Somebody comes to the gate. -/
  | arrive
  deriving DecidableEq

/-- The moves of the state: nothing moves, or the gate goes on towards being open. -/
inductive GateState.Next : GateState → GateState → Prop where
  | same (s : GateState) : Next s s
  | syncing : Next .uninitialized .syncing
  | readyAtOnce : Next .uninitialized .ready
  | ready : Next .syncing .ready

theorem GateState.Next.trans {s t u : GateState} (h : s.Next t) (h' : t.Next u) : s.Next u := by
  cases h with
  | same => exact h'
  | syncing =>
      cases h' with
      | same => exact .syncing
      | ready => exact .readyAtOnce
  | readyAtOnce =>
      cases h' with
      | same => exact .readyAtOnce
  | ready =>
      cases h' with
      | same => exact .ready

namespace Gate

/-- What a call does. -/
def answer (g : Gate) : GateCall → Gate
  | .register k => g.register k
  | .start => g.start
  | .markSynced k => g.markSynced k
  | .arrive => g.arrive

/-- The gate after some calls, of which the last one comes first. -/
def after : List GateCall → Gate
  | [] => new
  | c :: calls => (after calls).answer c

/-! ## What a history says -/

section History

variable {k : String} {c : GateCall} {calls recent : List GateCall}

/-- A kind is registered, and `recent` are the calls since then. After a start nothing is
registered any more. -/
def RegisteredSince (k : String) (recent calls : List GateCall) : Prop :=
  ∃ before, calls = recent ++ .register k :: before ∧ .start ∉ before

/-- A kind is registered. -/
def Registered (k : String) (calls : List GateCall) : Prop :=
  ∃ recent, RegisteredSince k recent calls

/-- The calls `recent` are those since the last registration of a kind. -/
structure LastRegistration (k : String) (recent calls : List GateCall) : Prop where
  /-- The kind is registered. -/
  registered : RegisteredSince k recent calls
  /-- No registration of it comes later. -/
  last : ∀ r, RegisteredSince k r calls → recent <+: r

/-- A kind has been marked since it was last registered. -/
def MarkedSince (k : String) (calls : List GateCall) : Prop :=
  ∃ recent, LastRegistration k recent calls ∧ .markSynced k ∈ recent

/-- A kind has been registered and not been marked since. -/
def Owed (k : String) (calls : List GateCall) : Prop :=
  ∃ recent, RegisteredSince k recent calls ∧ .markSynced k ∉ recent

theorem registeredSince_cons : RegisteredSince k recent (c :: calls) ↔
    (recent = [] ∧ c = .register k ∧ .start ∉ calls) ∨
      ∃ r, recent = c :: r ∧ RegisteredSince k r calls := by
  constructor
  · rintro ⟨before, heq, hbefore⟩
    cases recent with
    | nil =>
        obtain ⟨rfl, rfl⟩ := List.cons.inj heq
        exact Or.inl ⟨rfl, rfl, hbefore⟩
    | cons x r =>
        obtain ⟨rfl, rfl⟩ := List.cons.inj heq
        exact Or.inr ⟨r, rfl, before, rfl, hbefore⟩
  · rintro (⟨rfl, rfl, hstart⟩ | ⟨r, rfl, before, rfl, hbefore⟩)
    · exact ⟨calls, rfl, hstart⟩
    · exact ⟨before, rfl, hbefore⟩

@[simp] theorem not_owed_nil : ¬ Owed k [] := by
  rintro ⟨recent, ⟨before, heq, -⟩, -⟩
  exact List.append_ne_nil_of_right_ne_nil recent (List.cons_ne_nil _ _) heq.symm

/-- The last call registers the kind, or it does not mark it and the kind was owed before. -/
theorem owed_cons : Owed k (c :: calls) ↔
    (c = .register k ∧ .start ∉ calls) ∨ (c ≠ .markSynced k ∧ Owed k calls) := by
  constructor
  · rintro ⟨recent, hreg, hmark⟩
    rcases registeredSince_cons.1 hreg with ⟨-, hc, hstart⟩ | ⟨r, rfl, hr⟩
    · exact Or.inl ⟨hc, hstart⟩
    · rw [List.mem_cons, not_or] at hmark
      exact Or.inr ⟨Ne.symm hmark.1, r, hr, hmark.2⟩
  · rintro (⟨hc, hstart⟩ | ⟨hc, r, hr, hmark⟩)
    · exact ⟨[], registeredSince_cons.2 (Or.inl ⟨rfl, hc, hstart⟩), List.not_mem_nil⟩
    · refine ⟨c :: r, registeredSince_cons.2 (Or.inr ⟨r, rfl, hr⟩), ?_⟩
      rw [List.mem_cons, not_or]
      exact ⟨Ne.symm hc, hmark⟩

@[simp] theorem owed_register {j : String} :
    Owed j (.register k :: calls) ↔ (j = k ∧ .start ∉ calls) ∨ Owed j calls := by
  simp [owed_cons, eq_comm]

@[simp] theorem owed_start : Owed k (.start :: calls) ↔ Owed k calls := by
  simp [owed_cons]

@[simp] theorem owed_markSynced {j : String} :
    Owed j (.markSynced k :: calls) ↔ j ≠ k ∧ Owed j calls := by
  simp [owed_cons, eq_comm]

@[simp] theorem owed_arrive : Owed k (.arrive :: calls) ↔ Owed k calls := by
  simp [owed_cons]

/-- A kind that is registered has a last registration. -/
theorem Registered.exists_last (h : Registered k calls) :
    ∃ recent, LastRegistration k recent calls := by
  induction calls with
  | nil =>
      obtain ⟨recent, before, heq, -⟩ := h
      exact absurd heq.symm (List.append_ne_nil_of_right_ne_nil recent (List.cons_ne_nil _ _))
  | cons c calls ih =>
      obtain ⟨recent, hreg⟩ := h
      by_cases hnow : c = .register k ∧ .start ∉ calls
      · exact ⟨[], registeredSince_cons.2 (Or.inl ⟨rfl, hnow⟩), fun r _ => List.nil_prefix⟩
      · -- The last call registers nothing, so every registration is one of the earlier calls.
        have hearlier : ∀ {r}, RegisteredSince k r (c :: calls) →
            ∃ s, r = c :: s ∧ RegisteredSince k s calls := fun hr =>
          (registeredSince_cons.1 hr).resolve_left fun hall => hnow hall.2
        obtain ⟨s, -, hs⟩ := hearlier hreg
        obtain ⟨l, hl⟩ := ih ⟨s, hs⟩
        refine ⟨c :: l, registeredSince_cons.2 (Or.inr ⟨l, rfl, hl.registered⟩), fun r hr => ?_⟩
        obtain ⟨s, rfl, hs⟩ := hearlier hr
        exact (List.prefix_cons_inj c).2 (hl.last s hs)

theorem owed_iff : Owed k calls ↔ Registered k calls ∧ ¬ MarkedSince k calls := by
  constructor
  · rintro ⟨recent, hreg, hmark⟩
    refine ⟨⟨recent, hreg⟩, ?_⟩
    rintro ⟨l, hlast, hmem⟩
    exact hmark ((hlast.last recent hreg).subset hmem)
  · rintro ⟨hreg, hmark⟩
    obtain ⟨l, hl⟩ := hreg.exists_last
    exact ⟨l, hl.registered, fun hmem => hmark ⟨l, hl, hmem⟩⟩

theorem not_owed_iff : ¬ Owed k calls ↔ (Registered k calls → MarkedSince k calls) := by
  rw [owed_iff, not_and, not_not]

end History

/-! ## What a call can do -/

variable {g g' : Gate} {c : GateCall} {calls : List GateCall} {k : String}

/-- What a call can do to the gate. -/
inductive Turn (g : Gate) : GateCall → Gate → Prop where
  | registered {k : String} (early : g.state = .uninitialized) :
      Turn g (.register k) { g with pending := g.pending.insert k }
  | late {k : String} (started : g.state ≠ .uninitialized) : Turn g (.register k) g
  | closed {k : String} (early : g.state = .uninitialized) (mem : k ∈ g.pending) :
      Turn g .start { g with state := .syncing }
  | opened (early : g.state = .uninitialized) (none : ∀ k, k ∉ g.pending) :
      Turn g .start g.unlock
  | again (started : g.state ≠ .uninitialized) : Turn g .start g
  | unknown {k : String} (notMem : k ∉ g.pending) : Turn g (.markSynced k) g
  | marked {k : String} (mem : k ∈ g.pending)
      (closed : g.state = .syncing → ∃ j ∈ g.pending, j ≠ k) :
      Turn g (.markSynced k) { g with pending := g.pending.erase k }
  | completed {k : String} (mem : k ∈ g.pending) (syncing : g.state = .syncing)
      (only : ∀ j ∈ g.pending, j = k) :
      Turn g (.markSynced k) (unlock { g with pending := g.pending.erase k })
  | waits (closed : g.state ≠ .ready) : Turn g .arrive { g with waiting := g.waiting + 1 }
  | passes (opened : g.state = .ready) : Turn g .arrive { g with passed := g.passed + 1 }

theorem turn_start : g.Turn .start g.start := by
  rw [start]
  split
  · next hstate =>
      split
      · next hempty => exact .opened hstate (NameSet.isEmpty_iff.1 hempty)
      · next hsome =>
          rw [NameSet.isEmpty_iff, not_forall_not] at hsome
          obtain ⟨k, hk⟩ := hsome
          exact .closed hstate hk
  · next hstate => exact .again hstate

theorem turn_markSynced : g.Turn (.markSynced k) (g.markSynced k) := by
  rw [markSynced]
  split
  · next hhas =>
      have hmem := NameSet.has_iff.1 hhas
      dsimp only
      split
      · next hopens =>
          rw [Bool.and_eq_true, NameSet.isEmpty_iff, decide_eq_true_iff] at hopens
          refine .completed hmem hopens.2 fun j hj => ?_
          by_contra hne
          exact hopens.1 j (NameSet.mem_erase.2 ⟨hj, hne⟩)
      · next hstays =>
          refine .marked hmem fun hsync => ?_
          rw [Bool.and_eq_true, NameSet.isEmpty_iff, decide_eq_true_iff] at hstays
          by_contra hnone
          refine hstays ⟨fun j hj => hnone ?_, hsync⟩
          exact ⟨j, NameSet.mem_erase.1 hj⟩
  · next hnot => exact .unknown fun hmem => hnot (NameSet.has_iff.2 hmem)

/-- Every call does one of these things. -/
theorem turn_answer : g.Turn c (g.answer c) := by
  cases c with
  | register k =>
      change g.Turn _ (g.register k)
      rw [register]
      split
      · next hstate => exact .registered hstate
      · next hstate => exact .late hstate
  | start => exact turn_start
  | markSynced k => exact turn_markSynced
  | arrive =>
      change g.Turn _ g.arrive
      rw [arrive]
      split
      · next hready => exact .passes (isReady_iff.1 hready)
      · next hready => exact .waits (mt isReady_iff.2 hready)

/-- The state only moves on. -/
theorem Turn.next (h : g.Turn c g') : g.state.Next g'.state := by
  cases h with
  | closed early _ => exact early ▸ .syncing
  | opened early _ => exact early ▸ .readyAtOnce
  | completed _ syncing _ => exact syncing ▸ .ready
  | _ => exact .same _

/-! ## Reading the gate off its history -/

/-- The gate is what its history says. -/
structure Reads (g : Gate) (calls : List GateCall) : Prop where
  /-- Without a start kinds are being registered. -/
  unstarted : g.state = .uninitialized ↔ .start ∉ calls
  /-- The gate is open if it has been started and nothing is pending. -/
  opened : g.state = .ready ↔ .start ∈ calls ∧ ∀ k, k ∉ g.pending
  /-- The pending kinds are those that are owed a mark. -/
  pending : ∀ k, k ∈ g.pending ↔ Owed k calls
  /-- All who came have passed an open gate, and nobody has passed a closed one. -/
  passed : g.passed = if g.state = .ready then calls.count .arrive else 0
  /-- All who came wait at a closed gate, and nobody waits at an open one. -/
  waiting : g.waiting = if g.state = .ready then 0 else calls.count .arrive

namespace Reads

theorem new : Gate.new.Reads [] where
  unstarted := by simp [Gate.new]
  opened := by simp [Gate.new]
  pending k := by simp [Gate.new, NameSet.empty, NameSet.mem_iff]
  passed := rfl
  waiting := rfl

/-- The gate need not change for a call that the history does not notice. -/
theorem cons (h : g.Reads calls) (hstart : c = .start → .start ∈ calls)
    (howed : ∀ k, Owed k (c :: calls) ↔ Owed k calls) (harrive : c ≠ .arrive) :
    g.Reads (c :: calls) := by
  have hcount : (c :: calls).count .arrive = calls.count .arrive := List.count_cons_of_ne harrive
  have hmem : .start ∈ c :: calls ↔ .start ∈ calls := by
    rw [List.mem_cons]
    exact ⟨fun hor => hor.elim (fun heq => hstart heq.symm) id, Or.inr⟩
  exact {
    unstarted := by rw [hmem]; exact h.unstarted
    opened := by rw [hmem]; exact h.opened
    pending := fun k => (h.pending k).trans (howed k).symm
    passed := by rw [hcount]; exact h.passed
    waiting := by rw [hcount]; exact h.waiting }

theorem start_mem (h : g.Reads calls) (hstate : g.state ≠ .uninitialized) : .start ∈ calls := by
  by_contra hnot
  exact hstate (h.unstarted.2 hnot)

/-- A call leaves the gate what the history says. -/
theorem turn (h : g.Reads calls) (ht : g.Turn c g') : g'.Reads (c :: calls) := by
  cases ht with
  | @registered k early =>
      have hstart := h.unstarted.1 early
      exact {
        unstarted := by simp [early, hstart]
        opened := by simp [early, hstart]
        pending := fun j => by simp [h.pending, hstart]
        passed := by simp [h.passed, early]
        waiting := by simp [h.waiting, early] }
  | @late k started =>
      have hstart := h.start_mem started
      exact h.cons (fun _ => hstart) (fun j => by simp [hstart]) (by simp)
  | closed early mem =>
      exact {
        unstarted := by simp
        opened := by simpa using ⟨_, mem⟩
        pending := fun j => by simp [h.pending]
        passed := by simp [h.passed, early]
        waiting := by simp [h.waiting, early] }
  | opened early none =>
      exact {
        unstarted := by simp [unlock]
        opened := by simpa [unlock] using none
        pending := fun j => by simp [unlock, h.pending]
        passed := by simp [unlock, h.passed, h.waiting, early]
        waiting := by simp [unlock] }
  | again started =>
      exact h.cons (fun _ => h.start_mem started) (fun j => owed_start) (by simp)
  | @unknown k notMem =>
      refine h.cons (by simp) (fun j => ?_) (by simp)
      rw [owed_markSynced, ← h.pending]
      exact ⟨And.right, fun hj => ⟨fun heq => notMem (heq ▸ hj), hj⟩⟩
  | @marked k mem closed =>
      exact {
        unstarted := by simp [h.unstarted]
        opened := by
          constructor
          · intro hready
            exact absurd mem ((h.opened.1 hready).2 k)
          · rintro ⟨hstart, hnone⟩
            cases hstate : g.state with
            | uninitialized =>
                have hearlier := (List.mem_cons.1 hstart).resolve_left (by simp)
                exact absurd hearlier (h.unstarted.1 hstate)
            | syncing =>
                obtain ⟨j, hj, hne⟩ := closed hstate
                exact absurd (NameSet.mem_erase.2 ⟨hj, hne⟩) (hnone j)
            | ready => rfl
        pending := fun j => by simp [h.pending, and_comm]
        passed := by simp [h.passed]
        waiting := by simp [h.waiting] }
  | @completed k mem syncing only =>
      have hstart : .start ∈ calls := h.start_mem (by rw [syncing]; decide)
      exact {
        unstarted := by simp [unlock, hstart]
        opened := by simpa [unlock, hstart] using only
        pending := fun j => by simp [unlock, h.pending, and_comm]
        passed := by simp [unlock, h.passed, h.waiting, syncing]
        waiting := by simp [unlock] }
  | waits closed =>
      exact {
        unstarted := by simp [h.unstarted]
        opened := by simp [h.opened]
        pending := fun j => by simp [h.pending]
        passed := by simp [h.passed, closed]
        waiting := by simp [h.waiting, closed] }
  | passes opened =>
      exact {
        unstarted := by simp [h.unstarted]
        opened := by simp [h.opened]
        pending := fun j => by simp [h.pending]
        passed := by simp [h.passed, opened]
        waiting := by simp [h.waiting, opened] }

/-- After any calls the gate is what they say. -/
theorem after (calls : List GateCall) : (Gate.after calls).Reads calls := by
  induction calls with
  | nil => exact .new
  | cons c calls ih => exact ih.turn turn_answer

end Reads

/-! ## Calls that are not noticed -/

theorem register_of_started (h : g.state ≠ .uninitialized) : g.register k = g := if_neg h

theorem start_of_started (h : g.state ≠ .uninitialized) : g.start = g := if_neg h

theorem markSynced_of_notMem (h : k ∉ g.pending) : g.markSynced k = g :=
  if_neg (mt NameSet.has_iff.1 h)

/-- Over any calls the state only moves on. -/
theorem next_after (more calls : List GateCall) :
    (after calls).state.Next (after (more ++ calls)).state := by
  induction more with
  | nil => exact .same _
  | cons c more ih => exact ih.trans turn_answer.next

/-- Whatever the gate is called for, its state only moves on. Kinds are registered until the first
start. The gate is open once it has been started and every kind that was registered before has
been marked after its last registration; the other such kinds are the pending ones. All who ever
came have passed if the gate is open, and all of them wait if it is not. After the start nothing
is registered or started, and a kind that is not pending cannot be marked. -/
theorem gate_reads_history (calls : List GateCall) :
    ((after calls).state = .uninitialized ↔ .start ∉ calls) ∧
      ((after calls).state = .ready ↔
        .start ∈ calls ∧ ∀ k, Registered k calls → MarkedSince k calls) ∧
      (∀ k, k ∈ (after calls).pending ↔ Registered k calls ∧ ¬ MarkedSince k calls) ∧
      ((after calls).passed = if (after calls).isReady then calls.count .arrive else 0) ∧
      ((after calls).waiting = if (after calls).isReady then 0 else calls.count .arrive) ∧
      (∀ more, (after calls).state.Next (after (more ++ calls)).state) ∧
      (.start ∈ calls → ∀ k, after (.register k :: calls) = after calls) ∧
      (.start ∈ calls → after (.start :: calls) = after calls) ∧
      ∀ k, (Registered k calls → MarkedSince k calls) →
        after (.markSynced k :: calls) = after calls := by
  have h := Reads.after calls
  have hpending : ∀ k, k ∈ (after calls).pending ↔ Registered k calls ∧ ¬ MarkedSince k calls :=
    fun k => (h.pending k).trans owed_iff
  have hnone : (∀ k, k ∉ (after calls).pending) ↔
      ∀ k, Registered k calls → MarkedSince k calls :=
    forall_congr' fun k => (not_congr (h.pending k)).trans not_owed_iff
  have hstarted : .start ∈ calls → (after calls).state ≠ .uninitialized :=
    fun hmem hstate => h.unstarted.1 hstate hmem
  refine ⟨h.unstarted, h.opened.trans (and_congr_right' hnone), hpending, ?_, ?_,
    fun more => next_after more calls, fun hmem k => register_of_started (hstarted hmem),
    fun hmem => start_of_started (hstarted hmem), fun k hk => ?_⟩
  · simp only [isReady_iff, h.passed]
  · simp only [isReady_iff, h.waiting]
  · exact markSynced_of_notMem fun hmem => not_owed_iff.2 hk ((h.pending k).1 hmem)

/-- A kind that was marked and registered again holds the gate up. It is opened by another mark,
both before and after which somebody comes. -/
theorem gate_reads_history_registeredAgain :
    let marked : List GateCall := [.register "Late", .start, .arrive, .register "Secret",
      .markSynced "Secret", .register "Secret"]
    (after marked).state = .syncing ∧ (after marked).pending.toList = ["Secret"] ∧
      after (.start :: marked) = after marked ∧
      (after (.arrive :: .markSynced "Secret" :: marked)).state = .ready ∧
      (after (.arrive :: .markSynced "Secret" :: marked)).passed = 2 := by
  intro marked
  refine ⟨by decide, by decide, ?_, by decide, by decide⟩
  exact (gate_reads_history marked).2.2.2.2.2.2.2.1 (by decide)

end Gate

end IngressTls
