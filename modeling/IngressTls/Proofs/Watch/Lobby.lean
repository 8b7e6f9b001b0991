import IngressTls.Proofs.Gate
import IngressTls.Proofs.Watch.Replay
import IngressTls.Watch.Dispatch

set_option autoImplicit false

/-! # Dispatches at the gate

Every watched kind has a dispatch of its own, and they all wait at one gate. A `Lobby` is the gate
with the dispatches of the kinds that have been registered so far. Events come in any order: kinds
are registered, even after others have been listed, the gate is started, items of the watches
arrive, and changes are handed over. A handler takes its time, so changes are handed over one by
one, and the other dispatches go on meanwhile. A dispatch can leave at any moment: it is cancelled
while it listens or waits at the gate, or it is given up amid the changes that it hands over.

A kind goes by its name, so that no two dispatches are of the same kind. The objects of different
kinds are of different types.

Main statements: `Sound.after` and `handed_behind_gate`.
-/

namespace IngressTls

/-! ## Dispatches at work -/

/-- The dispatch of a kind at work. -/
structure DispatchTask (α : Type) where
  /-- Where it stands. -/
  dispatch : Dispatch α
  /-- The changes that it is about to hand over. -/
  outgoing : List (Change α)
  /-- The events that its watch has taken, in order. -/
  taken : List (WatchEvent α)
  /-- The changes that it has handed over, in order. -/
  handed : List (Change α)

namespace DispatchTask

variable {α : Type}

/-- The dispatch of a kind that has seen nothing. -/
def new (kind : String) : DispatchTask α := ⟨.new kind, [], [], []⟩

/-- Whether the dispatch is back waiting for the next item of its watch. -/
def isListening (t : DispatchTask α) : Bool := t.dispatch.isListening && t.outgoing.isEmpty

/-- The event of an item, if the watch can take it. -/
def eventOf (metadata : α → Metadata) : WatchItem α → List (WatchEvent α)
  | .event e => if KindWatch.canTake metadata e then [e] else []
  | .error | .ended => []

/-- An item of the watch arrives; the result holds the gate. -/
def take (t : DispatchTask α) (metadata : α → Metadata) (gate : Gate) (item : WatchItem α) :
    DispatchTask α × Gate :=
  let r := t.dispatch.take metadata gate item
  (⟨r.1, r.2.2, t.taken ++ eventOf metadata item, t.handed⟩, r.2.1)

/-- The dispatch passes the gate, with the changes that it has held back. -/
def pass (t : DispatchTask α) (gate : Gate) : DispatchTask α :=
  let r := t.dispatch.pass gate
  { t with dispatch := r.1, outgoing := r.2 }

/-- The dispatch leaves; what it has not handed over is lost. -/
def leave (t : DispatchTask α) : DispatchTask α :=
  { t with dispatch := t.dispatch.cancel, outgoing := [] }

/-! ## What an item can do -/

variable {metadata : α → Metadata} {t t' : DispatchTask α} {gate gate' : Gate}
  {item : WatchItem α}

/-- What an item does to a dispatch that listens. -/
inductive Took (metadata : α → Metadata) (t : DispatchTask α) (gate : Gate) :
    DispatchTask α → Gate → Prop where
  | error : Took metadata t gate t gate
  | stopped : Took metadata t gate { t with dispatch := t.dispatch.cancel } gate
  | live {e : WatchEvent α} {w : KindWatch α} {cs : List (Change α)}
      (phase : t.dispatch.phase = .live)
      (takes : t.dispatch.watch.take? metadata e = some (w, cs)) :
      Took metadata t gate
        ⟨{ t.dispatch with watch := w }, cs, t.taken ++ [e], t.handed⟩ gate
  | heldBack {e : WatchEvent α} {w : KindWatch α} {cs : List (Change α)}
      (phase : t.dispatch.phase = .syncing) (unfinished : e ≠ .listingDone)
      (takes : t.dispatch.watch.take? metadata e = some (w, cs)) :
      Took metadata t gate
        ⟨{ t.dispatch with watch := w, heldBack := t.dispatch.heldBack ++ cs }, [], t.taken ++ [e],
          t.handed⟩ gate
  | listed {w : KindWatch α} {cs : List (Change α)} (phase : t.dispatch.phase = .syncing)
      (takes : t.dispatch.watch.take? metadata .listingDone = some (w, cs)) :
      Took metadata t gate
        ⟨⟨t.dispatch.kind, w, t.dispatch.heldBack ++ cs, .waiting⟩, [],
          t.taken ++ [.listingDone], t.handed⟩ (gate.markSynced t.dispatch.kind)

/-- Every item does one of these things. -/
theorem took_of_take (h : t.isListening = true) :
    t.Took metadata gate (t.take metadata gate item).1 (t.take metadata gate item).2 := by
  obtain ⟨⟨kind, w, heldBack, phase⟩, outgoing, taken, handed⟩ := t
  rw [isListening, Bool.and_eq_true, List.isEmpty_iff] at h
  obtain ⟨hlisten, rfl⟩ := h
  cases item with
  | error =>
      rw [take, eventOf, List.append_nil]
      exact .error
  | ended =>
      rw [take, eventOf, List.append_nil]
      exact .stopped
  | event e =>
      cases htake : w.take? metadata e with
      | none =>
          have hcannot : KindWatch.canTake metadata e = false := by
            by_contra hcan
            rw [Bool.not_eq_false] at hcan
            rw [KindWatch.take?, if_pos hcan] at htake
            cases htake
          simp only [take, Dispatch.take, htake, eventOf, hcannot]
          rw [if_neg Bool.false_ne_true, List.append_nil]
          exact .stopped
      | some p =>
          have hcan : KindWatch.canTake metadata e = true :=
            (Option.ite_none_right_eq_some.1 htake).1
          simp only [take, Dispatch.take, htake, eventOf, hcan, if_true]
          cases phase with
          | syncing =>
              cases e with
              | listingDone => exact .listed rfl htake
              | _ => exact .heldBack rfl (by simp) htake
          | live => exact .live rfl htake
          | waiting => cases hlisten
          | stopped => cases hlisten

/-- The events that a watch has taken stay taken. -/
theorem Took.taken_subset (h : t.Took metadata gate t' gate') : t.taken ⊆ t'.taken := by
  cases h with
  | error => exact List.Subset.refl _
  | stopped => exact List.Subset.refl _
  | _ => exact List.subset_append_left _ _

/-- An item leaves the gate alone, or it completes the first listing and marks the kind. -/
theorem Took.gate_cases (h : t.Took metadata gate t' gate') :
    gate' = gate ∨ gate' = gate.markSynced t.dispatch.kind ∧ .listingDone ∈ t'.taken := by
  cases h with
  | listed phase takes =>
      exact Or.inr ⟨rfl, List.mem_append_right _ (List.mem_singleton_self _)⟩
  | _ => exact Or.inl rfl

/-! ## What a dispatch has handed over -/

/-- Where a dispatch stands whose watch has brought some changes. -/
inductive Stands (gate : Gate) (t : DispatchTask α) (cs : List (Change α)) : Prop where
  | syncing (phase : t.dispatch.phase = .syncing) (unlisted : .listingDone ∉ t.taken)
      (heldBack : t.dispatch.heldBack = cs) (idle : t.outgoing = []) (nothing : t.handed = [])
  | waiting (phase : t.dispatch.phase = .waiting) (heldBack : t.dispatch.heldBack = cs)
      (idle : t.outgoing = []) (nothing : t.handed = [])
  | live (phase : t.dispatch.phase = .live) (opened : gate.state = .ready)
      (split : t.handed ++ t.outgoing = cs)
  | stopped (phase : t.dispatch.phase = .stopped) (idle : t.outgoing = [])
      (part : t.handed <+: cs)

/-- What a dispatch has handed over comes first among the changes of its watch. -/
theorem Stands.handed_prefix {cs : List (Change α)} (h : t.Stands gate cs) : t.handed <+: cs := by
  cases h with
  | syncing phase unlisted heldBack idle nothing => exact nothing ▸ List.nil_prefix
  | waiting phase heldBack idle nothing => exact nothing ▸ List.nil_prefix
  | live phase opened split => exact ⟨t.outgoing, split⟩
  | stopped phase idle part => exact part

/-- The gate may be opened meanwhile. -/
theorem Stands.mono {cs : List (Change α)} (h : t.Stands gate cs)
    (hgate : gate.state = .ready → gate'.state = .ready) : t.Stands gate' cs := by
  cases h with
  | syncing phase unlisted heldBack idle nothing =>
      exact .syncing phase unlisted heldBack idle nothing
  | waiting phase heldBack idle nothing => exact .waiting phase heldBack idle nothing
  | live phase opened split => exact .live phase (hgate opened) split
  | stopped phase idle part => exact .stopped phase idle part

/-- What holds of a dispatch at every moment. -/
structure Sound (metadata : α → Metadata) (kind : String) (gate : Gate) (t : DispatchTask α) :
    Prop where
  /-- It is of its kind. -/
  kind : t.dispatch.kind = kind
  /-- Its watch is the result of the events that it has taken, and the dispatch stands where
  their changes tell. -/
  stands : ∃ cs, KindWatch.new.run? metadata t.taken = some (t.dispatch.watch, cs) ∧
    t.Stands gate cs

namespace Sound

variable {kind : String}

theorem new : Sound metadata kind gate (DispatchTask.new kind : DispatchTask α) where
  kind := rfl
  stands := ⟨[], rfl, .syncing rfl List.not_mem_nil rfl rfl rfl⟩

theorem mono (h : t.Sound metadata kind gate)
    (hgate : gate.state = .ready → gate'.state = .ready) : t.Sound metadata kind gate' := by
  obtain ⟨cs, hrun, hstands⟩ := h.stands
  exact ⟨h.kind, cs, hrun, hstands.mono hgate⟩

theorem took (h : t.Sound metadata kind gate) (hlisten : t.isListening = true)
    (htook : t.Took metadata gate t' gate') : t'.Sound metadata kind gate' := by
  obtain ⟨cs, hrun, hstands⟩ := h.stands
  have hmore : ∀ {e w ds}, t.dispatch.watch.take? metadata e = some (w, ds) →
      KindWatch.new.run? metadata (t.taken ++ [e]) = some (w, cs ++ ds) := by
    intro e w ds htake
    rw [KindWatch.run?_append, hrun, Option.bind_some, KindWatch.run?, htake]
    simp [KindWatch.run?]
  rw [isListening, Bool.and_eq_true, List.isEmpty_iff] at hlisten
  obtain ⟨-, hidle⟩ := hlisten
  cases htook with
  | error => exact h
  | stopped => exact ⟨h.kind, cs, hrun, .stopped rfl hidle hstands.handed_prefix⟩
  | @live e w ds phase takes =>
      refine ⟨h.kind, cs ++ ds, hmore takes, ?_⟩
      cases hstands with
      | live _ opened split =>
          rw [hidle, List.append_nil] at split
          exact .live phase opened (split ▸ rfl)
      | syncing phase' => cases phase.symm.trans phase'
      | waiting phase' => cases phase.symm.trans phase'
      | stopped phase' => cases phase.symm.trans phase'
  | @heldBack e w ds phase unfinished takes =>
      refine ⟨h.kind, cs ++ ds, hmore takes, ?_⟩
      cases hstands with
      | syncing _ unlisted heldBack _ nothing =>
          refine .syncing phase (fun hmem => ?_) (heldBack ▸ rfl) rfl nothing
          rcases List.mem_append.1 hmem with hmem | hmem
          · exact unlisted hmem
          · exact unfinished (List.mem_singleton.1 hmem).symm
      | live phase' => cases phase.symm.trans phase'
      | waiting phase' => cases phase.symm.trans phase'
      | stopped phase' => cases phase.symm.trans phase'
  | @listed w ds phase takes =>
      refine ⟨h.kind, cs ++ ds, hmore takes, ?_⟩
      cases hstands with
      | syncing _ unlisted heldBack _ nothing => exact .waiting rfl (heldBack ▸ rfl) rfl nothing
      | live phase' => cases phase.symm.trans phase'
      | waiting phase' => cases phase.symm.trans phase'
      | stopped phase' => cases phase.symm.trans phase'

theorem passed (h : t.Sound metadata kind gate) (hwaiting : t.dispatch.phase = .waiting)
    (hready : gate.isReady = true) : (t.pass gate).Sound metadata kind gate := by
  obtain ⟨cs, hrun, hstands⟩ := h.stands
  have hpass : t.pass gate =
      { t with
        dispatch := { t.dispatch with phase := .live, heldBack := [] }
        outgoing := t.dispatch.heldBack } := by
    simp [pass, Dispatch.pass, hwaiting, hready]
  rw [hpass]
  refine ⟨h.kind, cs, hrun, ?_⟩
  cases hstands with
  | waiting _ heldBack _ nothing =>
      refine .live rfl (Gate.isReady_iff.1 hready) ?_
      show t.handed ++ t.dispatch.heldBack = cs
      rw [nothing, List.nil_append, heldBack]
  | syncing phase' => cases hwaiting.symm.trans phase'
  | live phase' => cases hwaiting.symm.trans phase'
  | stopped phase' => cases hwaiting.symm.trans phase'

theorem handed {c : Change α} {cs : List (Change α)} (h : t.Sound metadata kind gate)
    (houtgoing : t.outgoing = c :: cs) :
    Sound metadata kind gate { t with outgoing := cs, handed := t.handed ++ [c] } := by
  obtain ⟨ds, hrun, hstands⟩ := h.stands
  refine ⟨h.kind, ds, hrun, ?_⟩
  cases hstands with
  | live phase opened split =>
      rw [houtgoing] at split
      exact .live phase opened (by simp [← split])
  | syncing _ _ _ idle => cases houtgoing.symm.trans idle
  | waiting _ _ idle => cases houtgoing.symm.trans idle
  | stopped _ idle => cases houtgoing.symm.trans idle

theorem left (h : t.Sound metadata kind gate) : t.leave.Sound metadata kind gate := by
  obtain ⟨cs, hrun, hstands⟩ := h.stands
  exact ⟨h.kind, cs, hrun, .stopped rfl rfl hstands.handed_prefix⟩

/-- Only a dispatch that has passed the gate has changes to hand over. -/
theorem opened {c : Change α} {cs : List (Change α)} (h : t.Sound metadata kind gate)
    (houtgoing : t.outgoing = c :: cs) : gate.isReady = true := by
  obtain ⟨ds, -, hstands⟩ := h.stands
  cases hstands with
  | live phase opened split => exact Gate.isReady_iff.2 opened
  | syncing _ _ _ idle => cases houtgoing.symm.trans idle
  | waiting _ _ idle => cases houtgoing.symm.trans idle
  | stopped _ idle => cases houtgoing.symm.trans idle

end Sound

end DispatchTask

/-! ## The lobby -/

/-- The gate, and the dispatches of the kinds that have been registered, each under the name of its
kind. -/
structure Lobby (Obj : String → Type) where
  /-- The gate. -/
  gate : Gate
  /-- The dispatches. -/
  tasks : (kind : String) → Option (DispatchTask (Obj kind))

/-- What happens next. -/
inductive LobbyEvent (Obj : String → Type) where
  /-- A kind is registered, and its dispatch begins. -/
  | watch (kind : String)
  /-- The gate is started. -/
  | start
  /-- An item of a watch arrives. -/
  | take (kind : String) (item : WatchItem (Obj kind))
  /-- A dispatch passes the gate. -/
  | pass (kind : String)
  /-- A dispatch hands a change to its handler. -/
  | hand (kind : String)
  /-- A dispatch leaves. -/
  | leave (kind : String)

namespace Lobby

variable {Obj : String → Type} {metadata : (kind : String) → Obj kind → Metadata}
  {l l' : Lobby Obj} {es : List (LobbyEvent Obj)} {e : LobbyEvent Obj} {k : String}

/-- Nothing has been registered. -/
def new : Lobby Obj := ⟨.new, fun _ => none⟩

/-- A dispatch goes on. -/
def setTask (l : Lobby Obj) (k : String) (t : DispatchTask (Obj k)) : Lobby Obj :=
  { l with tasks := Function.update l.tasks k (some t) }

/-- What an event does, if it can happen. -/
def step? (metadata : (kind : String) → Obj kind → Metadata) (l : Lobby Obj) :
    LobbyEvent Obj → Option (Lobby Obj)
  | .watch k =>
    match l.tasks k with
    | none => some { l.setTask k (.new k) with gate := l.gate.register k }
    | some _ => none
  | .start => some { l with gate := l.gate.start }
  | .take k item =>
    match l.tasks k with
    | some t =>
      if t.isListening then
        let r := t.take (metadata k) l.gate item
        some { l.setTask k r.1 with gate := r.2 }
      else none
    | none => none
  | .pass k =>
    match l.tasks k with
    | some t =>
      if t.dispatch.phase = .waiting ∧ l.gate.isReady then some (l.setTask k (t.pass l.gate))
      else none
    | none => none
  | .hand k =>
    match l.tasks k with
    | some t =>
      match t.outgoing with
      | c :: cs => some (l.setTask k { t with outgoing := cs, handed := t.handed ++ [c] })
      | [] => none
    | none => none
  | .leave k => (l.tasks k).map fun t => l.setTask k t.leave

/-- Events happen one after the other. -/
def run? (metadata : (kind : String) → Obj kind → Metadata) (l : Lobby Obj) :
    List (LobbyEvent Obj) → Option (Lobby Obj)
  | [] => some l
  | e :: es => (l.step? metadata e).bind fun l' => l'.run? metadata es

/-- What an event does to the lobby. -/
inductive Turn (metadata : (kind : String) → Obj kind → Metadata) (l : Lobby Obj) :
    LobbyEvent Obj → Lobby Obj → Prop where
  | watched {k : String} (unknown : l.tasks k = none) :
      Turn metadata l (.watch k) { l.setTask k (.new k) with gate := l.gate.register k }
  | started : Turn metadata l .start { l with gate := l.gate.start }
  | took {k : String} {item : WatchItem (Obj k)} {t t' : DispatchTask (Obj k)} {gate : Gate}
      (there : l.tasks k = some t) (listening : t.isListening = true)
      (takes : t.Took (metadata k) l.gate t' gate) :
      Turn metadata l (.take k item) { l.setTask k t' with gate := gate }
  | passed {k : String} {t : DispatchTask (Obj k)} (there : l.tasks k = some t)
      (waiting : t.dispatch.phase = .waiting) (opened : l.gate.isReady = true) :
      Turn metadata l (.pass k) (l.setTask k (t.pass l.gate))
  | handed {k : String} {t : DispatchTask (Obj k)} {c : Change (Obj k)}
      {cs : List (Change (Obj k))} (there : l.tasks k = some t)
      (outgoing : t.outgoing = c :: cs) :
      Turn metadata l (.hand k) (l.setTask k { t with outgoing := cs, handed := t.handed ++ [c] })
  | left {k : String} {t : DispatchTask (Obj k)} (there : l.tasks k = some t) :
      Turn metadata l (.leave k) (l.setTask k t.leave)

/-- Every step is one of the turns. -/
theorem turn_of_step? (h : l.step? metadata e = some l') : Turn metadata l e l' := by
  cases e with
  | watch k =>
      rw [step?] at h
      split at h
      · next hnone =>
          cases h
          exact .watched hnone
      · cases h
  | start =>
      cases h
      exact .started
  | take k item =>
      rw [step?] at h
      split at h
      · next t ht =>
          split at h
          · next hlisten =>
              cases h
              exact .took ht hlisten (DispatchTask.took_of_take hlisten)
          · cases h
      · cases h
  | pass k =>
      rw [step?] at h
      split at h
      · next t ht =>
          split at h
          · next hpass =>
              cases h
              exact .passed ht hpass.1 hpass.2
          · cases h
      · cases h
  | hand k =>
      rw [step?] at h
      split at h
      · next t ht =>
          split at h
          · next c cs hout =>
              cases h
              exact .handed ht hout
          · cases h
      · cases h
  | leave k =>
      obtain ⟨t, ht, rfl⟩ := Option.map_eq_some_iff.1 h
      exact .left ht

/-! ## What holds at every moment -/

/-- A kind was registered before the gate was started. -/
def Registered (k : String) (es : List (LobbyEvent Obj)) : Prop :=
  ∃ before after, es = before ++ .watch k :: after ∧ .start ∉ before

/-- A kind has been listed: its watch has taken the end of a listing. -/
def Listed (l : Lobby Obj) (k : String) : Prop :=
  ∃ t, l.tasks k = some t ∧ .listingDone ∈ t.taken

/-- The last event has registered the kind, or it was registered before. -/
theorem registered_snoc :
    Registered k (es ++ [e]) ↔ Registered k es ∨ (e = .watch k ∧ .start ∉ es) := by
  constructor
  · rintro ⟨before, after, heq, hstart⟩
    rcases List.eq_nil_or_concat after with rfl | ⟨after, x, rfl⟩
    · obtain ⟨rfl, hlast⟩ := List.append_inj' heq rfl
      exact Or.inr ⟨List.singleton_inj.1 hlast, hstart⟩
    · rw [List.concat_eq_append, ← List.cons_append, ← List.append_assoc] at heq
      exact Or.inl ⟨before, after, (List.append_inj' heq rfl).1, hstart⟩
  · rintro (⟨before, after, rfl, hstart⟩ | ⟨rfl, hstart⟩)
    · exact ⟨before, after ++ [e], by simp, hstart⟩
    · exact ⟨es, [], rfl, hstart⟩

/-- What holds of a lobby after some events. -/
structure Sound (metadata : (kind : String) → Obj kind → Metadata) (es : List (LobbyEvent Obj))
    (l : Lobby Obj) : Prop where
  /-- Every dispatch is sound. -/
  tasks : ∀ k t, l.tasks k = some t → t.Sound (metadata k) k l.gate
  /-- The gate waits for kinds as long as it has not been started. -/
  unstarted : .start ∉ es → l.gate.state = .uninitialized
  /-- An open gate waits for no kind. -/
  opened : l.gate.WaitsForNone
  /-- The gate waits for the kinds that were registered in time and have not been listed. -/
  pending : ∀ k, Registered k es → k ∈ l.gate.pending ∨ l.Listed k

/-! ## Tasks -/

theorem tasks_setTask_self (l : Lobby Obj) (k : String) (t : DispatchTask (Obj k)) :
    (l.setTask k t).tasks k = some t :=
  Function.update_self _ _ _

theorem tasks_setTask_ne (l : Lobby Obj) {k j : String} (t : DispatchTask (Obj k)) (h : j ≠ k) :
    (l.setTask k t).tasks j = l.tasks j :=
  Function.update_of_ne h _ _

theorem forall_setTask {P : (k : String) → DispatchTask (Obj k) → Prop} {t : DispatchTask (Obj k)}
    (hk : P k t) (h : ∀ j u, l.tasks j = some u → P j u) :
    ∀ j u, (l.setTask k t).tasks j = some u → P j u := by
  intro j u hu
  by_cases hj : j = k
  · subst hj
    rw [tasks_setTask_self] at hu
    cases hu
    exact hk
  · rw [tasks_setTask_ne l t hj] at hu
    exact h j u hu

/-- A kind that has been listed stays so while dispatches go on. -/
theorem Listed.setTask {j : String} {t t' : DispatchTask (Obj k)} (h : l.Listed j)
    (there : l.tasks k = some t) (htaken : t.taken ⊆ t'.taken) : (l.setTask k t').Listed j := by
  obtain ⟨u, hu, hlisted⟩ := h
  by_cases hj : j = k
  · subst hj
    cases there.symm.trans hu
    exact ⟨t', tasks_setTask_self l j t', htaken hlisted⟩
  · exact ⟨u, (tasks_setTask_ne l t' hj).trans hu, hlisted⟩

namespace Sound

theorem new : Sound metadata [] (Lobby.new : Lobby Obj) where
  tasks _ _ h := nomatch h
  unstarted _ := rfl
  opened := .new
  pending := by
    rintro k ⟨before, after, heq, -⟩
    cases before with
    | nil => cases heq
    | cons e before => cases heq

/-- A dispatch goes on, and the gate is left alone. -/
theorem setTask {t t' : DispatchTask (Obj k)} (h : Sound metadata es l)
    (there : l.tasks k = some t) (hsound : t'.Sound (metadata k) k l.gate)
    (htaken : t.taken ⊆ t'.taken) (hwatch : ∀ j, e ≠ .watch j) :
    Sound metadata (es ++ [e]) (l.setTask k t') where
  tasks := forall_setTask hsound h.tasks
  unstarted hstart := h.unstarted fun hmem => hstart (List.mem_append_left _ hmem)
  opened := h.opened
  pending j hj := by
    rcases registered_snoc.1 hj with hj | ⟨heq, -⟩
    · exact (h.pending j hj).imp_right fun hlisted => hlisted.setTask there htaken
    · exact absurd heq (hwatch j)

theorem watched (h : Sound metadata es l) (unknown : l.tasks k = none) :
    Sound metadata (es ++ [.watch k])
      { l.setTask k (.new k) with gate := l.gate.register k } where
  tasks := by
    have hsame : l.gate.state = .ready → (l.gate.register k).state = .ready :=
      fun hready => Gate.state_register.trans hready
    exact forall_setTask .new fun j u hu => (h.tasks j u hu).mono hsame
  unstarted hstart :=
    Gate.state_register.trans (h.unstarted fun hmem => hstart (List.mem_append_left _ hmem))
  opened := h.opened.register
  pending j hj := by
    rcases registered_snoc.1 hj with hj | ⟨heq, hstart⟩
    · rcases h.pending j hj with hpending | ⟨u, hu, hlisted⟩
      · exact Or.inl (Gate.mem_pending_register.2 (Or.inl hpending))
      · have hne : j ≠ k := by
          rintro rfl
          cases unknown.symm.trans hu
        exact Or.inr ⟨u, (tasks_setTask_ne l _ hne).trans hu, hlisted⟩
    · cases heq
      exact Or.inl (Gate.mem_pending_register.2 (Or.inr ⟨h.unstarted hstart, rfl⟩))

theorem started (h : Sound metadata es l) :
    Sound metadata (es ++ [.start]) { l with gate := l.gate.start } where
  tasks j u hu := (h.tasks j u hu).mono Gate.state_start_of_ready
  unstarted hstart := absurd (List.mem_append_right es (List.mem_singleton_self _)) hstart
  opened := h.opened.start
  pending j hj := by
    rcases registered_snoc.1 hj with hj | ⟨heq, -⟩
    · show j ∈ l.gate.start.pending ∨ l.Listed j
      rw [Gate.pending_start]
      exact h.pending j hj
    · cases heq

/-- The dispatch of a kind that is listed marks it, and the gate no longer waits for the kind. -/
theorem marked {item : WatchItem (Obj k)} {t t' : DispatchTask (Obj k)}
    (h : Sound metadata es l) (there : l.tasks k = some t)
    (hsound : t'.Sound (metadata k) k (l.gate.markSynced k)) (htaken : t.taken ⊆ t'.taken)
    (hlisted : .listingDone ∈ t'.taken) :
    Sound metadata (es ++ [.take k item])
      { l.setTask k t' with gate := l.gate.markSynced k } where
  tasks := forall_setTask hsound fun j u hu =>
    (h.tasks j u hu).mono Gate.state_markSynced_of_ready
  unstarted hstart := by
    have hstate := h.unstarted fun hmem => hstart (List.mem_append_left _ hmem)
    rcases Gate.state_markSynced (g := l.gate) (k := k) with heq | ⟨hsyncing, -⟩
    · exact heq.trans hstate
    · cases hstate.symm.trans hsyncing
  opened := h.opened.markSynced
  pending j hj := by
    rcases registered_snoc.1 hj with hj | ⟨heq, -⟩
    · by_cases hjk : j = k
      · subst hjk
        exact Or.inr ⟨t', tasks_setTask_self l j t', hlisted⟩
      · rcases h.pending j hj with hpending | hother
        · exact Or.inl (Gate.mem_pending_markSynced.2 ⟨hpending, hjk⟩)
        · exact Or.inr (hother.setTask there htaken)
    · cases heq

theorem step (h : Sound metadata es l) (hstep : l.step? metadata e = some l') :
    Sound metadata (es ++ [e]) l' := by
  cases turn_of_step? hstep with
  | watched unknown => exact h.watched unknown
  | started => exact h.started
  | @took k item t t' gate there listening takes =>
      have hsound := (h.tasks k t there).took listening takes
      rcases takes.gate_cases with rfl | ⟨rfl, hlisted⟩
      · exact h.setTask there hsound takes.taken_subset fun j heq => by cases heq
      · rw [(h.tasks k t there).kind] at hsound ⊢
        exact h.marked there hsound takes.taken_subset hlisted
  | @passed k t there waiting opened =>
      exact h.setTask there ((h.tasks k t there).passed waiting opened)
        (List.Subset.refl _) fun j heq => by cases heq
  | @handed k t c cs there outgoing =>
      exact h.setTask there ((h.tasks k t there).handed outgoing)
        (List.Subset.refl _) fun j heq => by cases heq
  | @left k t there =>
      exact h.setTask there (h.tasks k t there).left (List.Subset.refl _) fun j heq => by cases heq

end Sound

theorem Sound.after {before : List (LobbyEvent Obj)} (h : Sound metadata before l)
    (hrun : l.run? metadata es = some l') : Sound metadata (before ++ es) l' := by
  induction es generalizing before l with
  | nil =>
      cases hrun
      rw [List.append_nil]
      exact h
  | cons e es ih =>
      obtain ⟨l₁, hstep, hrest⟩ := Option.bind_eq_some_iff.1 hrun
      have hafter := ih (h.step hstep) hrest
      rw [List.append_assoc] at hafter
      exact hafter

/-- When the gate is open, every kind that was registered in time has been listed. -/
theorem Sound.listed (h : Sound metadata es l) (hready : l.gate.isReady = true)
    (hk : Registered k es) : l.Listed k :=
  (h.pending k hk).resolve_left (h.opened (Gate.isReady_iff.1 hready) k)

/-- Whenever a dispatch hands over a change, the gate is open, and the watch of every kind that was
registered before the start has taken the end of a listing. What a dispatch has handed over are the
first of the changes that the events of its watch have brought, in order. Once the gate is open and
the dispatch of such a kind is back waiting for its next event, it has handed over all of them. -/
theorem handed_behind_gate (hrun : Lobby.new.run? metadata es = some l) :
    (∀ k l', l.step? metadata (.hand k) = some l' →
      l.gate.isReady = true ∧ ∀ j, Registered j es → l.Listed j) ∧
    ∀ k t, l.tasks k = some t →
      ∃ cs, KindWatch.new.run? (metadata k) t.taken = some (t.dispatch.watch, cs) ∧
        t.handed <+: cs ∧
        (Registered k es → l.gate.isReady = true → t.isListening = true → t.handed = cs) := by
  have h : Sound metadata es l := Sound.new.after hrun
  constructor
  · intro k l' hstep
    cases turn_of_step? hstep with
    | @handed _ t c cs there outgoing =>
        have hready := (h.tasks k t there).opened outgoing
        exact ⟨hready, fun j hj => h.listed hready hj⟩
  · intro k t ht
    obtain ⟨cs, htaken, hstands⟩ := (h.tasks k t ht).stands
    refine ⟨cs, htaken, hstands.handed_prefix, fun hk hready hlisten => ?_⟩
    rw [DispatchTask.isListening, Bool.and_eq_true, List.isEmpty_iff] at hlisten
    obtain ⟨hphase, hidle⟩ := hlisten
    cases hstands with
    | syncing phase unlisted =>
        -- the gate would still wait for this kind
        obtain ⟨u, hu, hlisted⟩ := h.listed hready hk
        cases ht.symm.trans hu
        exact absurd hlisted unlisted
    | waiting phase =>
        rw [Dispatch.isListening, phase] at hphase
        cases hphase
    | live phase opened split => rw [← split, hidle, List.append_nil]
    | stopped phase =>
        rw [Dispatch.isListening, phase] at hphase
        cases hphase

/-! ## Two kinds -/

/-- Secrets are listed before ingresses are registered and the gate is started. When ingresses have
been listed as well, both dispatches pass the gate and hand over what they have held back. -/
def twoKinds : List (LobbyEvent fun _ => Metadata) :=
  [.watch "Secret", .take "Secret" (.event (.apply (KindWatch.versionOf "s" "1"))),
    .take "Secret" (.event .listing),
    .take "Secret" (.event (.listed (KindWatch.versionOf "s" "2"))),
    .take "Secret" (.event .listingDone), .watch "Ingress", .start, .take "Ingress" .error,
    .take "Ingress" (.event .listing),
    .take "Ingress" (.event (.listed (KindWatch.versionOf "web" "1"))),
    .take "Ingress" (.event .listingDone), .pass "Secret", .hand "Secret", .pass "Ingress",
    .hand "Ingress"]

/-- While the secrets are being handed over, ingresses have been listed, and all their changes have
been handed over. -/
theorem handed_behind_gate_twoKinds :
    ∃ l l' t, Lobby.new.run? (fun _ => id) twoKinds = some l ∧
      l.step? (fun _ => id) (.hand "Secret") = some l' ∧ l.gate.isReady = true ∧
      l.Listed "Ingress" ∧ l.tasks "Ingress" = some t ∧
      KindWatch.new.run? id t.taken = some (t.dispatch.watch, t.handed) ∧
      t.handed = [.added (KindWatch.versionOf "web" "1")] := by
  have hruns : ∃ l l' t, Lobby.new.run? (fun _ => id) twoKinds = some l ∧
      l.step? (fun _ => id) (.hand "Secret") = some l' ∧ l.tasks "Ingress" = some t ∧
      t.isListening = true ∧ t.handed = [.added (KindWatch.versionOf "web" "1")] :=
    ⟨_, _, _, rfl, rfl, rfl, rfl, rfl⟩
  obtain ⟨l, l', t, hrun, hstep, ht, hlisten, hhanded⟩ := hruns
  obtain ⟨hopen, hwhole⟩ := handed_behind_gate hrun
  obtain ⟨hready, hlisted⟩ := hopen "Secret" l' hstep
  have hregistered : Registered "Ingress" twoKinds :=
    ⟨twoKinds.take 5, twoKinds.drop 6, rfl, by simp [twoKinds]⟩
  obtain ⟨cs, htaken, -, hall⟩ := hwhole "Ingress" t ht
  have hcs : t.handed = cs := hall hregistered hready hlisten
  exact ⟨l, l', t, hrun, hstep, hready, hlisted "Ingress" hregistered, ht, hcs ▸ htaken, hhanded⟩

end Lobby

end IngressTls
