import IngressTls.ControllerRun
import IngressTls.Proofs.Gate

set_option autoImplicit false

/-! # Startups that fail

The steps of a run of the controller, in any order in which they can be made: dispatches take items
and pass the gate, the time for the first listings may be over at any moment, and a dispatch that is
to stop may go on before it notices.

While the gate is closed no change is handed over, and it is closed while a kind is missing. So a
startup that fails has handed over nothing if one of the kinds that its error names is still missing
in the end. Otherwise it may have handed over changes, by `handed_of_late_listing`: a dispatch that
is to stop takes the end of the last listing, the gate opens, and the dispatch passes it.

Main statements: `nothing_handed_of_closed`, `handed_of_failed_startup` and
`handed_of_late_listing`.
-/

namespace IngressTls

/-- What happens next in a run of the controller. -/
inductive RunEvent where
  /-- A dispatch takes an item of its watch. -/
  | take (kind : Kind) (item : WatchItem kind.Object)
  /-- A dispatch passes the gate. -/
  | pass (kind : Kind)
  /-- A dispatch notices that it is to stop. -/
  | halt (kind : Kind)
  /-- The run notices that the gate is open. -/
  | serve
  /-- The time for the first listings is over. -/
  | expire
  /-- The run is told to stop. -/
  | cancel
  /-- The run notices that every dispatch has stopped. -/
  | finish

namespace Dispatch

variable {α : Type} {d : Dispatch α}

/-- What taking an item does, whatever the item is. -/
structure Takes (d : Dispatch α) (gate : Gate) (item : WatchItem α)
    (result : Dispatch α × Gate × List (Change α)) : Prop where
  /-- The dispatch is still that of its kind. -/
  kind : result.1.kind = d.kind
  /-- Only the end of a listing does something to the gate. -/
  gate : result.2.1 = gate ∨
    item = .event .listingDone ∧ result.2.1 = gate.markSynced d.kind
  /-- As long as the first listing is not complete, nothing is handed over. -/
  nothing : d.phase = .syncing → result.2.2 = [] ∧ result.1.phase ≠ .live

theorem takes_take (d : Dispatch α) (metadata : α → Metadata) (gate : Gate) (item : WatchItem α) :
    d.Takes gate item (d.take metadata gate item) := by
  have hstops : ({ d with phase := .stopped } : Dispatch α).phase ≠ .live := by
    intro hlive
    cases hlive
  have hstays : d.phase = .syncing → d.phase ≠ .live := by
    intro hsyncing hlive
    cases hsyncing.symm.trans hlive
  cases item with
  | error => exact ⟨rfl, Or.inl rfl, fun hsyncing => ⟨rfl, hstays hsyncing⟩⟩
  | ended => exact ⟨rfl, Or.inl rfl, fun _ => ⟨rfl, hstops⟩⟩
  | event e =>
      rw [take]
      cases d.watch.take? metadata e with
      | none => exact ⟨rfl, Or.inl rfl, fun _ => ⟨rfl, hstops⟩⟩
      | some p =>
          dsimp only
          split
          · next hlive => exact ⟨rfl, Or.inl rfl, fun hsyncing => absurd hlive (hstays hsyncing)⟩
          · next hsyncing =>
              -- the first listing goes on, or it is complete and the dispatch waits
              split
              · exact ⟨rfl, Or.inr ⟨rfl, rfl⟩, fun _ => ⟨rfl, fun hlive => by cases hlive⟩⟩
              · exact ⟨rfl, Or.inl rfl, fun _ => ⟨rfl, hstays hsyncing⟩⟩
          · exact ⟨rfl, Or.inl rfl, fun hsyncing => ⟨rfl, hstays hsyncing⟩⟩

theorem kind_pass (d : Dispatch α) (gate : Gate) : (d.pass gate).1.kind = d.kind := by
  rw [pass]
  split
  · rfl
  · rfl

end Dispatch

namespace ControllerRun

variable {r : ControllerRun} {e : RunEvent} {es : List RunEvent} {settings : ControllerSettings}
  {surface : Surface} {missing : List String}

/-- What an event does; the result holds the changes handed over. -/
def step (r : ControllerRun) : RunEvent → ControllerRun × List KindChange
  | .take k item => r.take k item
  | .pass k => r.pass k
  | .halt k => (r.halt k, [])
  | .serve => (r.serve, [])
  | .expire => (r.expire, [])
  | .cancel => (r.cancel, [])
  | .finish => (r.finish, [])

/-- Events happen one after the other; the result holds all changes handed over. -/
def play (r : ControllerRun) : List RunEvent → ControllerRun × List KindChange
  | [] => (r, [])
  | e :: es => (((r.step e).1.play es).1, (r.step e).2 ++ ((r.step e).1.play es).2)

/-! ## All that a step can do -/

/-- Where a run stands after an event of its own. -/
inductive Onward (r : ControllerRun) : RunEvent → RunPhase → Prop where
  | served (phase : r.phase = .syncing) : Onward r .serve .serving
  | expired (phase : r.phase = .syncing) : Onward r .expire (.givingUp r.gate.pending.toList)
  | cancelled (phase : r.phase = .syncing ∨ r.phase = .serving) : Onward r .cancel .stopping
  | failed {missing : List String} (phase : r.phase = .givingUp missing) :
      Onward r .finish (.failed (syncError r.settings missing))
  | stopped (phase : r.phase = .stopping) : Onward r .finish .stopped

/-- A run that gives up can only fail. -/
theorem Onward.of_givingUp {phase : RunPhase} (h : r.Onward e phase)
    (hphase : r.phase = .givingUp missing) : phase = .failed (syncError r.settings missing) := by
  cases h with
  | failed given =>
      cases hphase.symm.trans given
      rfl
  | cancelled given =>
      rcases given with given | given
      · cases hphase.symm.trans given
      · cases hphase.symm.trans given
  | served given | expired given | stopped given => cases hphase.symm.trans given

/-- A run that has failed does not go on. -/
theorem Onward.ne_failed {phase : RunPhase} (h : r.Onward e phase) (error : Error) :
    r.phase ≠ .failed error := by
  intro hphase
  cases h with
  | cancelled given =>
      rcases given with given | given
      · cases hphase.symm.trans given
      · cases hphase.symm.trans given
  | served given | expired given | failed given | stopped given => cases hphase.symm.trans given

/-- What an event does, and which changes are handed over. -/
inductive Turn (r : ControllerRun) : RunEvent → ControllerRun → List KindChange → Prop where
  /-- A dispatch that does not listen takes nothing, or the kind is not watched. -/
  | nothing {e : RunEvent} : Turn r e r []
  | took {k : Kind} {item : WatchItem k.Object} {d : Dispatch k.Object}
      (there : r.watches.get k = some d) (listening : d.isListening = true) :
      Turn r (.take k item)
        { r with
          watches := r.watches.set k (some (d.take k.metadata r.gate item).1)
          gate := (d.take k.metadata r.gate item).2.1 }
        (ofKind k (d.take k.metadata r.gate item).2.2)
  | passed {k : Kind} {d : Dispatch k.Object} (there : r.watches.get k = some d) :
      Turn r (.pass k) { r with watches := r.watches.set k (some (d.pass r.gate).1) }
        (ofKind k (d.pass r.gate).2)
  | halted {k : Kind} (cancelled : r.isCancelled = true) :
      Turn r (.halt k)
        { r with watches := r.watches.set k ((r.watches.get k).map Dispatch.cancel) } []
  /-- The run itself goes on. -/
  | went {e : RunEvent} {phase : RunPhase} (onward : r.Onward e phase) :
      Turn r e { r with phase } []

theorem turn_step (r : ControllerRun) (e : RunEvent) : r.Turn e (r.step e).1 (r.step e).2 := by
  cases e with
  | take k item =>
      rw [step, take]
      split
      · exact .nothing
      · next d hd =>
          split
          · next hlisten => exact .took hd hlisten
          · exact .nothing
  | pass k =>
      rw [step, pass]
      split
      · exact .nothing
      · next d hd => exact .passed hd
  | halt k =>
      rw [step, halt]
      split
      · next hcancelled => exact .halted hcancelled
      · exact .nothing
  | serve =>
      rw [step, serve]
      split
      · next hserve =>
          rw [Bool.and_eq_true, decide_eq_true_iff] at hserve
          exact .went (.served hserve.1)
      · exact .nothing
  | expire =>
      rw [step, expire]
      split
      · next hsyncing => exact .went (.expired hsyncing)
      · exact .nothing
  | cancel =>
      rw [step, cancel]
      split
      · next hcancel =>
          rw [Bool.or_eq_true, decide_eq_true_iff, decide_eq_true_iff] at hcancel
          exact .went (.cancelled hcancel)
      · exact .nothing
  | finish =>
      rw [step, finish]
      split
      · split
        · next missing hphase => exact .went (.failed hphase)
        · next hphase => exact .went (.stopped hphase)
        · exact .nothing
      · exact .nothing

/-! ## Behind the gate -/

/-- The gate is closed, and no dispatch hands over changes. -/
structure Behind (r : ControllerRun) : Prop where
  /-- The gate is closed. -/
  closed : r.gate.isReady = false
  /-- No dispatch has passed it. -/
  unpassed : ∀ k d, r.watches.get k = some d → d.phase ≠ .live

/-- A run starts behind a closed gate, which waits at least for the secrets. -/
theorem behind_start (settings : ControllerSettings) (surface : Surface) :
    (start settings surface).Behind := by
  constructor
  · let titles := (Kind.all.filter (Kind.isWatched surface)).map Kind.title
    obtain ⟨hstate, hpending⟩ := Gate.foldl_register (g := .new) rfl titles
    have hsecret : "Secret" ∈ titles :=
      List.mem_map.2 ⟨.secret, List.mem_filter.2 ⟨by decide, rfl⟩, rfl⟩
    rw [Bool.eq_false_iff]
    intro hready
    rcases Gate.ready_of_start (Gate.isReady_iff.1 hready) with hopen | hnone
    · cases hstate.symm.trans hopen
    · exact hnone "Secret" ((hpending "Secret").2 (Or.inr hsecret))
  · intro k d hd hlive
    rw [start, PerKind.get_ofFn] at hd
    split at hd
    · cases hd
      cases hlive
    · cases hd

/-- What holds of every dispatch holds of every one after a change of one of them, if it holds of
that one. -/
theorem forall_watch_set {P : ∀ k : Kind, Dispatch k.Object → Prop}
    {watches : PerKind fun k => Option (Dispatch k.Object)}
    (h : ∀ k d, watches.get k = some d → P k d) {k : Kind} {d : Option (Dispatch k.Object)}
    (hd : ∀ d', d = some d' → P k d') : ∀ j d', (watches.set k d).get j = some d' → P j d' := by
  intro j d' hj
  by_cases hjk : j = k
  · subst hjk
    exact hd d' ((PerKind.get_set_self _ _ _).symm.trans hj)
  · exact h j d' ((PerKind.get_set_ne _ _ hjk).symm.trans hj)

/-- A dispatch goes on without having passed the gate. -/
theorem Behind.setWatch (h : r.Behind) {k : Kind} {d : Option (Dispatch k.Object)}
    {gate : Gate} (hclosed : gate.isReady = false) (hd : ∀ d', d = some d' → d'.phase ≠ .live) :
    Behind { r with watches := r.watches.set k d, gate } :=
  ⟨hclosed, forall_watch_set h.unpassed hd⟩

/-- Each dispatch has the name of its kind. -/
def Named (r : ControllerRun) : Prop := ∀ k d, r.watches.get k = some d → d.kind = k.title

theorem named_start (settings : ControllerSettings) (surface : Surface) :
    (start settings surface).Named := by
  intro k d hd
  rw [start, PerKind.get_ofFn] at hd
  split at hd
  · cases hd
    rfl
  · cases hd

theorem Named.setWatch (h : r.Named) {k : Kind} {d : Option (Dispatch k.Object)} {gate : Gate}
    (hd : ∀ d', d = some d' → d'.kind = k.title) :
    Named { r with watches := r.watches.set k d, gate } :=
  forall_watch_set h hd

theorem waitsForNone_start (settings : ControllerSettings) (surface : Surface) :
    (start settings surface).gate.WaitsForNone := by
  refine Gate.WaitsForNone.start fun hready => ?_
  cases (Gate.foldl_register (g := .new) rfl _).1.symm.trans hready

/-- A run gives up, or has failed for the kinds that were missing. -/
def GivesUp (settings : ControllerSettings) (missing : List String) (r : ControllerRun) : Prop :=
  r.settings = settings ∧
    (r.phase = .givingUp missing ∨ r.phase = .failed (syncError settings missing))

/-- A run gives up or has failed, for whatever kinds. -/
def HasGivenUp (r : ControllerRun) : Prop :=
  (∃ missing, r.phase = .givingUp missing) ∨ ∃ error, r.phase = .failed error

namespace Turn

variable {r r' : ControllerRun} {e : RunEvent} {changes : List KindChange}

/-- The end of a listing is all that does something to the gate. -/
theorem gate (h : r.Turn e r' changes) : r'.gate = r.gate ∨
    ∃ k d, e = .take k (.event .listingDone) ∧ r.watches.get k = some d ∧
      r'.gate = r.gate.markSynced d.kind := by
  cases h with
  | @took k item d there listening =>
      rcases (d.takes_take k.metadata r.gate item).gate with heq | ⟨rfl, heq⟩
      · exact Or.inl heq
      · exact Or.inr ⟨k, d, rfl, there, heq⟩
  | _ => exact Or.inl rfl

/-- An open gate stays open. -/
theorem isReady (h : r.Turn e r' changes) (hready : r.gate.isReady = true) :
    r'.gate.isReady = true := by
  rcases h.gate with heq | ⟨k, d, -, -, heq⟩
  · rw [heq, hready]
  · rw [heq, Gate.isReady_iff]
    exact Gate.state_markSynced_of_ready (Gate.isReady_iff.1 hready)

theorem named (h : r.Turn e r' changes) (hnamed : r.Named) : r'.Named := by
  cases h with
  | nothing => exact hnamed
  | @took k item d there listening =>
      refine hnamed.setWatch fun d' hd' => ?_
      cases hd'
      exact (d.takes_take _ _ _).kind.trans (hnamed k d there)
  | @passed k d there =>
      refine hnamed.setWatch fun d' hd' => ?_
      cases hd'
      exact (d.kind_pass _).trans (hnamed k d there)
  | @halted k cancelled =>
      refine hnamed.setWatch fun d' hd' => ?_
      obtain ⟨d, hd, rfl⟩ := Option.map_eq_some_iff.1 hd'
      exact hnamed k d hd
  | went onward => exact hnamed

theorem waitsForNone (h : r.Turn e r' changes) (hwaits : r.gate.WaitsForNone) :
    r'.gate.WaitsForNone := by
  rcases h.gate with heq | ⟨k, d, -, -, heq⟩
  · rwa [heq]
  · rw [heq]
    exact hwaits.markSynced

/-- A kind is missing until the end of its listing is taken. -/
theorem mem_pending {name : String} (h : r.Turn e r' changes) (hnamed : r.Named)
    (hmem : name ∈ r.gate.pending) :
    name ∈ r'.gate.pending ∨ ∃ k, k.title = name ∧ e = .take k (.event .listingDone) := by
  rcases h.gate with heq | ⟨k, d, he, hd, heq⟩
  · rw [heq]
    exact Or.inl hmem
  · by_cases hname : name = d.kind
    · exact Or.inr ⟨k, (hnamed k d hd).symm.trans hname.symm, he⟩
    · rw [heq]
      exact Or.inl (Gate.mem_pending_markSynced.2 ⟨hmem, hname⟩)

/-- As long as the gate is closed, nothing is handed over. -/
theorem behind (h : r.Turn e r' changes) (hbehind : r.Behind)
    (hclosed : r'.gate.isReady = false) : changes = [] ∧ r'.Behind := by
  cases h with
  | nothing => exact ⟨rfl, hbehind⟩
  | @took k item d there listening =>
      have hsyncing : d.phase = .syncing := by
        rw [Dispatch.isListening, Bool.or_eq_true, decide_eq_true_iff, decide_eq_true_iff]
          at listening
        exact listening.resolve_right (hbehind.unpassed k d there)
      obtain ⟨hnothing, hunpassed⟩ := (d.takes_take k.metadata r.gate item).nothing hsyncing
      refine ⟨by rw [hnothing]; rfl, hbehind.setWatch hclosed fun d' hd' => ?_⟩
      cases hd'
      exact hunpassed
  | @passed k d there =>
      have hstays : d.pass r.gate = (d, []) := by
        rw [Dispatch.pass, hbehind.closed, Bool.and_false, if_neg (by decide)]
      rw [hstays]
      refine ⟨rfl, hbehind.setWatch hclosed fun d' hd' => ?_⟩
      cases hd'
      exact hbehind.unpassed k d there
  | @halted k cancelled =>
      refine ⟨rfl, hbehind.setWatch hclosed fun d' hd' => ?_⟩
      obtain ⟨d, -, rfl⟩ := Option.map_eq_some_iff.1 hd'
      intro hlive
      cases hlive
  | went phase => exact ⟨rfl, hbehind.closed, hbehind.unpassed⟩

theorem settings_eq (h : r.Turn e r' changes) : r'.settings = r.settings := by
  cases h with
  | _ => rfl

/-- A run that gives up does nothing else but fail. -/
theorem givesUp {settings : ControllerSettings} {missing : List String}
    (h : r.Turn e r' changes) (hgives : r.GivesUp settings missing) :
    r'.GivesUp settings missing := by
  obtain ⟨rfl, hphase⟩ := hgives
  refine ⟨h.settings_eq, ?_⟩
  cases h with
  | went onward =>
      rcases hphase with hphase | hphase
      · exact Or.inr (onward.of_givingUp hphase)
      · exact absurd hphase (onward.ne_failed _)
  | _ => exact hphase

/-- A run gives up only when its time is over during the first listings. -/
theorem of_hasGivenUp (h : r.Turn e r' changes) (hgiven : r'.HasGivenUp) :
    r.HasGivenUp ∨ e = .expire ∧ r.phase = .syncing := by
  cases h with
  | went onward =>
      cases onward with
      | expired phase => exact Or.inr ⟨rfl, phase⟩
      | failed phase => exact Or.inl (Or.inl ⟨_, phase⟩)
      | served | cancelled | stopped =>
          rcases hgiven with ⟨_, hphase⟩ | ⟨_, hphase⟩ <;> cases hphase
  | _ => exact Or.inl hgiven

end Turn

/-! ## Whole runs -/

theorem play_append (r : ControllerRun) (es es' : List RunEvent) :
    (r.play (es ++ es')).1 = ((r.play es).1.play es').1 ∧
      (r.play (es ++ es')).2 = (r.play es).2 ++ ((r.play es).1.play es').2 := by
  induction es generalizing r with
  | nil => exact ⟨rfl, rfl⟩
  | cons e es ih =>
      obtain ⟨hstate, hchanges⟩ := ih (r.step e).1
      refine ⟨hstate, ?_⟩
      show (r.step e).2 ++ ((r.step e).1.play (es ++ es')).2 = _
      rw [hchanges, ← List.append_assoc]
      rfl

theorem isReady_play (h : r.gate.isReady = true) (es : List RunEvent) :
    (r.play es).1.gate.isReady = true := by
  induction es generalizing r with
  | nil => exact h
  | cons e es ih => exact ih ((turn_step r e).isReady h)

theorem behind_play (h : r.Behind) (hclosed : (r.play es).1.gate.isReady = false) :
    (r.play es).2 = [] ∧ (r.play es).1.Behind := by
  induction es generalizing r with
  | nil => exact ⟨rfl, h⟩
  | cons e es ih =>
      have hstill : (r.step e).1.gate.isReady = false := by
        by_contra hready
        rw [Bool.not_eq_false] at hready
        cases (isReady_play hready es).symm.trans hclosed
      obtain ⟨hfirst, hbehind⟩ := (turn_step r e).behind h hstill
      obtain ⟨hrest, hend⟩ := ih hbehind hclosed
      refine ⟨?_, hend⟩
      show (r.step e).2 ++ ((r.step e).1.play es).2 = []
      rw [hfirst, hrest]
      rfl

theorem waitsForNone_play (h : r.gate.WaitsForNone) (es : List RunEvent) :
    (r.play es).1.gate.WaitsForNone := by
  induction es generalizing r with
  | nil => exact h
  | cons e es ih => exact ih ((turn_step r e).waitsForNone h)

theorem named_play (h : r.Named) (es : List RunEvent) : (r.play es).1.Named := by
  induction es generalizing r with
  | nil => exact h
  | cons e es ih => exact ih ((turn_step r e).named h)

/-- A kind that is not missing any more has been listed meanwhile. -/
theorem mem_pending_play {name : String} (hnamed : r.Named) (hmem : name ∈ r.gate.pending) :
    name ∈ (r.play es).1.gate.pending ∨
      ∃ k : Kind, k.title = name ∧ .take k (.event .listingDone) ∈ es := by
  induction es generalizing r with
  | nil => exact Or.inl hmem
  | cons e es ih =>
      rcases (turn_step r e).mem_pending hnamed hmem with hstill | ⟨k, hname, rfl⟩
      · refine (ih ((turn_step r e).named hnamed) hstill).imp_right ?_
        rintro ⟨k, hname, hlisted⟩
        exact ⟨k, hname, List.mem_cons_of_mem e hlisted⟩
      · exact Or.inr ⟨k, hname, List.mem_cons_self⟩

theorem settings_play (r : ControllerRun) (es : List RunEvent) :
    (r.play es).1.settings = r.settings := by
  induction es generalizing r with
  | nil => rfl
  | cons e es ih => exact (ih _).trans (turn_step r e).settings_eq

theorem givesUp_play (h : r.GivesUp settings missing) (es : List RunEvent) :
    (r.play es).1.GivesUp settings missing := by
  induction es generalizing r with
  | nil => exact h
  | cons e es ih => exact ih ((turn_step r e).givesUp h)

/-- In a run that has given up there is a moment at which its time was over. -/
theorem exists_expire (hstart : ¬ r.HasGivenUp) (h : (r.play es).1.HasGivenUp) :
    ∃ before after, es = before ++ .expire :: after ∧ (r.play before).1.phase = .syncing := by
  induction es generalizing r with
  | nil => exact absurd h hstart
  | cons e es ih =>
      by_cases hgiven : (r.step e).1.HasGivenUp
      · obtain ⟨rfl, hsyncing⟩ := ((turn_step r e).of_hasGivenUp hgiven).resolve_left hstart
        exact ⟨[], es, rfl, hsyncing⟩
      · obtain ⟨before, after, rfl, hsyncing⟩ := ih hgiven h
        exact ⟨e :: before, after, rfl, hsyncing⟩

/-! ## The statements -/

/-- A run at whose end the gate is closed has handed over nothing. -/
theorem nothing_handed_of_closed
    (hclosed : ((start settings surface).play es).1.gate.isReady = false) :
    ((start settings surface).play es).2 = [] :=
  (behind_play (behind_start settings surface) hclosed).1

/-- What is handed over is handed over when no kind is missing. -/
theorem not_mem_pending_of_handed {name : String} (h : ((start settings surface).play es).2 ≠ []) :
    name ∉ ((start settings surface).play es).1.gate.pending := by
  have hready : ((start settings surface).play es).1.gate.isReady = true := by
    by_contra hnot
    exact h (nothing_handed_of_closed (Bool.eq_false_iff.2 hnot))
  exact waitsForNone_play (waitsForNone_start settings surface) es (Gate.isReady_iff.1 hready) name

/-- If a kind is missing when the time is over, nothing is handed over before its listing has
ended. -/
theorem late_of_handed {before way : List RunEvent} {name : String}
    (hmissing : name ∈ ((start settings surface).play before).1.gate.pending)
    (hhanded : ((start settings surface).play (before ++ .expire :: way)).2 ≠ []) :
    ∃ k : Kind, k.title = name ∧ .take k (.event .listingDone) ∈ way := by
  have hnone : name ∉ ((start settings surface).play (before ++ .expire :: way)).1.gate.pending :=
    not_mem_pending_of_handed hhanded
  rw [(play_append _ before _).1] at hnone
  have hnamed := named_play (named_start settings surface) before
  obtain ⟨k, hname, hlisted⟩ := (mem_pending_play hnamed hmissing).resolve_left hnone
  rcases List.mem_cons.1 hlisted with heq | hlisted
  · cases heq
  · exact ⟨k, hname, hlisted⟩

/-- The error of a startup names the kinds that were missing when its time was over. -/
theorem error_of_failed {before after : List RunEvent} {error : Error}
    (hsyncing : ((start settings surface).play before).1.phase = .syncing)
    (hfailed : ((start settings surface).play (before ++ .expire :: after)).1.phase =
      .failed error) :
    error = syncError settings
      ((start settings surface).play before).1.gate.pending.toList := by
  generalize hr : ((start settings surface).play before).1 = r at hsyncing ⊢
  have hsettings : r.settings = settings := by
    rw [← hr, settings_play]
    rfl
  have hexpired : r.expire.GivesUp settings r.gate.pending.toList := by
    rw [expire, if_pos hsyncing]
    exact ⟨hsettings, Or.inl rfl⟩
  rw [(play_append _ before _).1, hr] at hfailed
  rcases (givesUp_play hexpired after).2 with hphase | hphase
  · cases hphase.symm.trans hfailed
  · cases hphase.symm.trans hfailed
    rfl

/-- A startup that fails does so because its time was over during the first listings, and its error
names the kinds that were missing then. While any of these is missing, no change is handed over:
none before the time is over, and none afterwards, unless the dispatch of every one of these kinds,
which is to stop, takes the end of its listing all the same. -/
theorem handed_of_failed_startup {error : Error}
    (hfailed : ((start settings surface).play es).1.phase = .failed error) :
    ∃ before after missing, es = before ++ .expire :: after ∧
      ((start settings surface).play before).1.phase = .syncing ∧
      missing = ((start settings surface).play before).1.gate.pending ∧
      error = syncError settings missing.toList ∧
      ∀ name ∈ missing, ((start settings surface).play before).2 = [] ∧
        ∀ way, ((start settings surface).play (before ++ .expire :: way)).2 ≠ [] →
          ∃ k : Kind, k.title = name ∧ .take k (.event .listingDone) ∈ way := by
  have hstart : ¬ (start settings surface).HasGivenUp := by
    rintro (⟨_, hphase⟩ | ⟨_, hphase⟩) <;> cases hphase
  obtain ⟨before, after, rfl, hsyncing⟩ := exists_expire hstart (Or.inr ⟨error, hfailed⟩)
  refine ⟨before, after, _, rfl, hsyncing, rfl, error_of_failed hsyncing hfailed,
    fun name hmissing => ⟨?_, fun way => late_of_handed hmissing⟩⟩
  by_contra hhanded
  exact not_mem_pending_of_handed hhanded hmissing

/-- A surface that serves nothing but secrets. -/
def secretsOnly : Surface := ⟨false, false, false, false, false, false⟩

/-- The time is over in the middle of the only listing. The dispatch takes its end and passes the
gate before it notices that it is to stop. -/
def lateListing (s : Secret) : List RunEvent :=
  [.take .secret (.event .listing), .take .secret (.event (.listed s)), .expire,
    .take .secret (.event .listingDone), .pass .secret, .halt .secret, .finish]

/-- A startup that fails may have handed over a change after its time was over. -/
theorem handed_of_late_listing {s : Secret} (hname : s.metadata.name.isSome = true) :
    ((start settings secretsOnly).play (lateListing s)).1.phase =
      .failed (syncError settings ["Secret"]) ∧
    ((start settings secretsOnly).play (lateListing s)).2 = [⟨.secret, .added s⟩] := by
  obtain ⟨⟨name, generateName, ns, resourceVersion, labels, annotations, others⟩, data⟩ := s
  cases name with
  | none => cases hname
  | some name => exact ⟨rfl, rfl⟩

/-- A run that waits two minutes for its listings. -/
def patient : ControllerSettings := ⟨Wire.defaultControllerName, 120⟩

/-- Some secret. -/
def someSecret : Secret :=
  { (default : Secret) with
    metadata := { Metadata.empty with name := some "s", ns := some "default" } }

/-- The secrets are missing when the time is over, and nothing has been handed over yet. -/
theorem handed_of_failed_startup_lateListing :
    ((start patient secretsOnly).play (lateListing someSecret)).1.phase =
      .failed (syncError patient ["Secret"]) ∧
    ∃ before after missing, lateListing someSecret = before ++ .expire :: after ∧
      missing = ((start patient secretsOnly).play before).1.gate.pending ∧
      syncError patient ["Secret"] = syncError patient missing.toList ∧
      ∀ name ∈ missing, ((start patient secretsOnly).play before).2 = [] := by
  have hfailed : ((start patient secretsOnly).play (lateListing someSecret)).1.phase =
      .failed (syncError patient ["Secret"]) := (handed_of_late_listing rfl).1
  obtain ⟨before, after, missing, hsplit, -, hmissing, herror, hnothing⟩ :=
    handed_of_failed_startup hfailed
  exact ⟨hfailed, before, after, missing, hsplit, hmissing, herror,
    fun name hname => (hnothing name hname).1⟩

/-- It is not true that a startup that fails has handed over nothing. -/
theorem failed_startup_can_hand_over :
    ¬ ∀ (settings : ControllerSettings) (surface : Surface) (es : List RunEvent) (error : Error),
      ((start settings surface).play es).1.phase = .failed error →
        ((start settings surface).play es).2 = [] := by
  intro hall
  have hname : someSecret.metadata.name.isSome = true := rfl
  have hnothing := hall patient _ _ _ (handed_of_late_listing hname).1
  rw [(handed_of_late_listing hname).2] at hnothing
  cases hnothing

end ControllerRun

end IngressTls
