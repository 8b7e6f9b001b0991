import IngressTls.Proofs.Quota.Desk
import IngressTls.Reporter

set_option autoImplicit false

/-! # What the platform knows of the quota

At every tick the reporter compares the figure in use with the one that was acknowledged last, and
begins a report if they differ. While it waits for the answer the quota goes on changing. The
platform records the figure of a report at some moment after the report was begun: before it is
acknowledged, before it fails, after it has failed, or never.

`Reporting` is the desk of the quota with the reporter and with the reports as the platform has
recorded them. A report that failed may still have been recorded, and the reporter does not know.
So if it is silent, the figure in use is the one that was acknowledged last, but the platform may
have recorded another one since.

Main statements: `silent_iff` and `silent_platform_iff`.
-/

namespace IngressTls

/-- What the reporter waits for. -/
inductive ReporterPhase where
  /-- The next tick. -/
  | ticking
  /-- The answer to a report. -/
  | calling (report : Nat) (figure : Int)
  /-- Nothing any more. -/
  | stopped
  deriving DecidableEq, Repr

/-- The quota, the reporter and the platform. Reports are known by their numbers, in the order in
which they were begun. -/
structure Reporting where
  /-- The quota with its callers. -/
  desk : Desk
  /-- The reporter. -/
  reporter : Reporter
  /-- What the reporter waits for. -/
  phase : ReporterPhase
  /-- The figures of the reports that were begun. -/
  figures : List Int
  /-- The reports that the platform has recorded, the last one first. -/
  recorded : List Nat
  /-- The reports that were acknowledged, the last one first. -/
  acknowledged : List Nat

/-- What can happen to the quota, to the reporter and at the platform. -/
inductive ReportingEvent where
  /-- Something happens at the desk of the quota. -/
  | desk (e : DeskEvent)
  /-- The reporter takes a tick. -/
  | tick
  /-- The platform records a report. -/
  | record (report : Nat)
  /-- The report under way is acknowledged. -/
  | acknowledge
  /-- The report under way fails, or is not answered in time. -/
  | fail
  /-- The reporter is told to stop. -/
  | stop
  deriving DecidableEq, Repr

namespace Reporting

/-! ## Steps and runs -/

/-- Nothing has happened yet. -/
def start (max : Int) : Reporting := ⟨.start max, .new, .ticking, [], [], []⟩

/-- The figure in use. -/
def used (s : Reporting) : Int := s.desk.quota.used

/-- The figure that the platform has recorded last, if any. -/
def platform? (s : Reporting) : Option Int := s.recorded.head?.bind fun i => s.figures[i]?

/-- A tick has been taken. A figure that does not fit into 64 bits ends the reporter. -/
def takeTick (s : Reporting) : Reporting :=
  if s.desk.quota.usedFits then
    match s.reporter.report? s.used with
    | none => s
    | some figure =>
      { s with phase := .calling s.figures.length figure, figures := s.figures ++ [figure] }
  else { s with phase := .stopped }

/-- One step, if it is possible. No tick is taken while a report is under way; that the reporter is
to stop is noticed between two reports. A report is recorded at most once, and acknowledged only
after that. -/
def step? (s : Reporting) : ReportingEvent → Option Reporting
  | .desk e => (s.desk.step? twoTests e).map fun desk => { s with desk }
  | .tick =>
    match s.phase with
    | .ticking => some s.takeTick
    | .calling _ _ | .stopped => none
  | .record i =>
    if i < s.figures.length ∧ i ∉ s.recorded then some { s with recorded := i :: s.recorded }
    else none
  | .acknowledge =>
    match s.phase with
    | .calling i figure =>
      if i ∈ s.recorded then
        some
          { s with
            phase := .ticking
            reporter := s.reporter.answered figure true
            acknowledged := i :: s.acknowledged }
      else none
    | .ticking | .stopped => none
  | .fail =>
    match s.phase with
    | .calling _ figure =>
      some { s with phase := .ticking, reporter := s.reporter.answered figure false }
    | .ticking | .stopped => none
  | .stop =>
    match s.phase with
    | .ticking => some { s with phase := .stopped }
    | .calling _ _ | .stopped => none

/-- Steps one after the other, if they are possible. -/
def run? (s : Reporting) : List ReportingEvent → Option Reporting
  | [] => some s
  | e :: es => (s.step? e).bind fun s' => s'.run? es

/-- The reporter can take a tick, and will begin no report. -/
structure Silent (s : Reporting) : Prop where
  /-- It waits for a tick. -/
  ticking : s.phase = .ticking
  /-- The figure can be computed. -/
  fits : s.desk.quota.usedFits = true
  /-- There is nothing to report. -/
  none : s.reporter.report? s.used = none

variable {s s' : Reporting} {e : ReportingEvent} {es : List ReportingEvent} {i : Nat} {figure : Int}

/-- A tick at which the reporter is silent is one that changes nothing. -/
theorem silent_iff : s.Silent ↔ s.step? .tick = some s := by
  constructor
  · rintro ⟨hticking, hfits, hnone⟩
    simp [step?, takeTick, hticking, hfits, hnone]
  · intro h
    rw [step?] at h
    cases hphase : s.phase with
    | calling i figure => simp [hphase] at h
    | stopped => simp [hphase] at h
    | ticking =>
        simp only [hphase, Option.some.injEq] at h
        rw [takeTick] at h
        cases hfits : s.desk.quota.usedFits with
        | false =>
            -- the reporter would have stopped
            have hstopped := congrArg Reporting.phase h
            simp [hfits, hphase] at hstopped
        | true =>
            cases hreport : s.reporter.report? s.used with
            | none => exact ⟨hphase, hfits, hreport⟩
            | some figure =>
                have hcalling := congrArg Reporting.phase h
                simp [hfits, hreport, hphase] at hcalling

/-! ## What a step keeps -/

/-- What the acknowledged reports say about the reporter and the platform. -/
structure Sound (s : Reporting) : Prop where
  /-- Only reports that were begun are recorded. -/
  begun : ∀ i ∈ s.recorded, i < s.figures.length
  /-- No report is recorded twice. -/
  once : s.recorded.Nodup
  /-- Only recorded reports are acknowledged. -/
  acknowledged_sub : ∀ i ∈ s.acknowledged, i ∈ s.recorded
  /-- Reports are acknowledged in the order in which they were begun. -/
  decreasing : s.acknowledged.Pairwise fun later earlier => earlier < later
  /-- What was recorded before an acknowledged report was begun before it. -/
  before : s.recorded.Pairwise fun later earlier => later ∈ s.acknowledged → earlier < later
  /-- The reporter remembers the figure that was acknowledged last. -/
  remembered : s.reporter.acknowledged = s.acknowledged.head?.bind fun i => s.figures[i]?
  /-- The report under way was begun last, and has not been acknowledged. -/
  calling : ∀ i figure, s.phase = .calling i figure →
    i + 1 = s.figures.length ∧ s.figures[i]? = some figure ∧ i ∉ s.acknowledged

theorem Sound.start (max : Int) : (start max).Sound where
  begun := fun _ h => by cases h
  once := List.nodup_nil
  acknowledged_sub := fun _ h => by cases h
  decreasing := List.Pairwise.nil
  before := List.Pairwise.nil
  remembered := rfl
  calling := fun _ _ h => by cases h

/-- A report that is begun now has the next number. -/
theorem Sound.begin (h : s.Sound) (figure : Int) :
    Sound { s with
      phase := .calling s.figures.length figure, figures := s.figures ++ [figure] } where
  begun := fun i hi => by
    rw [List.length_append]
    exact Nat.lt_add_right _ (h.begun i hi)
  once := h.once
  acknowledged_sub := h.acknowledged_sub
  decreasing := h.decreasing
  before := h.before
  remembered := by
    show s.reporter.acknowledged = _
    rw [h.remembered]
    cases hlast : s.acknowledged.head? with
    | none => rfl
    | some i =>
        have hi := h.begun i (h.acknowledged_sub i (List.mem_of_mem_head? hlast))
        exact (List.getElem?_append_left hi).symm
  calling := by
    rintro i figure' ⟨⟩
    refine ⟨by simp, by simp, fun hmem => ?_⟩
    exact absurd (h.begun _ (h.acknowledged_sub _ hmem)) (Nat.lt_irrefl _)

theorem Sound.record (h : s.Sound) (hi : i < s.figures.length) (hnew : i ∉ s.recorded) :
    Sound { s with recorded := i :: s.recorded } where
  begun := fun j hj => by
    rcases List.mem_cons.1 hj with rfl | hj
    · exact hi
    · exact h.begun j hj
  once := List.nodup_cons.2 ⟨hnew, h.once⟩
  acknowledged_sub := fun j hj => List.mem_cons_of_mem i (h.acknowledged_sub j hj)
  decreasing := h.decreasing
  before := by
    refine List.pairwise_cons.2 ⟨fun j _ hack => ?_, h.before⟩
    -- nothing is acknowledged before it is recorded
    exact absurd (h.acknowledged_sub i hack) hnew
  remembered := h.remembered
  calling := h.calling

/-- The report that is acknowledged was begun last, so all others were begun before it. -/
theorem Sound.acknowledge (h : s.Sound) (hphase : s.phase = .calling i figure)
    (hrecorded : i ∈ s.recorded) :
    Sound { s with
      phase := .ticking
      reporter := s.reporter.answered figure true
      acknowledged := i :: s.acknowledged } where
  begun := h.begun
  once := h.once
  acknowledged_sub := fun j hj => by
    rcases List.mem_cons.1 hj with rfl | hj
    · exact hrecorded
    · exact h.acknowledged_sub j hj
  decreasing := by
    obtain ⟨hlast, -, hnew⟩ := h.calling i figure hphase
    refine List.pairwise_cons.2 ⟨fun j hj => ?_, h.decreasing⟩
    -- there is no later report than the one under way
    have hbegun := h.begun j (h.acknowledged_sub j hj)
    have hne : j ≠ i := fun heq => hnew (heq ▸ hj)
    omega
  before := by
    obtain ⟨hlast, -, -⟩ := h.calling i figure hphase
    refine (h.before.and h.once).imp_of_mem ?_
    rintro later earlier - hearlier ⟨hbefore, hne⟩ hack
    rcases List.mem_cons.1 hack with rfl | hack
    · have hbegun := h.begun earlier hearlier
      omega
    · exact hbefore hack
  remembered := (h.calling i figure hphase).2.1.symm
  calling := fun _ _ h => by cases h

theorem Sound.takeTick (h : s.Sound) : s.takeTick.Sound := by
  rw [Reporting.takeTick]
  split
  · cases s.reporter.report? s.used with
    | none => exact h
    | some figure => exact h.begin figure
  · exact { h with calling := fun _ _ hphase => by cases hphase }

theorem Sound.step (h : s.Sound) (hstep : s.step? e = some s') : s'.Sound := by
  cases e with
  | desk e =>
      obtain ⟨desk, -, rfl⟩ := Option.map_eq_some_iff.1 hstep
      exact { h with }
  | tick =>
      rw [step?] at hstep
      split at hstep
      · cases hstep
        exact h.takeTick
      all_goals cases hstep
  | record i =>
      rw [step?] at hstep
      split at hstep
      · next hi =>
          cases hstep
          exact h.record hi.1 hi.2
      · cases hstep
  | acknowledge =>
      rw [step?] at hstep
      split at hstep
      · next i figure hphase =>
          split at hstep
          · next hi =>
              cases hstep
              exact h.acknowledge hphase hi
          · cases hstep
      all_goals cases hstep
  | fail =>
      rw [step?] at hstep
      split at hstep
      · cases hstep
        exact { h with calling := fun _ _ hphase => by cases hphase }
      all_goals cases hstep
  | stop =>
      rw [step?] at hstep
      split at hstep
      · cases hstep
        exact { h with calling := fun _ _ hphase => by cases hphase }
      all_goals cases hstep

theorem Sound.run (h : s.Sound) (hrun : s.run? es = some s') : s'.Sound := by
  induction es generalizing s with
  | nil =>
      cases hrun
      exact h
  | cons e es ih =>
      obtain ⟨s₁, hstep, hrest⟩ := Option.bind_eq_some_iff.1 hrun
      exact ih (h.step hstep) hrest

/-! ## What is known when the reporter is silent -/

/-- If the report that the platform recorded last was acknowledged, no later one was. -/
theorem Sound.head?_acknowledged (h : s.Sound) (hlast : s.recorded.head? = some i)
    (hack : i ∈ s.acknowledged) : s.acknowledged.head? = some i := by
  obtain ⟨before, hrecorded⟩ := List.head?_eq_some_iff.1 hlast
  cases hacknowledged : s.acknowledged with
  | nil =>
      rw [hacknowledged] at hack
      cases hack
  | cons j earlier =>
      have hdecreasing := h.decreasing
      have hbefore := h.before
      rw [hacknowledged] at hack hdecreasing
      rw [hrecorded] at hbefore
      rcases List.mem_cons.1 hack with rfl | hearlier
      · rfl
      · -- the later one would have been recorded before it, and begun before it
        have hlt := (List.pairwise_cons.1 hdecreasing).1 i hearlier
        have hj := h.acknowledged_sub j (by rw [hacknowledged]; exact List.mem_cons_self)
        rw [hrecorded] at hj
        rcases List.mem_cons.1 hj with rfl | hj
        · exact absurd hlt (Nat.lt_irrefl _)
        · have hgt := (List.pairwise_cons.1 hbefore).1 j hj (by
            rw [hacknowledged]
            exact List.mem_cons_of_mem j hearlier)
          omega

/-- When the reporter is silent, the figure in use is the one that was acknowledged last; and the
platform has recorded it last, unless it has recorded another figure of a report that was not
acknowledged. -/
theorem silent_platform_iff {max : Int} (hrun : (start max).run? es = some s) (hsilent : s.Silent) :
    (∃ i, s.acknowledged.head? = some i ∧ s.figures[i]? = some s.used) ∧
    (s.platform? = some s.used ↔
      ∀ i, s.recorded.head? = some i → i ∉ s.acknowledged → s.figures[i]? = some s.used) := by
  have hs := (Sound.start max).run hrun
  -- the reporter is silent because the figure in use is the one that it remembers
  have hlast : (s.acknowledged.head?.bind fun i => s.figures[i]?) = some s.used := by
    rw [← hs.remembered]
    exact (s.reporter.report?_eq_none_iff s.used).1 hsilent.none
  obtain ⟨i, hi, hfigure⟩ := Option.bind_eq_some_iff.1 hlast
  refine ⟨⟨i, hi, hfigure⟩, ?_⟩
  rw [platform?, Option.bind_eq_some_iff]
  constructor
  · rintro ⟨j, hj, hused⟩ j' hj' -
    cases hj.symm.trans hj'
    exact hused
  · intro hunacknowledged
    have hrecorded := hs.acknowledged_sub i (List.mem_of_mem_head? hi)
    obtain ⟨j, hj⟩ : ∃ j, s.recorded.head? = some j := by
      cases hnone : s.recorded with
      | nil =>
          rw [hnone] at hrecorded
          cases hrecorded
      | cons j _ => exact ⟨j, rfl⟩
    refine ⟨j, hj, ?_⟩
    by_cases hack : j ∈ s.acknowledged
    · -- the last one to be recorded is the last one to be acknowledged
      cases hi.symm.trans (hs.head?_acknowledged hj hack)
      exact hfigure
    · exact hunacknowledged j hj hack

/-- A report of nothing is acknowledged. Two are then in use; the platform records them, but the
report fails. -/
def unanswered : List ReportingEvent :=
  [.tick, .record 0, .acknowledge, .desk (.call "a" 2), .desk (.serve 0), .desk (.serve 0),
    .desk (.commit 0), .tick, .record 1, .fail]

/-- They are reported again. -/
theorem silent_platform_iff_reported_again :
    ∃ s, (start 5).run? (unanswered ++ [.tick, .record 2, .acknowledge]) = some s ∧ s.Silent ∧
      s.used = 2 ∧ s.platform? = some 2 := by
  have hrun : ∃ s, (start 5).run? (unanswered ++ [.tick, .record 2, .acknowledge]) = some s ∧
      s.phase = .ticking ∧ s.desk.quota.usedFits = true ∧ s.reporter.report? s.used = none ∧
      s.used = 2 ∧ s.recorded.head? = some 2 ∧ 2 ∈ s.acknowledged :=
    ⟨_, rfl, rfl, by decide, by decide, by decide, rfl, by decide⟩
  obtain ⟨s, hrun, hticking, hfits, hnone, hused, hlast, hack⟩ := hrun
  have hsilent : s.Silent := ⟨hticking, hfits, hnone⟩
  obtain ⟨-, hplatform⟩ := silent_platform_iff hrun hsilent
  refine ⟨s, hrun, hsilent, hused, ?_⟩
  rw [← hused]
  refine hplatform.2 fun i hi hunacknowledged => ?_
  cases hlast.symm.trans hi
  exact absurd hack hunacknowledged

/-- It is not true that the platform knows the figure whenever the reporter is silent: if nothing is
in use again at the next tick, then there is nothing to report. -/
theorem platform_can_be_stale :
    ¬ ∀ (max : Int) (es : List ReportingEvent) (s : Reporting), (start max).run? es = some s →
      s.Silent → s.platform? = some s.used := by
  intro h
  have hrun : ∃ s, (start 5).run? (unanswered ++ [.desk (.call "a" 0), .desk (.serve 1),
      .desk (.serve 1), .desk (.commit 1)]) = some s ∧
      s.phase = .ticking ∧ s.desk.quota.usedFits = true ∧ s.reporter.report? s.used = none ∧
      s.used = 0 ∧ s.platform? = some 2 :=
    ⟨_, rfl, rfl, by decide, by decide, by decide, rfl⟩
  obtain ⟨s, hrun, hticking, hfits, hnone, hused, hplatform⟩ := hrun
  have hfigure := h 5 _ s hrun ⟨hticking, hfits, hnone⟩
  rw [hplatform, hused] at hfigure
  cases hfigure

end Reporting

end IngressTls
