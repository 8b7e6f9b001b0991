import IngressTls.Proofs.Manager.Renewing
import IngressTls.Proofs.Settings

set_option autoImplicit false

/-! # How far ahead certificates are renewed

The days before the end of validity are turned into seconds when the flags are checked, in 64 bits
and without ever failing: too many days become the longest span. The scan turns the span into a
threshold, and that fails beyond a shorter one. Between the two lie the settings that are accepted,
but with which no scan ever lists a secret.

Up to `Settings.farthestDays` days the threshold is as many days as were asked for.

Main statement: `Floor.scan_fails_exactly`.
-/

namespace IngressTls

/-! ## The threshold that is set -/

namespace Settings

variable {f : Flags} {s : Settings} {m : Manager}

/-- The most days before the end of validity for which there is a threshold. -/
def farthestDays : Nat := 106751991167

theorem secondsOfDays_of_le {days : Nat} (h : days ≤ farthestDays) :
    secondsOfDays days = days * 86400 ∧
      secondsOfDays days * Instant.nanosPerSecond ≤ Manager.longestThreshold := by
  unfold farthestDays at h
  unfold Instant.nanosPerSecond secondsOfDays longest Manager.longestThreshold
  have hlongest : UInt64.size = 18446744073709551616 := rfl
  omega

theorem longestThreshold_lt_secondsOfDays {days : Nat} (h : farthestDays < days) :
    Manager.longestThreshold < secondsOfDays days * Instant.nanosPerSecond := by
  unfold farthestDays at h
  unfold Instant.nanosPerSecond secondsOfDays longest Manager.longestThreshold
  have hlongest : UInt64.size = 18446744073709551616 := rfl
  omega

/-- Flags set whole seconds. -/
theorem threshold_of_settings (hs : ofFlags f = .ok s) (hm : m.settings = s.manager) :
    m.settings.threshold = secondsOfDays f.renewBeforeDays * Instant.nanosPerSecond := by
  obtain ⟨-, rfl⟩ := ofFlags_eq_ok_iff.1 hs
  rw [hm]
  exact Int.add_zero _

/-- The threshold is the number of days that was asked for. -/
theorem renewalThreshold_of_le (hs : ofFlags f = .ok s) (hm : m.settings = s.manager)
    (h : f.renewBeforeDays ≤ farthestDays) : m.renewalThreshold =
      .ok ((f.renewBeforeDays * 86400 : Nat) * Instant.nanosPerSecond) := by
  obtain ⟨hexact, hrange⟩ := secondsOfDays_of_le h
  rw [← threshold_of_settings hs hm] at hrange
  rw [Manager.renewalThreshold_of_le hrange, threshold_of_settings hs hm, hexact]

theorem renewalThreshold_of_lt (hs : ofFlags f = .ok s) (hm : m.settings = s.manager)
    (h : farthestDays < f.renewBeforeDays) :
    m.renewalThreshold = .error Manager.thresholdError := by
  refine Manager.renewalThreshold_of_lt ?_
  rw [threshold_of_settings hs hm]
  exact longestThreshold_lt_secondsOfDays h

end Settings

/-! ## The scan -/

namespace Rehearsal.Workshop

variable {σ : Type} {st : Store σ} {w : Workshop σ}

/-- Without a threshold nothing is listed and nothing changes. -/
theorem renew_of_no_threshold {e : Error} (h : w.manager.renewalThreshold = .error e) :
    w.renew st = (w, .error e) := by
  rw [renew, h]

/-- With a threshold a scan fails only with its listing. -/
theorem renew_error_iff {threshold : Int} (h : w.manager.renewalThreshold = .ok threshold)
    (e : Error) : (w.renew st).2 = .error e ↔ (w.call .list st.list).2 = .error e := by
  rw [renew, h]
  show ((w.call .list st.list).1.manager.afterRenewalListing threshold
    (w.call .list st.list).1.today (w.call .list st.list).2).2 = .error e ↔ _
  cases (w.call .list st.list).2 with
  | error e' =>
      show (.error e' : Except Error Nat) = .error e ↔ _
      rw [Except.error.injEq, Except.error.injEq]
  | ok listing => exact iff_of_false (error_ne_ok e _).symm (error_ne_ok e _).symm

end Rehearsal.Workshop

namespace Floor

variable {f : Flags} {s : Settings} {g : Floor} {es : List FloorEvent}

/-- What cannot happen under the settings that a run begins with is not in the run. -/
theorem not_mem_of_never {g₀ : Floor} {e : FloorEvent} (hrun : g₀.run? es = some g)
    (hnever : ∀ g₁ : Floor, g₁.manager.settings = g₀.manager.settings → g₁.step? e = none) :
    e ∉ es := by
  intro he
  obtain ⟨before, after, rfl⟩ := List.append_of_mem he
  rw [run?_append] at hrun
  obtain ⟨g₁, hbefore, hrest⟩ := Option.bind_eq_some_iff.1 hrun
  rw [run?_cons, hnever g₁ (settings_run? hbefore)] at hrest
  cases hrest

/-- With a threshold there is always a listing to make or one to look through. -/
theorem step?_scan_of_threshold {threshold : Int} (h : g.manager.renewalThreshold = .ok threshold)
    (now : Instant) :
    (∃ g', g.step? .list = some g') ∨ ∃ g', g.step? (.renew now) = some g' := by
  cases hscan : g.scan with
  | none =>
      refine Or.inl ⟨{ g with scan := some g.owned }, ?_⟩
      simp only [step?, hscan, h]
  | some listing =>
      refine Or.inr ⟨g.renew threshold now listing, ?_⟩
      simp only [step?, hscan, h]

/-- Without one there is neither. -/
theorem step?_scan_of_no_threshold {e : Error} (h : g.manager.renewalThreshold = .error e) :
    g.step? .list = none ∧ ∀ now, g.step? (.renew now) = none := by
  constructor
  · cases hscan : g.scan <;> simp only [step?, hscan, h]
  · intro now
    cases hscan : g.scan <;> simp only [step?, hscan, h]

/-- Whatever the store holds and answers: if the accepted flags ask for `Settings.farthestDays` days
at most, a scan fails only if its listing does, and whatever the manager has done, it can go on with
a scan. If they ask for more, every scan fails for want of a threshold, before it lists anything,
and no run of the manager has a scan in it. -/
theorem scan_fails_exactly (hs : Settings.ofFlags f = .ok s) :
    (∀ {σ : Type} (st : Rehearsal.Store σ) (w : Rehearsal.Workshop σ),
      w.manager.settings = s.manager →
        (∀ e, (w.renew st).2 = .error e ↔
          Settings.farthestDays < f.renewBeforeDays ∧ e = Manager.thresholdError ∨
            f.renewBeforeDays ≤ Settings.farthestDays ∧ (w.call .list st.list).2 = .error e) ∧
        (Settings.farthestDays < f.renewBeforeDays → (w.renew st).1 = w)) ∧
    ∀ max listed shelf es g, (start s.manager max listed shelf).run? es = some g →
      g.manager.settings = s.manager ∧
      (f.renewBeforeDays ≤ Settings.farthestDays → ∀ now,
        (∃ g', g.step? .list = some g') ∨ ∃ g', g.step? (.renew now) = some g') ∧
      (Settings.farthestDays < f.renewBeforeDays →
        FloorEvent.list ∉ es ∧ ∀ now, FloorEvent.renew now ∉ es) := by
  constructor
  · intro σ st w hw
    by_cases hfar : Settings.farthestDays < f.renewBeforeDays
    · rw [Rehearsal.Workshop.renew_of_no_threshold (Settings.renewalThreshold_of_lt hs hw hfar)]
      refine ⟨fun e => ?_, fun _ => rfl⟩
      rw [Except.error.injEq, eq_comm, or_iff_left fun h => absurd h.1 (Nat.not_le.2 hfar),
        and_iff_right hfar]
    · have hnear : f.renewBeforeDays ≤ Settings.farthestDays := Nat.not_lt.1 hfar
      refine ⟨fun e => ?_, fun h => absurd h hfar⟩
      rw [Rehearsal.Workshop.renew_error_iff (Settings.renewalThreshold_of_le hs hw hnear),
        or_iff_right fun h => hfar h.1, and_iff_right hnear]
  · intro max listed shelf es g hrun
    have hstart := settings_start s.manager max listed shelf
    have hsettings : g.manager.settings = s.manager := (settings_run? hrun).trans hstart
    refine ⟨hsettings, fun hnear => ?_, fun hfar => ?_⟩
    · exact step?_scan_of_threshold (Settings.renewalThreshold_of_le hs hsettings hnear)
    · have hnever (g₁ : Floor) (h : g₁.manager.settings = (start s.manager max listed
          shelf).manager.settings) : g₁.step? .list = none ∧ ∀ now, g₁.step? (.renew now) = none :=
        step?_scan_of_no_threshold (Settings.renewalThreshold_of_lt hs (h.trans hstart) hfar)
      exact ⟨not_mem_of_never hrun fun g₁ h => (hnever g₁ h).1,
        fun now => not_mem_of_never hrun fun g₁ h => (hnever g₁ h).2 now⟩

/-- Flags with a number of days. -/
def flagsWithDays (days : Nat) : Flags :=
  { Settings.flagsFor "https://example.com" with renewBeforeDays := days }

/-- A store with one secret, which expires in ten days. -/
def expiringShelf : Rehearsal.SecretShelf :=
  ⟨[lasting "soon" Wire.defaultControllerName 864000], ⟨[], [], [], []⟩⟩

/-- A manager that has not been started, before a store with one secret. -/
def workshopOf (s : Settings) : Rehearsal.Workshop Rehearsal.SecretShelf :=
  .start (Manager.new s.manager (.new 0)) expiringShelf ⟨[], default⟩ ⟨0, 0⟩

/-- One day more than the most. -/
theorem scan_fails_exactly_oneDayMore :
    ∃ s, Settings.ofFlags (flagsWithDays (Settings.farthestDays + 1)) = .ok s ∧
      (workshopOf s).manager.settings = s.manager ∧
      ((workshopOf s).renew Rehearsal.SecretShelf.store).2 = .error Manager.thresholdError ∧
      ∀ max listed shelf es g, (start s.manager max listed shelf).run? es = some g →
        FloorEvent.list ∉ es := by
  obtain ⟨s, hs⟩ : ∃ s, Settings.ofFlags (flagsWithDays (Settings.farthestDays + 1)) = .ok s :=
    ⟨_, rfl⟩
  have hfar : Settings.farthestDays < (flagsWithDays (Settings.farthestDays + 1)).renewBeforeDays :=
    Nat.lt_succ_self _
  obtain ⟨hscan, hruns⟩ := scan_fails_exactly hs
  obtain ⟨hfails, -⟩ := hscan Rehearsal.SecretShelf.store (workshopOf s) rfl
  refine ⟨s, hs, rfl, (hfails _).2 (Or.inl ⟨hfar, rfl⟩), fun max listed shelf es g hrun => ?_⟩
  exact ((hruns max listed shelf es g hrun).2.2 hfar).1

/-- Accepted settings with which the listing would be answered, but no scan gets as far. -/
theorem accepted_settings_can_fail :
    ∃ s, Settings.ofFlags (flagsWithDays 106751991168) = .ok s ∧
      (workshopOf s).manager.settings = s.manager ∧
      ((workshopOf s).call .list Rehearsal.SecretShelf.store.list).2 =
        .ok [lasting "soon" Wire.defaultControllerName 864000] ∧
      ((workshopOf s).renew Rehearsal.SecretShelf.store).2 = .error Manager.thresholdError :=
  ⟨_, rfl, rfl, rfl, rfl⟩

end Floor

end IngressTls
