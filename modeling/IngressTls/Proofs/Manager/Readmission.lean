import IngressTls.Proofs.Bookkeeping
import IngressTls.Proofs.Journal
import IngressTls.Proofs.Manager.Restoring

set_option autoImplicit false

/-! # What is held after the restore

The listing that the restore hears may be older than a release. So a key may be admitted after it
has been released, and then nobody gives its quota back. The order in which the lock of the quota
was taken decides: what a key holds in the end is what the restore has admitted for it, unless a
release has committed after that.

A release that is called after the admission of its key always does, and so does one that takes the
lock after it. One that meets the reservation of the restore is refused.

Main statements: `Sound.move` and `restore_and_release`.
-/

namespace IngressTls

namespace RestoreDeed

/-- The restore admitted something for a key. -/
def Admits (k : String) (d : RestoreDeed) : Prop := ∃ amount, amount ≠ 0 ∧ d = admitted k amount

/-- The quota of a key was given back, or the restore admitted nothing for it. -/
def Clears (k : String) (d : RestoreDeed) : Prop := d = gaveBack k ∨ d = admitted k 0

/-- The restore admitted an amount, possibly zero, for a key. -/
def IsAdmission (k : String) (d : RestoreDeed) : Prop := ∃ amount, d = admitted k amount

end RestoreDeed

open RestoreDeed

namespace Restoring

/-! ## The quota between the restore and a release -/

section Held

variable {q : Quota} {reservation : Option (String × Int)} {inside : Option String} {k : String}
  {amount : Int} {waiting : List String} {d : List RestoreDeed}

/-- Pending is what the restore has reserved, and nothing for the release that has the lock. -/
structure Held (q : Quota) (reservation : Option (String × Int)) (inside : Option String) :
    Prop where
  /-- What is pending. -/
  pending : ∀ k n, q.pending.find? k = some n ↔
    reservation = some (k, n) ∨ inside = some k ∧ n = 0
  /-- They have reserved for different keys. -/
  apart : ∀ k n, reservation = some (k, n) → inside ≠ some k

theorem Held.reserve (h : Held q none inside) (hfree : q.pending.has k = false) (amount : Int) :
    Held { q with pending := q.pending.insert k amount } (some (k, amount)) inside := by
  -- the second test would have refused a key that a release has reserved
  have hinside : inside ≠ some k := by
    rintro rfl
    have hpending := (h.pending k 0).2 (Or.inr ⟨rfl, rfl⟩)
    rw [Table.has_eq_false_iff.1 hfree] at hpending
    cases hpending
  constructor
  · intro j n
    rw [Table.find?_insert]
    by_cases hj : j = k
    · subst hj
      simp [hinside]
    · rw [if_neg hj, h.pending]
      simp [Ne.symm hj]
  · rintro j n ⟨⟩
    exact hinside

theorem Held.enter (h : Held q reservation none) (hfree : q.pending.has k = false) :
    Held { q with pending := q.pending.insert k 0 } reservation (some k) := by
  have hreservation (n : Int) : reservation ≠ some (k, n) := by
    rintro rfl
    have hpending := (h.pending k n).2 (Or.inl rfl)
    rw [Table.has_eq_false_iff.1 hfree] at hpending
    cases hpending
  constructor
  · intro j n
    rw [Table.find?_insert]
    by_cases hj : j = k
    · subst hj
      simp [hreservation, eq_comm]
    · rw [if_neg hj, h.pending]
      simp [Ne.symm hj]
  · rintro j n hj ⟨⟩
    exact hreservation n hj

/-- The restore commits. -/
theorem Held.admitted (h : Held q (some (k, amount)) inside) : Held (q.commit k) none inside := by
  have hinside := h.apart k amount rfl
  constructor
  · intro j n
    rw [Quota.pending_find?_commit]
    by_cases hj : j = k
    · subst hj
      simp [hinside]
    · rw [if_neg hj, h.pending]
      simp [Ne.symm hj]
  · rintro j n ⟨⟩

/-- The release commits. -/
theorem Held.leave (h : Held q reservation (some k)) : Held (q.commit k) reservation none := by
  have hreservation (n : Int) : reservation ≠ some (k, n) := fun hn => h.apart k n hn rfl
  constructor
  · intro j n
    rw [Quota.pending_find?_commit]
    by_cases hj : j = k
    · subst hj
      simp [hreservation]
    · rw [if_neg hj, h.pending]
      simp [Ne.symm hj]
  · rintro j n - ⟨⟩

/-- A key holds quota if that was admitted, and not given back since. -/
def Booked (q : Quota) (d : List RestoreDeed) : Prop :=
  ∀ k, q.acquiredBy k ≠ 0 ↔ Since (Admits k) (Clears k) d

/-- A commit is noted as an admission, or as giving back. -/
theorem Booked.commit (h : Booked q d) (hk : q.pending.find? k = some amount) {x : RestoreDeed}
    (hadmits : Admits k x ↔ amount ≠ 0) (hclears : Clears k x ↔ amount = 0)
    (hother : ∀ j, j ≠ k → ¬ Admits j x ∧ ¬ Clears j x) : Booked (q.commit k) (x :: d) := by
  intro j
  rw [Quota.acquiredBy_commit hk, since_cons]
  by_cases hj : j = k
  · rw [hj, if_pos rfl, hadmits, hclears]
    constructor
    · exact Or.inl
    · rintro (hne | ⟨hne, -⟩)
      · exact hne
      · exact hne
  · obtain ⟨hnot, hnot'⟩ := hother j hj
    rw [if_neg hj, h j]
    simp [hnot, hnot']

theorem Booked.admitted (h : Booked q d) (hk : q.pending.find? k = some amount) :
    Booked (q.commit k) (.admitted k amount :: d) :=
  h.commit hk (by simp [Admits]) (by simp [Clears]) fun j hj => by
    simp [Admits, Clears, Ne.symm hj]

theorem Booked.giveBack (h : Booked q d) (hk : q.pending.find? k = some 0) :
    Booked (q.commit k) (.gaveBack k :: d) :=
  h.commit hk (by simp [Admits]) (by simp [Clears]) fun j hj => by
    simp [Admits, Clears, Ne.symm hj]

theorem Booked.called (h : Booked q d) (k : String) : Booked q (.called k :: d) := by
  intro j
  rw [h j, since_cons]
  simp [Admits, Clears]

/-- A release that was called since the last admission of its key is under way, or has given the
quota back, or has been refused because the restore is about to admit. -/
def Settled (q : Quota) (reservation : Option (String × Int)) (inside : Option String)
    (waiting : List String) (d : List RestoreDeed) : Prop :=
  ∀ k, Since (· = .called k) (IsAdmission k) d →
    k ∈ waiting ∨ inside = some k ∨ q.acquiredBy k = 0 ∨ ∃ n, reservation = some (k, n)

theorem Settled.called (h : Settled q reservation inside waiting d) (k : String) :
    Settled q reservation inside (waiting ++ [k]) (.called k :: d) := by
  intro j hj
  rcases since_cons.1 hj with hcalled | ⟨-, hj⟩
  · cases hcalled
    exact Or.inl (List.mem_append_right _ List.mem_cons_self)
  · exact (h j hj).imp_left (List.mem_append_left _)

theorem Settled.reserve (h : Settled q none inside waiting d) (k : String) (amount : Int) :
    Settled { q with pending := q.pending.insert k amount } (some (k, amount)) inside waiting
      d := by
  intro j hj
  rcases h j hj with hwaits | hinside | hnothing | ⟨n, hn⟩
  · exact Or.inl hwaits
  · exact Or.inr (Or.inl hinside)
  · exact Or.inr (Or.inr (Or.inl hnothing))
  · cases hn

/-- After an admission of a key its earlier releases do not count. -/
theorem Settled.admitted (h : Settled q (some (k, amount)) inside waiting d)
    (hk : q.pending.find? k = some amount) :
    Settled (q.commit k) none inside waiting (.admitted k amount :: d) := by
  intro j hj
  rcases since_cons.1 hj with hcalled | ⟨hother, hj⟩
  · cases hcalled
  have hne : j ≠ k := by
    rintro rfl
    exact hother ⟨amount, rfl⟩
  -- releases of other keys are where they were
  rcases h j hj with hwaits | hinside | hnothing | ⟨n, hn⟩
  · exact Or.inl hwaits
  · exact Or.inr (Or.inl hinside)
  · refine Or.inr (Or.inr (Or.inl ?_))
    rw [Quota.acquiredBy_commit hk, if_neg hne]
    exact hnothing
  · cases hn
    exact absurd rfl hne

theorem mem_eraseIdx_of_ne {i j : String} {place : Nat} (hplace : waiting[place]? = some i)
    (hj : j ∈ waiting) (hne : j ≠ i) : j ∈ waiting.eraseIdx place := by
  obtain ⟨place', hplace'⟩ := List.mem_iff_getElem?.1 hj
  refine List.mem_eraseIdx_iff_getElem?.2 ⟨place', ?_, hplace'⟩
  rintro rfl
  exact hne (Option.some.inj (hplace'.symm.trans hplace))

theorem Settled.enter (h : Settled q reservation none waiting d) {place : Nat}
    (hplace : waiting[place]? = some k) :
    Settled { q with pending := q.pending.insert k 0 } reservation (some k)
      (waiting.eraseIdx place) d := by
  intro j hj
  by_cases hne : j = k
  · exact Or.inr (Or.inl (congrArg some hne.symm))
  · rcases h j hj with hwaits | ⟨⟨⟩⟩ | hrest
    · exact Or.inl (mem_eraseIdx_of_ne hplace hwaits hne)
    · exact Or.inr (Or.inr hrest)

/-- A release is refused if the restore has reserved for its key, or if there is no quota. -/
theorem Settled.turnAway (h : Settled q reservation none waiting d) {place : Nat}
    (hplace : waiting[place]? = some k)
    (hclosed : q.acquiredBy k = 0 ∨ ∃ n, reservation = some (k, n)) :
    Settled q reservation none (waiting.eraseIdx place) d := by
  intro j hj
  by_cases hne : j = k
  · rw [hne]
    exact Or.inr (Or.inr hclosed)
  · exact (h j hj).imp_left fun hwaits => mem_eraseIdx_of_ne hplace hwaits hne

theorem Settled.leave (h : Settled q reservation (some k) waiting d)
    (hk : q.pending.find? k = some 0) :
    Settled (q.commit k) reservation none waiting (.gaveBack k :: d) := by
  intro j hj
  rcases since_cons.1 hj with hcalled | ⟨-, hj⟩
  · cases hcalled
  rw [Quota.acquiredBy_commit hk]
  by_cases hne : j = k
  · rw [if_pos hne]
    exact Or.inr (Or.inr (Or.inl rfl))
  · rw [if_neg hne]
    rcases h j hj with hwaits | hinside | hrest
    · exact Or.inl hwaits
    · cases hinside
      exact absurd rfl hne
    · exact Or.inr (Or.inr hrest)

end Held

variable {f g : Restoring} {e : RestoringEvent} {es : List RestoringEvent} {k : String}

/-! ## What every step keeps -/

/-- What the restore, the calls and the journal say about the quota. -/
structure Sound (f : Restoring) : Prop where
  /-- No worker has begun. -/
  inFlight : f.manager.inFlight = .empty
  /-- Without a quota there is nothing to restore, and no release takes the lock. -/
  disabled : f.quota.max ≤ 0 → f.stage.rests = true ∧ f.inside = none
  /-- Nothing is held without a quota, or before the listing. -/
  bare : f.quota.max ≤ 0 ∨ f.stage.isEarly = true → ∀ k, f.quota.acquiredBy k = 0
  /-- What is pending. -/
  held : Held f.quota f.stage.reservation? f.inside
  /-- What is held. -/
  booked : Booked f.quota f.journal
  /-- What has become of releases. -/
  settled : Settled f.quota f.stage.reservation? f.inside f.waiting f.journal

theorem Sound.start (settings : ManagerSettings) (max : Int) (shelf : Snapshot Secret) :
    (start settings max shelf).Sound where
  inFlight := rfl
  disabled := fun _ => ⟨rfl, rfl⟩
  bare := fun _ _ => rfl
  held := by
    constructor
    · intro k n
      constructor
      · intro h
        cases h
      · rintro (h | ⟨h, -⟩)
        · cases h
        · cases h
    · intro k n h
      cases h
  booked := fun k => ⟨fun h => absurd rfl h, fun h => absurd h not_since_nil⟩
  settled := fun k h => absurd h not_since_nil

/-- The quota is enabled while the restore is at work. -/
theorem Sound.enabled (h : f.Sound) (hworking : f.stage.rests = false) : 0 < f.quota.max := by
  by_contra hmax
  rw [(h.disabled (by omega)).1] at hworking
  cases hworking

/-- Steps that leave the quota, the calls and the journal alone, and reserve nothing. -/
theorem Sound.of_same (h : f.Sound) (hinFlight : g.manager.inFlight = f.manager.inFlight)
    (hquota : g.quota = f.quota) (hwaiting : g.waiting = f.waiting) (hinside : g.inside = f.inside)
    (hjournal : g.journal = f.journal)
    (hreservation : g.stage.reservation? = f.stage.reservation?)
    (hrests : f.stage.rests = true → g.stage.rests = true ∨ 0 < f.quota.max)
    (hearly : g.stage.isEarly = true → f.stage.isEarly = true) : g.Sound where
  inFlight := hinFlight.trans h.inFlight
  disabled := by
    rw [hquota, hinside]
    intro hmax
    obtain ⟨hresting, hnone⟩ := h.disabled hmax
    refine ⟨(hrests hresting).resolve_right ?_, hnone⟩
    omega
  bare := by
    rw [hquota]
    exact fun hbare => h.bare (hbare.imp_right hearly)
  held := by
    rw [hquota, hinside, hreservation]
    exact h.held
  booked := by
    rw [hquota, hjournal]
    exact h.booked
  settled := by
    rw [hquota, hjournal, hwaiting, hinside, hreservation]
    exact h.settled

/-- The restore goes on to a stage without a reservation. -/
theorem Sound.toStage (h : f.Sound) {stage stage' : RestoreStage} (hstage : f.stage = stage)
    (hnone : stage.reservation? = none) (hworking : stage.rests = false)
    (hnone' : stage'.reservation? = none) (hearly : stage'.isEarly = true → stage.isEarly = true) :
    Sound { f with stage := stage' } := by
  subst hstage
  exact h.of_same rfl rfl rfl rfl rfl (hnone'.trans hnone.symm)
    (fun _ => Or.inr (h.enabled hworking)) hearly

theorem Sound.finish (h : f.Sound) (hnone : f.stage.reservation? = none) : f.finish.Sound :=
  h.of_same rfl rfl rfl rfl rfl hnone.symm (fun _ => Or.inl rfl) fun hearly => by cases hearly

theorem Sound.reserved (h : f.Sound) {amount : Int} {rest : List Secret}
    (htested : f.stage = .tested k amount rest) (hfree : f.quota.pending.has k = false) :
    Sound
      { f.setQuota { f.quota with pending := f.quota.pending.insert k amount } with
        stage := .reserved k amount rest } := by
  obtain ⟨hinFlight, hdisabled, hbare, hheld, hbooked, hsettled⟩ := h
  rw [htested] at hdisabled hheld hsettled
  exact {
    inFlight := hinFlight
    disabled := fun hmax => by cases (hdisabled hmax).1
    bare := fun hoff => hbare (hoff.imp_right fun hearly => by cases hearly)
    held := hheld.reserve hfree amount
    booked := hbooked
    settled := hsettled.reserve k amount }

theorem Sound.admitted (h : f.Sound) {amount : Int} {rest : List Secret}
    (hreserved : f.stage = .reserved k amount rest) :
    Sound ({ f.setQuota (f.quota.commit k) with stage := .looking rest }.note
      (.admitted k amount)) := by
  obtain ⟨hinFlight, hdisabled, -, hheld, hbooked, hsettled⟩ := h
  rw [hreserved] at hdisabled hheld hsettled
  have hk := (hheld.pending k amount).2 (Or.inl rfl)
  -- nothing is reserved without a quota
  have hmax : ¬ (f.quota.commit k).max ≤ 0 := by
    rw [Quota.max_commit]
    intro hmax
    cases (hdisabled hmax).1
  exact {
    inFlight := hinFlight
    disabled := fun hoff => absurd hoff hmax
    bare := by
      rintro (hoff | ⟨⟨⟩⟩)
      exact absurd hoff hmax
    held := hheld.admitted
    booked := hbooked.admitted hk
    settled := hsettled.admitted hk }

theorem Sound.called (h : f.Sound) (s : SecretRef) :
    Sound ({ f with
      manager.requests := f.manager.requests.erase s.key
      waiting := f.waiting ++ [s.key] }.note (.called s.key)) where
  inFlight := h.inFlight
  disabled := h.disabled
  bare := h.bare
  held := h.held
  booked := h.booked.called s.key
  settled := h.settled.called s.key

theorem Sound.turnedAway (h : f.Sound) {i : Nat} (hwaits : f.waiting[i]? = some k)
    (hunlocked : f.inside = none) (hclosed : f.quota.max ≤ 0 ∨ f.quota.pending.has k = true) :
    Sound { f with waiting := f.waiting.eraseIdx i } := by
  have hheld := h.held
  have hsettled := h.settled
  rw [hunlocked] at hheld hsettled
  refine { h with settled := ?_ }
  show Settled f.quota f.stage.reservation? f.inside (f.waiting.eraseIdx i) f.journal
  rw [hunlocked]
  refine hsettled.turnAway hwaits ?_
  rcases hclosed with hmax | hpending
  · exact Or.inl (h.bare (Or.inl hmax) k)
  · -- the lock was free, so the restore has reserved for the key
    obtain ⟨n, hn⟩ := Option.isSome_iff_exists.1 hpending
    rcases (hheld.pending k n).1 hn with hreservation | ⟨⟨⟩, -⟩
    exact Or.inr ⟨n, hreservation⟩

theorem Sound.entered (h : f.Sound) {i : Nat} (hwaits : f.waiting[i]? = some k)
    (hunlocked : f.inside = none) (henabled : 0 < f.quota.max)
    (hfree : f.quota.pending.has k = false) :
    Sound
      { f.setQuota { f.quota with pending := f.quota.pending.insert k 0 } with
        waiting := f.waiting.eraseIdx i, inside := some k } := by
  have hheld := h.held
  have hsettled := h.settled
  rw [hunlocked] at hheld hsettled
  exact {
    inFlight := h.inFlight
    disabled := fun hmax => by
      have hoff : f.quota.max ≤ 0 := hmax
      omega
    bare := h.bare
    held := hheld.enter hfree
    booked := h.booked
    settled := hsettled.enter hwaits }

theorem Sound.left (h : f.Sound) (hinside : f.inside = some k) :
    Sound ({ f.setQuota (f.quota.commit k) with inside := none }.note (.gaveBack k)) := by
  have hheld := h.held
  have hsettled := h.settled
  rw [hinside] at hheld hsettled
  have hk := (hheld.pending k 0).2 (Or.inr ⟨rfl, rfl⟩)
  have hmax := Quota.max_commit f.quota k
  exact {
    inFlight := h.inFlight
    disabled := fun hoff => by
      have hoff' : f.quota.max ≤ 0 := hmax ▸ hoff
      exact ⟨(h.disabled hoff').1, rfl⟩
    bare := fun hoff j => by
      have hoff' : f.quota.max ≤ 0 ∨ f.stage.isEarly = true := hmax ▸ hoff
      show (f.quota.commit k).acquiredBy j = 0
      rw [Quota.acquiredBy_commit hk]
      split
      · rfl
      · exact h.bare hoff' j
    held := hheld.leave
    booked := h.booked.giveBack hk
    settled := hsettled.leave hk }

theorem Sound.move (h : f.Sound) (hm : Move f g) : g.Sound := by
  cases hm with
  | began hidle henabled =>
      exact h.of_same rfl rfl rfl rfl rfl (by rw [hidle]; rfl) (fun _ => Or.inr henabled)
        fun _ => by rw [hidle]; rfl
  | skipped hidle hdisabled => exact h.finish (by rw [hidle]; rfl)
  | listed hasked => exact h.toStage hasked rfl rfl rfl fun hearly => by cases hearly
  | unlisted e hasked => exact h.toStage hasked rfl rfl rfl fun hearly => by cases hearly
  | heard hanswered => exact h.toStage hanswered rfl rfl rfl fun hearly => by cases hearly
  | failed hanswered => exact h.finish (by rw [hanswered]; rfl)
  | done hlooking => exact h.finish (by rw [hlooking]; rfl)
  | passedOver hlooking => exact h.toStage hlooking rfl rfl rfl fun hearly => by cases hearly
  | tested hlooking hread hpassed =>
      exact h.toStage hlooking rfl rfl rfl fun hearly => by cases hearly
  | refused htested => exact h.toStage htested rfl rfl rfl fun hearly => by cases hearly
  | brokeOff hworking hunreserved =>
      exact h.toStage rfl hunreserved hworking rfl fun hearly => by cases hearly
  | reserved htested hfree => exact h.reserved htested hfree
  | admitted hreserved => exact h.admitted hreserved
  | obtained r => exact { h with }
  | called s => exact h.called s
  | told hwaits hinFlight =>
      -- no worker has begun
      rw [h.inFlight] at hinFlight
      cases hinFlight
  | turnedAway hwaits hunlocked hclosed => exact h.turnedAway hwaits hunlocked hclosed
  | entered hwaits hunlocked henabled hfree => exact h.entered hwaits hunlocked henabled hfree
  | left hinside => exact h.left hinside
  | stored shelf => exact { h with }

theorem Sound.run? (h : f.Sound) (hrun : f.run? es = some g) : g.Sound := by
  induction es generalizing f with
  | nil =>
      cases hrun
      exact h
  | cons e es ih =>
      obtain ⟨f₁, hstep, hrest⟩ := Option.bind_eq_some_iff.1 hrun
      exact ih (h.move (move_of_step? hstep)) hrest

/-! ## Keys that were not listed -/

/-- The store has been listed, and the restore will not come to a key. -/
def Passes (k : String) : RestoreStage → Prop
  | .idle | .listing none => False
  | .listing (some (.error _)) | .finished | .brokenOff => True
  | .listing (some (.ok rest)) | .looking rest => ∀ s ∈ rest, s.ref.key ≠ k
  | .tested j _ rest | .reserved j _ rest => j ≠ k ∧ ∀ s ∈ rest, s.ref.key ≠ k

/-- The restore has not come to a key, and will not. -/
structure Spares (k : String) (f : Restoring) : Prop where
  /-- It will not. -/
  passes : Passes k f.stage
  /-- Nothing is held for the key. -/
  nothing : f.quota.acquiredBy k = 0

/-- A commit of another key, or of nothing, leaves nothing held for a key. -/
theorem acquiredBy_commit_eq_zero {q : Quota} {j : String} {amount : Int}
    (hj : q.pending.find? j = some amount) (hnothing : q.acquiredBy k = 0)
    (hother : j ≠ k ∨ amount = 0) : (q.commit j).acquiredBy k = 0 := by
  rw [Quota.acquiredBy_commit hj]
  split
  · next heq => exact hother.resolve_left fun hne => hne heq.symm
  · exact hnothing

theorem Spares.move (h : f.Spares k) (hs : f.Sound) (hm : Move f g) : g.Spares k := by
  obtain ⟨hpasses, hnothing⟩ := h
  cases hm with
  | began hidle henabled =>
      rw [hidle] at hpasses
      exact hpasses.elim
  | skipped hidle hdisabled => exact ⟨trivial, hnothing⟩
  | listed hasked =>
      rw [hasked] at hpasses
      exact hpasses.elim
  | unlisted e hasked => exact ⟨trivial, hnothing⟩
  | heard hanswered =>
      rw [hanswered] at hpasses
      exact ⟨hpasses, hnothing⟩
  | failed hanswered => exact ⟨trivial, hnothing⟩
  | done hlooking => exact ⟨trivial, hnothing⟩
  | passedOver hlooking =>
      rw [hlooking] at hpasses
      exact ⟨(List.forall_mem_cons.1 hpasses).2, hnothing⟩
  | tested hlooking hread hpassed =>
      rw [hlooking] at hpasses
      obtain ⟨hnext, hrest⟩ := List.forall_mem_cons.1 hpasses
      rw [← (Bookkeeping.of_read hread).1] at hnext
      exact ⟨⟨hnext, hrest⟩, hnothing⟩
  | refused htested =>
      rw [htested] at hpasses
      exact ⟨hpasses.2, hnothing⟩
  | brokeOff hworking hunreserved => exact ⟨trivial, hnothing⟩
  | reserved htested hfree =>
      rw [htested] at hpasses
      exact ⟨hpasses, hnothing⟩
  | admitted hreserved =>
      rw [hreserved] at hpasses
      have hpending := (hs.held.pending _ _).2 (Or.inl (by rw [hreserved]; rfl))
      exact ⟨hpasses.2, acquiredBy_commit_eq_zero hpending hnothing (Or.inl hpasses.1)⟩
  | obtained r => exact ⟨hpasses, hnothing⟩
  | called s => exact ⟨hpasses, hnothing⟩
  | told hwaits hinFlight => exact ⟨hpasses, hnothing⟩
  | turnedAway hwaits hunlocked hclosed => exact ⟨hpasses, hnothing⟩
  | entered hwaits hunlocked henabled hfree => exact ⟨hpasses, hnothing⟩
  | left hinside =>
      have hpending := (hs.held.pending _ _).2 (Or.inr ⟨hinside, rfl⟩)
      exact ⟨hpasses, acquiredBy_commit_eq_zero hpending hnothing (Or.inr rfl)⟩
  | stored shelf => exact ⟨hpasses, hnothing⟩

theorem Spares.run? (h : f.Spares k) (hs : f.Sound) (hrun : f.run? es = some g) : g.Spares k := by
  induction es generalizing f with
  | nil =>
      cases hrun
      exact h
  | cons e es ih =>
      obtain ⟨f₁, hstep, hrest⟩ := Option.bind_eq_some_iff.1 hrun
      have hm := move_of_step? hstep
      exact ih (h.move hs hm) (hs.move hm) hrest

/-- A key without a secret when the store is listed is not admitted. -/
theorem spares_of_list (hs : f.Sound) (hstep : f.step? .list = some g)
    (habsent : ∀ s ∈ f.shelf.objects, s.ref.key ≠ k) : g.Spares k := by
  rw [step?] at hstep
  split at hstep
  · next hasked =>
      cases hstep
      refine ⟨fun s hs => habsent s (List.mem_filter.1 hs).1, hs.bare (Or.inr ?_) k⟩
      rw [hasked]
      rfl
  · cases hstep

/-! ## What is held in the end -/

/-- When the restore has finished and the releases of a key have returned, nothing is pending for
the key. It holds quota exactly if the restore has admitted some and no release has given it back
since. So it holds none if it was released after its last admission, or if its secret was missing
when the store was listed. -/
theorem restore_and_release {settings : ManagerSettings} {max : Int} {shelf : Snapshot Secret}
    (hrun : (start settings max shelf).run? es = some g) (hfinished : g.stage = .finished)
    (hreturned : k ∉ g.waiting ∧ g.inside ≠ some k) :
    g.quota.pending.find? k = none ∧
    (g.quota.acquiredBy k ≠ 0 ↔ Since (Admits k) (Clears k) g.journal) ∧
    (Since (· = .called k) (IsAdmission k) g.journal → g.quota.acquiredBy k = 0) ∧
    ∀ es₁ es₂ f, es = es₁ ++ .list :: es₂ → (start settings max shelf).run? es₁ = some f →
      (∀ s ∈ f.shelf.objects, s.ref.key ≠ k) → g.quota.acquiredBy k = 0 := by
  have hs := (Sound.start settings max shelf).run? hrun
  -- the restore has finished, so it has reserved nothing
  have hreservation : g.stage.reservation? = none := by
    rw [hfinished]
    rfl
  refine ⟨?_, hs.booked k, ?_, ?_⟩
  · rw [Option.eq_none_iff_forall_ne_some]
    intro n hn
    rcases (hs.held.pending k n).1 hn with hreserved | ⟨hinside, -⟩
    · rw [hreservation] at hreserved
      cases hreserved
    · exact hreturned.2 hinside
  · intro hcalled
    rcases hs.settled k hcalled with hwaits | hinside | hnothing | ⟨n, hn⟩
    · exact absurd hwaits hreturned.1
    · exact absurd hinside hreturned.2
    · exact hnothing
    · rw [hreservation] at hn
      cases hn
  · rintro es₁ es₂ f rfl hbefore habsent
    -- the key is not in the answer, and the store is asked only once
    rw [run?_append, hbefore, Option.bind_some, run?] at hrun
    obtain ⟨f₁, hlist, hafter⟩ := Option.bind_eq_some_iff.1 hrun
    have hf := (Sound.start settings max shelf).run? hbefore
    have hf₁ := hf.move (move_of_step? hlist)
    exact ((spares_of_list hf hlist habsent).run? hf₁ hafter).nothing

/-- A secret that was stored before the manager was started. -/
def storedBefore : Request := ⟨DomainSet.ofHosts ["a.com"], ⟨"default", "s"⟩⟩

/-- The manager is started. -/
def restarted : Restoring :=
  let secret := managedSecret storedBefore ⟨[], [], [], default, default⟩ "certpilot"
  start ManagerSettings.standard 5 (Snapshot.empty.insert secret.metadata.key secret)

/-- The store is listed, and then the secret is deleted and released. It is admitted between the
call of the release and the lock. -/
def admittedBeforeLock : List RestoringEvent :=
  [.begin, .list, .remove storedBefore.target, .release storedBefore.target, .proceed, .proceed,
    .proceed, .proceed, .enter 0, .leave, .proceed]

/-- The release is called before the restore admits, and it takes the lock afterwards. -/
theorem restore_and_release_admittedBeforeLock :
    ∃ g, restarted.run? admittedBeforeLock = some g ∧ g.stage = .finished ∧
      (storedBefore.key ∉ g.waiting ∧ g.inside ≠ some storedBefore.key) ∧
      .admitted storedBefore.key 1 ∈ g.journal ∧ g.quota.acquiredBy storedBefore.key = 0 := by
  have hrun : ∃ g, restarted.run? admittedBeforeLock = some g ∧ g.stage = .finished ∧
      g.waiting = [] ∧ g.inside = none ∧
      g.journal = [.gaveBack storedBefore.key, .admitted storedBefore.key 1,
        .called storedBefore.key] :=
    ⟨_, rfl, rfl, rfl, rfl, rfl⟩
  obtain ⟨g, hrun, hfinished, hwaiting, hinside, hjournal⟩ := hrun
  have hreturned : storedBefore.key ∉ g.waiting ∧ g.inside ≠ some storedBefore.key := by
    rw [hwaiting, hinside]
    exact ⟨List.not_mem_nil, by simp⟩
  obtain ⟨-, hbooked, -, -⟩ := restore_and_release hrun hfinished hreturned
  refine ⟨g, hrun, hfinished, hreturned, ?_, ?_⟩
  · rw [hjournal]
    exact List.mem_cons_of_mem _ List.mem_cons_self
  · by_contra hheld
    have hsince := hbooked.1 hheld
    rw [hjournal] at hsince
    rcases since_cons.1 hsince with ⟨amount, -, habsurd⟩ | ⟨hkept, -⟩
    · cases habsurd
    · exact hkept (Or.inl rfl)

/-- It is not true that a secret which was deleted and released, and not asked for or stored again,
holds no quota in the end: the restore may have listed it before. -/
theorem released_can_be_admitted :
    ¬ ∀ (settings : ManagerSettings) (max : Int) (shelf : Snapshot Secret) (s : SecretRef)
      (es₁ es₂ : List RestoringEvent) (g : Restoring),
      (start settings max shelf).run? (es₁ ++ .remove s :: .release s :: es₂) = some g →
      (∀ e ∈ es₂, (∀ r, e = .obtain r → r.key ≠ s.key) ∧ ∀ o, e = .put o → o.ref.key ≠ s.key) →
      g.stage = .finished → (s.key ∉ g.waiting ∧ g.inside ≠ some s.key) →
      g.quota.acquiredBy s.key = 0 ∧ g.quota.pending.find? s.key = none := by
  intro h
  have hrun : ∃ g, restarted.run? ([.begin, .list] ++ .remove storedBefore.target ::
      .release storedBefore.target :: [.enter 0, .leave, .proceed, .proceed, .proceed, .proceed,
        .proceed]) = some g ∧ g.stage = .finished ∧
      g.waiting = [] ∧ g.inside = none ∧ g.quota.acquiredBy storedBefore.target.key = 1 :=
    ⟨_, rfl, rfl, rfl, rfl, by decide +kernel⟩
  obtain ⟨g, hrun, hfinished, hwaiting, hinside, hheld⟩ := hrun
  have hreturned : storedBefore.target.key ∉ g.waiting ∧
      g.inside ≠ some storedBefore.target.key := by
    rw [hwaiting, hinside]
    exact ⟨List.not_mem_nil, by simp⟩
  obtain ⟨hnothing, -⟩ := h _ _ _ _ _ _ g hrun (by simp) hfinished hreturned
  rw [hheld] at hnothing
  cases hnothing

end Restoring

end IngressTls
