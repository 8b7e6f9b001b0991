import IngressTls.Proofs.Bookkeeping
import IngressTls.Proofs.Manager.Start
import IngressTls.Proofs.Quota.AtRest
import IngressTls.Rehearsal.Workshop

set_option autoImplicit false

/-! # What a restore admits

The restore goes through the listed secrets in their order. A secret whose bookkeeping can be read
is admitted if its hosts fit under the ceiling beside those admitted before it, and passed over
otherwise, so that a smaller one after it may still be admitted. Between two secrets the quota is
at rest.

A secret that was passed over does not fit beside all that were admitted in the end, and one that
was admitted replaces its own amount. So a second restore finds everything in place.

Main statements: `admitListed_eq`, `used_admitAll`, `acquiredBy_admitAll` and
`restore_admits_in_order`.
-/

namespace IngressTls

namespace Manager

open Quota (AtRest)

/-! ## One secret -/

/-- How many hosts the bookkeeping of a listed secret records; none if it cannot be read. -/
def recorded (s : Secret) : Int :=
  match Bookkeeping.read s with
  | .error _ => 0
  | .ok b => b.domains.size

/-- How many hosts are admitted for a listed secret beside those admitted so far. -/
def admitted (max soFar : Int) (s : Secret) : Int :=
  if soFar + recorded s ≤ max then recorded s else 0

theorem recorded_nonneg (s : Secret) : 0 ≤ recorded s := by
  rw [recorded]
  split
  · exact le_refl _
  · exact Int.natCast_nonneg _

theorem admitted_nonneg (max soFar : Int) (s : Secret) : 0 ≤ admitted max soFar s := by
  rw [admitted]
  split
  · exact recorded_nonneg s
  · exact le_refl _

variable {q : Quota} {s : Secret}

/-- One secret of a listing is read, and its hosts replace what it holds if they fit. -/
theorem admitListed_eq (h : q.AtRest) (s : Secret) :
    admitListed q s =
      match Bookkeeping.read s with
      | .error _ => q
      | .ok b =>
        if q.used + (b.domains.size - q.acquiredBy s.ref.key) ≤ q.max then
          q.hold s.ref.key b.domains.size
        else q := by
  rw [admitListed]
  cases hread : Bookkeeping.read s with
  | error e => rfl
  | ok b =>
      dsimp only
      rw [(Bookkeeping.of_read hread).1]
      have hopen : q.pending.has s.ref.key = false := by
        rw [h.pending]
        rfl
      have hle := h.acquiredBy_le_used s.ref.key
      have hused := h.used_le
      by_cases hroom : q.used + (b.domains.size - q.acquiredBy s.ref.key) ≤ q.max
      · have hfits : (b.domains.size : Int) = 0 ∨ (b.domains.size : Int) ≤ q.max ∧
            q.inUse + (b.domains.size - q.acquiredBy s.ref.key) ≤ q.max := by
          rw [h.inUse_eq]
          exact Or.inr ⟨by omega, hroom⟩
        rw [if_pos hroom, Quota.reserve_of_fits h.enabled hopen hfits]
        exact Quota.commit_reserved h.pending _ _
      · rw [if_neg hroom]
        cases hreserve : q.reserve s.ref.key b.domains.size with
        | error e => rfl
        | ok q' =>
            have hfound := Quota.room_of_reserve hreserve
            have hnonneg := h.acquiredBy_nonneg s.ref.key
            rw [h.inUse_eq] at hfound
            omega

theorem atRest_admitListed (h : q.AtRest) (s : Secret) : (admitListed q s).AtRest := by
  have hmax := Floor.max_admitListed q s
  have hsound := (Floor.worked_admitListed .refl s).sound h.sound
  rw [admitListed_eq h] at hmax hsound ⊢
  split
  · exact h
  · next b hread =>
      simp only [hread] at hmax hsound
      split
      · next hroom =>
          rw [if_pos hroom] at hmax hsound
          refine ⟨hmax ▸ h.enabled, hsound, h.pending, fun k hk => ?_⟩
          rw [Quota.hold] at hk
          split at hk
          · exact h.nonzero k (Table.find?_erase_eq_some.1 hk).2
          · next hnonzero =>
              rw [Table.find?_insert] at hk
              split at hk
              · exact hnonzero (Option.some.inj hk)
              · exact h.nonzero k hk
      · exact h

/-- What is admitted for a secret that holds nothing yet. -/
theorem acquiredBy_admitListed (h : q.AtRest) (hfree : q.acquiredBy s.ref.key = 0) (k : String) :
    (admitListed q s).acquiredBy k =
      if k = s.ref.key then admitted q.max q.used s else q.acquiredBy k := by
  rw [admitListed_eq h, admitted, recorded]
  cases Bookkeeping.read s with
  | error e =>
      dsimp only
      rw [ite_self]
      split
      · next hk => rw [hk, hfree]
      · rfl
  | ok b =>
      dsimp only
      rw [hfree, sub_zero]
      split
      · exact Quota.acquiredBy_hold q _ _ k
      · split
        · next hk => rw [hk, hfree]
        · rfl

theorem used_admitListed (h : q.AtRest) (hfree : q.acquiredBy s.ref.key = 0) :
    (admitListed q s).used = q.used + admitted q.max q.used s := by
  rw [admitListed_eq h, admitted, recorded]
  cases Bookkeeping.read s with
  | error e =>
      dsimp only
      rw [ite_self, add_zero]
  | ok b =>
      dsimp only
      rw [hfree, sub_zero]
      split
      · rw [Quota.used_hold, hfree, sub_zero]
      · rw [add_zero]

/-- A secret that was admitted or passed over before, when no more was used than now, is left as
it is. -/
theorem admitListed_again (h : q.AtRest) {soFar : Int} (hle : soFar ≤ q.used)
    (hholds : q.acquiredBy s.ref.key = admitted q.max soFar s) : admitListed q s = q := by
  have hrest := atRest_admitListed h s
  have hmax := Floor.max_admitListed q s
  rw [admitListed_eq h] at hrest hmax ⊢
  rw [admitted, recorded] at hholds
  cases hread : Bookkeeping.read s with
  | error e => rfl
  | ok b =>
      simp only [hread] at hrest hmax hholds ⊢
      split
      · next hroom =>
          rw [if_pos hroom] at hrest hmax
          refine h.ext hrest hmax fun k => ?_
          rw [Quota.acquiredBy_hold]
          split
          · next hk =>
              -- it was admitted, for else there would be no room for it now
              rw [hk, hholds]
              split
              · rfl
              · next hnot =>
                  rw [hholds, if_neg hnot] at hroom
                  omega
          · rfl
      · rfl

/-! ## A listing -/

/-- How many hosts are admitted with a listing, from the first secret to the last. -/
def admittedAll (max soFar : Int) (listing : List Secret) : Int :=
  listing.foldl (fun soFar s => soFar + admitted max soFar s) soFar

theorem le_admittedAll (max soFar : Int) (listing : List Secret) :
    soFar ≤ admittedAll max soFar listing := by
  induction listing generalizing soFar with
  | nil => exact le_refl _
  | cons s rest ih =>
      have hfirst := admitted_nonneg max soFar s
      have hrest := ih (soFar + admitted max soFar s)
      show soFar ≤ admittedAll max (soFar + admitted max soFar s) rest
      omega

/-- The secrets of a listing are admitted, one after the other. -/
def admitAll (q : Quota) (listing : List Secret) : Quota := listing.foldl admitListed q

variable {listing listing' : List Secret}

theorem admitAll_cons (q : Quota) (s : Secret) (rest : List Secret) :
    admitAll q (s :: rest) = admitAll (admitListed q s) rest := rfl

theorem atRest_admitAll (h : q.AtRest) (listing : List Secret) : (admitAll q listing).AtRest := by
  induction listing generalizing q with
  | nil => exact h
  | cons s rest ih => exact ih (atRest_admitListed h s)

theorem max_admitAll (q : Quota) (listing : List Secret) : (admitAll q listing).max = q.max := by
  induction listing generalizing q with
  | nil => rfl
  | cons s rest ih => exact (ih _).trans (Floor.max_admitListed q s)

/-- The secrets of a listing have different places and hold nothing yet. -/
structure Fresh (q : Quota) (listing : List Secret) : Prop where
  /-- No place is listed twice. -/
  nodup : (listing.map fun s => s.ref.key).Nodup
  /-- Nothing is held at these places. -/
  free : ∀ s ∈ listing, q.acquiredBy s.ref.key = 0

theorem Fresh.of_cons {rest : List Secret} (h : Fresh q (s :: rest)) (hq : q.AtRest) :
    q.acquiredBy s.ref.key = 0 ∧ (∀ t ∈ rest, t.ref.key ≠ s.ref.key) ∧
      Fresh (admitListed q s) rest := by
  obtain ⟨hs, hrest⟩ := List.nodup_cons.1 h.nodup
  have hfree := h.free s List.mem_cons_self
  have hne : ∀ t ∈ rest, t.ref.key ≠ s.ref.key := fun t ht heq =>
    hs (List.mem_map.2 ⟨t, ht, heq⟩)
  refine ⟨hfree, hne, hrest, fun t ht => ?_⟩
  rw [acquiredBy_admitListed hq hfree, if_neg (hne t ht)]
  exact h.free t (List.mem_cons_of_mem s ht)

theorem used_admitAll (h : q.AtRest) (hfresh : Fresh q listing) :
    (admitAll q listing).used = admittedAll q.max q.used listing := by
  induction listing generalizing q with
  | nil => rfl
  | cons s rest ih =>
      obtain ⟨hfree, -, hrest⟩ := hfresh.of_cons h
      have hmax := Floor.max_admitListed q s
      rw [admitAll_cons, ih (atRest_admitListed h s) hrest, hmax, used_admitListed h hfree]
      rfl

/-- Nothing happens at places that are not listed. -/
theorem acquiredBy_admitAll_other (h : q.AtRest) (hfresh : Fresh q listing) {k : String}
    (hk : ∀ s ∈ listing, s.ref.key ≠ k) : (admitAll q listing).acquiredBy k = q.acquiredBy k := by
  induction listing generalizing q with
  | nil => rfl
  | cons s rest ih =>
      obtain ⟨hfree, -, hrest⟩ := hfresh.of_cons h
      have hk' : ∀ t ∈ rest, t.ref.key ≠ k := fun t ht => hk t (List.mem_cons_of_mem s ht)
      rw [admitAll_cons, ih (atRest_admitListed h s) hrest hk', acquiredBy_admitListed h hfree,
        if_neg (hk s List.mem_cons_self).symm]

/-- A listed secret is admitted if it fits beside those that were admitted before it. -/
theorem acquiredBy_admitAll (h : q.AtRest) {before after : List Secret}
    (hfresh : Fresh q (before ++ s :: after)) :
    (admitAll q (before ++ s :: after)).acquiredBy s.ref.key =
      admitted q.max (admittedAll q.max q.used before) s := by
  induction before generalizing q with
  | nil =>
      obtain ⟨hfree, hne, hrest⟩ := hfresh.of_cons h
      rw [List.nil_append, admitAll_cons,
        acquiredBy_admitAll_other (atRest_admitListed h s) hrest hne,
        acquiredBy_admitListed h hfree, if_pos rfl]
      rfl
  | cons t before ih =>
      obtain ⟨hfree, -, hrest⟩ := hfresh.of_cons h
      rw [List.cons_append, admitAll_cons, ih (atRest_admitListed h t) hrest,
        Floor.max_admitListed, used_admitListed h hfree]
      rfl

/-- A quota in which every listed secret is left as it is is left as it is. -/
theorem admitAll_of_fixed (hfixed : ∀ s ∈ listing, admitListed q s = q) :
    admitAll q listing = q := by
  induction listing with
  | nil => rfl
  | cons s rest ih =>
      rw [admitAll_cons, hfixed s List.mem_cons_self]
      exact ih fun t ht => hfixed t (List.mem_cons_of_mem s ht)

/-- The same listing once more changes nothing. -/
theorem admitAll_again (h : q.AtRest) (hfresh : Fresh q listing) :
    admitAll (admitAll q listing) listing = admitAll q listing := by
  refine admitAll_of_fixed fun s hs => ?_
  obtain ⟨before, after, rfl⟩ := List.append_of_mem hs
  have hmax := max_admitAll q (before ++ s :: after)
  have hle : admittedAll q.max q.used before ≤ (admitAll q (before ++ s :: after)).used := by
    rw [used_admitAll h hfresh, admittedAll, admittedAll, List.foldl_append]
    exact le_admittedAll _ _ _
  refine admitListed_again (atRest_admitAll h _) hle ?_
  rw [acquiredBy_admitAll h hfresh, hmax]

/-! ## Listings that fit -/

/-- How many hosts a listing records. -/
def recordedAll (listing : List Secret) : Int := (listing.map recorded).sum

theorem recordedAll_nonneg (listing : List Secret) : 0 ≤ recordedAll listing :=
  List.sum_nonneg fun n hn => by
    obtain ⟨s, -, rfl⟩ := List.mem_map.1 hn
    exact recorded_nonneg s

theorem recordedAll_cons (s : Secret) (rest : List Secret) :
    recordedAll (s :: rest) = recorded s + recordedAll rest := List.sum_cons

theorem recordedAll_append (before after : List Secret) :
    recordedAll (before ++ after) = recordedAll before + recordedAll after := by
  simp [recordedAll]

/-- If all that a listing records fits, all of it is admitted. -/
theorem admittedAll_of_fits {max soFar : Int} (h : soFar + recordedAll listing ≤ max) :
    admittedAll max soFar listing = soFar + recordedAll listing := by
  induction listing generalizing soFar with
  | nil => exact (add_zero _).symm
  | cons s rest ih =>
      have hrest := recordedAll_nonneg rest
      rw [recordedAll_cons] at h ⊢
      have hfirst : admitted max soFar s = recorded s := if_pos (by omega)
      show admittedAll max (soFar + admitted max soFar s) rest = _
      rw [hfirst, ih (by omega)]
      omega

theorem acquiredBy_admitAll_of_fits (h : q.AtRest) (hfresh : Fresh q listing)
    (hfits : q.used + recordedAll listing ≤ q.max) (hs : s ∈ listing) :
    (admitAll q listing).acquiredBy s.ref.key = recorded s := by
  obtain ⟨before, after, rfl⟩ := List.append_of_mem hs
  have hafter := recordedAll_nonneg after
  rw [recordedAll_append, recordedAll_cons] at hfits
  have hnonneg := recorded_nonneg s
  rw [acquiredBy_admitAll h hfresh, admittedAll_of_fits (by omega)]
  exact if_pos (by omega)

/-- If all of them fit, the order of the listed secrets makes no difference. -/
theorem admitAll_perm (h : q.AtRest) (hfresh : Fresh q listing)
    (hfits : q.used + recordedAll listing ≤ q.max) (hperm : listing'.Perm listing) :
    admitAll q listing' = admitAll q listing := by
  have hfresh' : Fresh q listing' :=
    ⟨(hperm.map _).nodup_iff.2 hfresh.nodup, fun s hs => hfresh.free s (hperm.mem_iff.1 hs)⟩
  have hfits' : q.used + recordedAll listing' ≤ q.max := by
    rw [recordedAll, (hperm.map recorded).sum_eq]
    exact hfits
  refine (atRest_admitAll h listing).ext (atRest_admitAll h listing') ?_ fun k => ?_
  · rw [max_admitAll, max_admitAll]
  · by_cases hk : ∃ s ∈ listing, s.ref.key = k
    · obtain ⟨s, hs, rfl⟩ := hk
      rw [acquiredBy_admitAll_of_fits h hfresh hfits hs,
        acquiredBy_admitAll_of_fits h hfresh' hfits' (hperm.mem_iff.2 hs)]
    · have hnone : ∀ s ∈ listing, s.ref.key ≠ k := fun s hs heq => hk ⟨s, hs, heq⟩
      rw [acquiredBy_admitAll_other h hfresh hnone,
        acquiredBy_admitAll_other h hfresh' fun s hs => hnone s (hperm.mem_iff.1 hs)]

/-! ## In 64 bits -/

theorem admitFits_of_le (h : q.AtRest) (hle : q.used + recorded s ≤ 9223372036854775807) :
    admitFits q s = true := by
  rw [admitFits]
  rw [recorded] at hle
  cases hread : Bookkeeping.read s with
  | error e => rfl
  | ok b =>
      simp only [hread] at hle ⊢
      have hhosts : (0 : Int) ≤ b.domains.size := Int.natCast_nonneg _
      have hinUse := h.inUseFits (by omega)
      have hnonneg := h.acquiredBy_nonneg b.secret.key
      have hpart := h.acquiredBy_le_used b.secret.key
      rw [Quota.reserveFits]
      split
      · rfl
      · split
        · exact hinUse
        · simp only [Quota.checkFits, hinUse, h.inUse_eq, Bool.true_and, Bool.or_eq_true,
            Bool.and_eq_true, Quota.fits_iff]
          exact Or.inr ⟨by omega, by omega⟩

/-- If all hosts together can be counted, the whole listing can be computed. -/
theorem computable_eq (h : q.AtRest) (hle : q.used + recordedAll listing ≤ 9223372036854775807) :
    computable q listing = listing := by
  induction listing generalizing q with
  | nil => rfl
  | cons s rest ih =>
      have hrest := recordedAll_nonneg rest
      rw [recordedAll_cons] at hle
      have hfits : admitFits q s = true := admitFits_of_le h (by omega)
      have hused : (admitListed q s).used ≤ q.used + recorded s := by
        have hnonneg := h.acquiredBy_nonneg s.ref.key
        have hs := recorded_nonneg s
        rw [recorded] at hs ⊢
        rw [admitListed_eq h]
        cases Bookkeeping.read s with
        | error e => exact le_of_eq (add_zero _).symm
        | ok b =>
            dsimp only at hs ⊢
            split
            · rw [Quota.used_hold]
              omega
            · omega
      rw [computable, if_pos hfits, ih (atRest_admitListed h s) (by omega)]

/-! ## The restore -/

/-- The restore, of which the listing may fail. Without a quota nothing is listed. -/
def restore (m : Manager) (answer : Except Error (List Secret)) : Manager :=
  (if m.quota.enabled then m.afterRestoreListing answer else m).markRestored

theorem restored_restore (m : Manager) (answer : Except Error (List Secret)) :
    (m.restore answer).restored = true := rfl

/-- The manager at the start has made the restore. -/
theorem restored_eq_restore (settings : ManagerSettings) (max : Int)
    (answer : Except Error (List Secret)) :
    Floor.restored settings max answer = (Manager.new settings (.new max)).restore answer := rfl

variable {m : Manager}

theorem restore_error (e : Error) : m.restore (.error e) = m.markRestored := by
  rw [restore, afterRestoreListing, ite_self]

theorem restore_ok (henabled : m.quota.enabled = true) (listing : List Secret) :
    m.restore (.ok listing) = { m with quota := admitAll m.quota listing, restored := true } := by
  rw [restore, if_pos henabled]
  rfl

/-- The restore of a listing without repeated places, from an empty quota. Nothing stays pending.
Each listed secret holds the hosts that it records if they fit under the ceiling beside those
admitted before it, and nothing otherwise; nobody else holds anything. What is used is the sum of
that, and below the ceiling. Restoring once more changes nothing, and if all that is recorded fits,
the order of the listing makes no difference. Whether the listing succeeds or fails, the quota
counts as restored afterwards. -/
theorem restore_admits_in_order {max : Int} (hmax : 0 < max) (hquota : m.quota = .new max)
    (hkeys : (listing.map fun s => s.ref.key).Nodup) :
    (m.restore (.ok listing)).quota.pending = .empty ∧
      (∀ before s after, listing = before ++ s :: after →
        (m.restore (.ok listing)).quota.acquiredBy s.ref.key =
          admitted max (admittedAll max 0 before) s) ∧
      (∀ k, (∀ s ∈ listing, s.ref.key ≠ k) →
        (m.restore (.ok listing)).quota.acquiredBy k = 0) ∧
      (m.restore (.ok listing)).quota.used = admittedAll max 0 listing ∧
      (m.restore (.ok listing)).quota.used ≤ max ∧
      (m.restore (.ok listing)).restore (.ok listing) = m.restore (.ok listing) ∧
      (recordedAll listing ≤ max → ∀ listing', listing'.Perm listing →
        m.restore (.ok listing') = m.restore (.ok listing)) ∧
      (∀ answer, (m.restore answer).restored = true) ∧
      ∀ e, m.restore (.error e) = { m with restored := true } := by
  have hrest : m.quota.AtRest := hquota ▸ .new hmax
  have hon : m.quota.enabled = true := decide_eq_true hrest.enabled
  have hzero : m.quota.used = 0 := by
    rw [hquota]
    rfl
  have hmax' : m.quota.max = max := by rw [hquota]; rfl
  have hfresh : Fresh m.quota listing := ⟨hkeys, fun s _ => by rw [hquota]; rfl⟩
  have hafter := atRest_admitAll hrest listing
  have hused := used_admitAll hrest hfresh
  rw [hzero, hmax'] at hused
  rw [restore_ok hon]
  refine ⟨hafter.pending, ?_, fun k hk => ?_, hused, ?_, ?_, fun hfits listing' hperm => ?_,
    restored_restore m, restore_error⟩
  · rintro before s after rfl
    rw [acquiredBy_admitAll hrest hfresh, hzero, hmax']
  · rw [acquiredBy_admitAll_other hrest hfresh hk, hquota]
    rfl
  · exact hafter.used_le.trans (le_of_eq ((max_admitAll _ _).trans hmax'))
  · rw [restore_ok (decide_eq_true hafter.enabled)]
    simp only [admitAll_again hrest hfresh]
  · have hfits' : m.quota.used + recordedAll listing ≤ m.quota.max := by
      rw [hzero, hmax', zero_add]
      exact hfits
    rw [restore_ok hon, admitAll_perm hrest hfresh hfits' hperm]

/-- A secret that was stored for some hosts. -/
def storedFor (name : String) (hosts : List String) : Secret :=
  managedSecret ⟨.ofHosts hosts, ⟨"default", name⟩⟩ ⟨[], [], [], default, default⟩ "certpilot"

/-- A secret with two hosts, one whose bookkeeping cannot be read, one with three hosts and one
with a single host. -/
def mixedListing : List Secret :=
  [storedFor "a" ["a.com", "b.com"],
    { storedFor "b" [] with
      metadata := { Metadata.empty with name := some "b", ns := some "default" } },
    storedFor "c" ["c.com", "d.com", "e.com"], storedFor "d" ["f.com"]]

/-- Under a ceiling of four the three hosts are passed over, and the single one after them is
admitted. -/
theorem restore_admits_in_order_passedOver :
    let m := (Manager.new .standard (.new 4)).restore (.ok mixedListing)
    mixedListing.map (fun s => m.quota.acquiredBy s.ref.key) = [2, 0, 0, 1] ∧ m.quota.used = 3 ∧
      m.restore (.ok mixedListing) = m := by
  have hkeys : (mixedListing.map fun s => s.ref.key).Nodup := by decide
  obtain ⟨-, hlisted, -, hused, -, hagain, -⟩ :=
    restore_admits_in_order (m := Manager.new .standard (.new 4)) (by decide) rfl hkeys
  have hholds := congrArg₂ List.cons (hlisted [] _ _ rfl)
    (congrArg₂ List.cons (hlisted (mixedListing.take 1) _ _ rfl)
      (congrArg₂ List.cons (hlisted (mixedListing.take 2) _ _ rfl)
        (congrArg₂ List.cons (hlisted (mixedListing.take 3) _ _ rfl) (Eq.refl []))))
  refine ⟨hholds.trans ?_, hused.trans ?_, hagain⟩
  · decide +kernel
  · decide +kernel

end Manager

/-! ## The restore of a started manager -/

namespace Rehearsal.Workshop

/-- The manager that is started makes the restore, with whatever the store has answered, if all
hosts together can be counted in 64 bits. -/
theorem restore_eq {σ : Type} {st : Store σ} {w w' : Workshop σ}
    {answer : Except Error (List Secret)} (hcall : w.call .list st.list = (w', answer))
    (hon : w.manager.quota.enabled = true) (hrest : w'.manager.quota.AtRest)
    (hle : w'.manager.quota.used + Manager.recordedAll (answer.toOption.getD []) ≤
      9223372036854775807) :
    w.restore st = ({ w' with manager := w'.manager.restore answer }, true) := by
  have hon' : w'.manager.quota.enabled = true := decide_eq_true hrest.enabled
  rw [restore, if_pos hon, hcall]
  dsimp only
  rw [Manager.computable_eq hrest hle, if_neg (Nat.lt_irrefl _)]
  cases answer with
  | error e =>
      rw [Manager.restore_error]
      rfl
  | ok listing =>
      rw [Manager.restore, if_pos hon']
      rfl

end Rehearsal.Workshop

end IngressTls
