import IngressTls.Proofs.Manager.Floor
import IngressTls.Proofs.Quota.AtOnce

set_option autoImplicit false

/-! # The restore among releases

The manager restores its quota before its workers begin, and the controller does not wait for that:
while the store is asked for the secrets, and while they are admitted one after the other, secrets
are deleted and released. Each section of the quota's lock is a step. A release first withdraws the
request; then it waits for the lock of the keys in flight, under which it reserves nothing and
commits that. The restore makes two tests for a secret, and commits if it passes them.

`Restoring` is the manager with the store, the restore and the calls of releases. `Move` states the
same as `step?` with one constructor for each case. If nothing comes in between, then the sections
of a release and of the restore do what the manager does.

Main statements: `move_of_step?`, `release_uninterrupted` and `admissions_uninterrupted`.
-/

namespace IngressTls

/-- How far the restore has come. -/
inductive RestoreStage where
  /-- It has not begun. -/
  | idle
  /-- It has asked the store for the secrets. -/
  | listing (answer : Option (Except Error (List Secret)))
  /-- It looks at the next secret. -/
  | looking (rest : List Secret)
  /-- An amount for a key has passed the first test. -/
  | tested (key : String) (amount : Int) (rest : List Secret)
  /-- An amount for a key is pending. -/
  | reserved (key : String) (amount : Int) (rest : List Secret)
  /-- It has finished. -/
  | finished
  /-- A sum did not fit into 64 bits. -/
  | brokenOff

namespace RestoreStage

/-- What the restore has made pending. -/
def reservation? : RestoreStage → Option (String × Int)
  | reserved key amount _ => some (key, amount)
  | idle | listing _ | looking _ | tested _ _ _ | finished | brokenOff => none

/-- The restore has not begun, or is over. -/
def rests : RestoreStage → Bool
  | idle | finished => true
  | listing _ | looking _ | tested _ _ _ | reserved _ _ _ | brokenOff => false

/-- The store has not been listed. -/
def isEarly : RestoreStage → Bool
  | idle | listing none => true
  | listing (some _) | looking _ | tested _ _ _ | reserved _ _ _ | finished | brokenOff => false

end RestoreStage

/-- What has happened to keys. -/
inductive RestoreDeed where
  /-- A release was called. -/
  | called (key : String)
  /-- A release gave the quota back. -/
  | gaveBack (key : String)
  /-- The restore admitted an amount. -/
  | admitted (key : String) (amount : Int)
  deriving DecidableEq, Repr

/-- The manager before its workers begin, with the store and the calls of releases. -/
structure Restoring where
  /-- The manager. -/
  manager : Manager
  /-- The secrets. -/
  shelf : Snapshot Secret
  /-- How far the restore has come. -/
  stage : RestoreStage
  /-- The keys of the releases that wait for the lock. -/
  waiting : List String
  /-- The key of the release that holds the lock and has reserved nothing for it. -/
  inside : Option String
  /-- What has happened, the last deed first. -/
  journal : List RestoreDeed

/-- What happens next. -/
inductive RestoringEvent where
  /-- The restore begins. -/
  | begin
  /-- The store serves the listing. -/
  | list
  /-- The store fails to list. -/
  | listFails (error : Error)
  /-- The restore goes on by one section. -/
  | proceed
  /-- A certificate is asked for. -/
  | obtain (request : Request)
  /-- A release is called. -/
  | release (secret : SecretRef)
  /-- The release that waits at a place takes the lock. -/
  | enter (place : Nat)
  /-- The release that holds the lock commits and returns. -/
  | leave
  /-- A deletion takes effect. -/
  | remove (secret : SecretRef)
  /-- A write takes effect; the secret has a name and a namespace. -/
  | put (secret : Secret)

namespace Restoring

/-! ## Changes of the state -/

/-- The quota. -/
def quota (f : Restoring) : Quota := f.manager.quota

/-- The quota has changed. -/
def setQuota (f : Restoring) (q : Quota) : Restoring := { f with manager.quota := q }

/-- Something has happened. -/
def note (f : Restoring) (d : RestoreDeed) : Restoring := { f with journal := d :: f.journal }

/-- The secrets that the manager owns. -/
def owned (f : Restoring) : List Secret :=
  f.shelf.objects.filter fun s => s.metadata.isManagedBy f.manager.settings.controllerName

/-- The restore is over. -/
def finish (f : Restoring) : Restoring :=
  { f with manager := f.manager.markRestored, stage := .finished }

/-- A manager whose restore has not begun. -/
def start (settings : ManagerSettings) (max : Int) (shelf : Snapshot Secret) : Restoring where
  manager := .new settings (.new max)
  shelf := shelf
  stage := .idle
  waiting := []
  inside := none
  journal := []

/-! ## Steps -/

/-- How far the first test of a secret brings the restore. -/
def look (q : Quota) (s : Secret) (rest : List Secret) : RestoreStage :=
  match Bookkeeping.read s with
  | .error _ => .looking rest
  | .ok b =>
    match q.firstTest b.secret.key b.domains.size with
    | none => .tested b.secret.key b.domains.size rest
    | some .brokeOff => .brokenOff
    | some _ => .looking rest

/-- The second test, which registers an amount that passes. -/
def register (f : Restoring) (k : String) (amount : Int) (rest : List Secret) : Restoring :=
  match f.quota.secondTest k amount with
  | (q, .opened) => { f.setQuota q with stage := .reserved k amount rest }
  | (_, .refused _) => { f with stage := .looking rest }
  | (_, .brokeOff) => { f with stage := .brokenOff }

/-- The restore goes on by one section, if it does not wait for the store. -/
def proceed? (f : Restoring) : Option Restoring :=
  match f.stage with
  | .listing (some (.ok listing)) => some { f with stage := .looking listing }
  | .listing (some (.error _)) | .looking [] => some f.finish
  | .looking (s :: rest) => some { f with stage := look f.quota s rest }
  | .tested k amount rest => some (f.register k amount rest)
  | .reserved k amount rest =>
    some ({ f.setQuota (f.quota.commit k) with stage := .looking rest }.note (.admitted k amount))
  | .idle | .listing none | .finished | .brokenOff => none

/-- A release has the lock. It tells the worker that issues for the key, or reserves nothing; if it
is refused, it returns. -/
def enter (f : Restoring) (k : String) : Restoring :=
  if f.manager.inFlight.has k then
    { f with manager.inFlight := f.manager.inFlight.insert k true }
  else
    match f.quota.reserve k 0 with
    | .error _ => f
    | .ok q => { f.setQuota q with inside := some k }

/-- What an event does, if it can happen. -/
def step? (f : Restoring) : RestoringEvent → Option Restoring
  | .begin =>
    match f.stage with
    | .idle => some (if f.quota.enabled then { f with stage := .listing none } else f.finish)
    | _ => none
  | .list =>
    match f.stage with
    | .listing none => some { f with stage := .listing (some (.ok f.owned)) }
    | _ => none
  | .listFails e =>
    match f.stage with
    | .listing none => some { f with stage := .listing (some (.error e)) }
    | _ => none
  | .proceed => f.proceed?
  | .obtain r => some { f with manager := f.manager.obtain r }
  | .release s =>
    some ({ f with
      manager.requests := f.manager.requests.erase s.key
      waiting := f.waiting ++ [s.key] }.note (.called s.key))
  | .enter i =>
    match f.waiting[i]?, f.inside with
    | some k, none => some ({ f with waiting := f.waiting.eraseIdx i }.enter k)
    | _, _ => none
  | .leave =>
    f.inside.map fun k =>
      { f.setQuota (f.quota.commit k) with inside := none }.note (.gaveBack k)
  | .remove s => some { f with shelf := f.shelf.erase s.place }
  | .put s =>
    if s.metadata.key = s.ref.place then some { f with shelf := f.shelf.insert s.metadata.key s }
    else none

/-- Events happen one after the other. -/
def run? (f : Restoring) : List RestoringEvent → Option Restoring
  | [] => some f
  | e :: es => (f.step? e).bind fun g => g.run? es

theorem run?_append (f : Restoring) (es es' : List RestoringEvent) :
    f.run? (es ++ es') = (f.run? es).bind fun g => g.run? es' := by
  induction es generalizing f with
  | nil => rfl
  | cons e es ih =>
      rw [List.cons_append, run?, run?]
      cases f.step? e with
      | none => rfl
      | some g => exact ih g

/-! ## All that a step can do -/

/-- What happens between two states that follow each other. -/
inductive Move (f : Restoring) : Restoring → Prop where
  | began (idle : f.stage = .idle) (enabled : 0 < f.quota.max) :
      Move f { f with stage := .listing none }
  | skipped (idle : f.stage = .idle) (disabled : f.quota.max ≤ 0) : Move f f.finish
  | listed (asked : f.stage = .listing none) :
      Move f { f with stage := .listing (some (.ok f.owned)) }
  | unlisted (e : Error) (asked : f.stage = .listing none) :
      Move f { f with stage := .listing (some (.error e)) }
  | heard {listing : List Secret} (answered : f.stage = .listing (some (.ok listing))) :
      Move f { f with stage := .looking listing }
  | failed {e : Error} (answered : f.stage = .listing (some (.error e))) : Move f f.finish
  | done (looking : f.stage = .looking []) : Move f f.finish
  /-- The next secret cannot be read, or does not pass the first test. -/
  | passedOver {s : Secret} {rest : List Secret} (looking : f.stage = .looking (s :: rest)) :
      Move f { f with stage := .looking rest }
  | tested {s : Secret} {rest : List Secret} {b : Bookkeeping}
      (looking : f.stage = .looking (s :: rest)) (read : Bookkeeping.read s = .ok b)
      (passed : f.quota.firstTest b.secret.key b.domains.size = none) :
      Move f { f with stage := .tested b.secret.key b.domains.size rest }
  | refused {k : String} {amount : Int} {rest : List Secret}
      (tested : f.stage = .tested k amount rest) : Move f { f with stage := .looking rest }
  | brokeOff (working : f.stage.rests = false) (unreserved : f.stage.reservation? = none) :
      Move f { f with stage := .brokenOff }
  | reserved {k : String} {amount : Int} {rest : List Secret}
      (tested : f.stage = .tested k amount rest) (free : f.quota.pending.has k = false) :
      Move f
        { f.setQuota { f.quota with pending := f.quota.pending.insert k amount } with
          stage := .reserved k amount rest }
  | admitted {k : String} {amount : Int} {rest : List Secret}
      (reserved : f.stage = .reserved k amount rest) :
      Move f
        ({ f.setQuota (f.quota.commit k) with stage := .looking rest }.note (.admitted k amount))
  | obtained (r : Request) : Move f { f with manager := f.manager.obtain r }
  | called (s : SecretRef) :
      Move f
        ({ f with
          manager.requests := f.manager.requests.erase s.key
          waiting := f.waiting ++ [s.key] }.note (.called s.key))
  | told {i : Nat} {k : String} (waits : f.waiting[i]? = some k)
      (inFlight : f.manager.inFlight.has k = true) :
      Move f
        { f with
          manager.inFlight := f.manager.inFlight.insert k true
          waiting := f.waiting.eraseIdx i }
  | turnedAway {i : Nat} {k : String} (waits : f.waiting[i]? = some k) (unlocked : f.inside = none)
      (closed : f.quota.max ≤ 0 ∨ f.quota.pending.has k = true) :
      Move f { f with waiting := f.waiting.eraseIdx i }
  | entered {i : Nat} {k : String} (waits : f.waiting[i]? = some k) (unlocked : f.inside = none)
      (enabled : 0 < f.quota.max) (free : f.quota.pending.has k = false) :
      Move f
        { f.setQuota { f.quota with pending := f.quota.pending.insert k 0 } with
          waiting := f.waiting.eraseIdx i, inside := some k }
  | left {k : String} (inside : f.inside = some k) :
      Move f ({ f.setQuota (f.quota.commit k) with inside := none }.note (.gaveBack k))
  /-- The store has changed. -/
  | stored (shelf : Snapshot Secret) : Move f { f with shelf }

variable {f g : Restoring} {e : RestoringEvent} {es : List RestoringEvent} {k : String}

theorem move_of_look {s : Secret} {rest : List Secret} (looking : f.stage = .looking (s :: rest)) :
    Move f { f with stage := look f.quota s rest } := by
  rw [look]
  cases hread : Bookkeeping.read s with
  | error _ => exact .passedOver looking
  | ok b =>
      dsimp only
      cases hfirst : f.quota.firstTest b.secret.key b.domains.size with
      | none => exact .tested looking hread hfirst
      | some reply =>
          cases reply with
          | opened => exact absurd rfl (Quota.firstTest_ne_opened hfirst)
          | refused _ => exact .passedOver looking
          | brokeOff => exact .brokeOff (by rw [looking]; rfl) (by rw [looking]; rfl)

theorem register_of_refused (f : Restoring) {amount : Int} {rest : List Secret} {q : Quota}
    {why : QuotaRefusal} (h : f.quota.secondTest k amount = (q, .refused why)) :
    f.register k amount rest = { f with stage := .looking rest } := by
  rw [register, h]

theorem register_of_opened (f : Restoring) {amount : Int} {rest : List Secret} {q : Quota}
    (h : f.quota.secondTest k amount = (q, .opened)) :
    f.register k amount rest = { f.setQuota q with stage := .reserved k amount rest } := by
  rw [register, h]

theorem move_of_register {k : String} {amount : Int} {rest : List Secret}
    (tested : f.stage = .tested k amount rest) : Move f (f.register k amount rest) := by
  rw [register]
  rcases f.quota.secondTest_cases k amount with ⟨reply, hreply, hsecond⟩ | ⟨hfree, hsecond⟩
  · rw [hsecond]
    cases reply with
    | opened => exact absurd rfl hreply
    | refused _ => exact .refused tested
    | brokeOff => exact .brokeOff (by rw [tested]; rfl) (by rw [tested]; rfl)
  · rw [hsecond]
    exact .reserved tested hfree

theorem move_of_proceed? (h : f.proceed? = some g) : Move f g := by
  rw [proceed?] at h
  split at h
  · next hstage =>
      cases h
      exact .heard hstage
  · next hstage =>
      cases h
      exact .failed hstage
  · next hstage =>
      cases h
      exact .done hstage
  · next hstage =>
      cases h
      exact move_of_look hstage
  · next hstage =>
      cases h
      exact move_of_register hstage
  · next hstage =>
      cases h
      exact .admitted hstage
  all_goals cases h

theorem move_of_enter {i : Nat} (hwaits : f.waiting[i]? = some k) (hunlocked : f.inside = none) :
    Move f ({ f with waiting := f.waiting.eraseIdx i }.enter k) := by
  rw [enter]
  split
  · next hinFlight => exact .told hwaits hinFlight
  · split
    · next hrefused =>
        refine .turnedAway hwaits hunlocked ?_
        -- an amount of zero is refused for no other reason
        by_contra hopen
        obtain ⟨henabled, hfree⟩ := not_or.1 hopen
        have hreserved : f.quota.reserve k 0 =
            .ok { f.quota with pending := f.quota.pending.insert k 0 } :=
          Quota.reserve_zero (by omega) (by simpa using hfree)
        cases hrefused.symm.trans hreserved
    · next q hq =>
        obtain ⟨henabled, hfree, rfl⟩ := Quota.reserve_eq_ok hq
        exact .entered hwaits hunlocked henabled hfree

/-- Every step is one of the moves. -/
theorem move_of_step? (h : f.step? e = some g) : Move f g := by
  cases e with
  | begin =>
      rw [step?] at h
      split at h
      · next hidle =>
          cases h
          split
          · next henabled => exact .began hidle (of_decide_eq_true henabled)
          · next hdisabled =>
              exact .skipped hidle (Int.not_lt.1 fun hmax => hdisabled (decide_eq_true hmax))
      · cases h
  | list =>
      rw [step?] at h
      split at h
      · next hasked =>
          cases h
          exact .listed hasked
      · cases h
  | listFails e =>
      rw [step?] at h
      split at h
      · next hasked =>
          cases h
          exact .unlisted e hasked
      · cases h
  | proceed => exact move_of_proceed? h
  | obtain r =>
      cases h
      exact .obtained r
  | release s =>
      cases h
      exact .called s
  | enter i =>
      rw [step?] at h
      split at h
      · next hwaits hunlocked =>
          cases h
          exact move_of_enter hwaits hunlocked
      · cases h
  | leave =>
      obtain ⟨k, hinside, rfl⟩ := Option.map_eq_some_iff.1 h
      exact .left hinside
  | remove s =>
      cases h
      exact .stored _
  | put s =>
      rw [step?] at h
      split at h
      · cases h
        exact .stored _
      · cases h

/-! ## Without anything in between -/

/-- A release that nobody interrupts is the release of the manager. -/
theorem release_uninterrupted (f : Restoring) (s : SecretRef) (hunlocked : f.inside = none) :
    ∃ es g, (es = [] ∨ es = [.leave]) ∧
      f.run? (.release s :: .enter f.waiting.length :: es) = some g ∧
      g.manager = f.manager.release s ∧ g.waiting = f.waiting ∧ g.inside = none := by
  let f₁ : Restoring :=
    { f with manager.requests := f.manager.requests.erase s.key }.note (.called s.key)
  -- the call is the last one that waits, and it takes the lock at once
  have henter (es : List RestoringEvent) :
      f.run? (.release s :: .enter f.waiting.length :: es) = (f₁.enter s.key).run? es := by
    have hplace : (f.waiting ++ [s.key])[f.waiting.length]? = some s.key := by simp
    have herase : (f.waiting ++ [s.key]).eraseIdx f.waiting.length = f.waiting := by
      rw [List.eraseIdx_append_of_length_le (Nat.le_refl _)]
      simp
    simp only [run?, step?, note, hplace, herase, hunlocked, Option.bind_some, f₁]
  rcases f.manager.release_cases s with ⟨hinFlight, hrelease⟩ | ⟨hfree, hrelease⟩
  · refine ⟨[], f₁.enter s.key, Or.inl rfl, henter [], ?_⟩
    have hkey : f₁.manager.inFlight.has s.key = true := hinFlight
    rw [enter, if_pos hkey, hrelease]
    exact ⟨rfl, rfl, hunlocked⟩
  · have hkey : ¬ f₁.manager.inFlight.has s.key = true := by
      show ¬ f.manager.inFlight.has s.key = true
      rw [hfree]
      exact Bool.false_ne_true
    rw [hrelease, Quota.release]
    cases hreserve : f.manager.quota.reserve s.key 0 with
    | error e =>
        have hrefused : f₁.quota.reserve s.key 0 = .error e := hreserve
        refine ⟨[], f₁.enter s.key, Or.inl rfl, henter [], ?_⟩
        rw [enter, if_neg hkey, hrefused]
        exact ⟨rfl, rfl, hunlocked⟩
    | ok q =>
        have hreserved : f₁.quota.reserve s.key 0 = .ok q := hreserve
        let left := { f₁.setQuota (q.commit s.key) with inside := none }.note (.gaveBack s.key)
        refine ⟨[.leave], left, Or.inr rfl, ?_, rfl, rfl, rfl⟩
        rw [henter, enter, if_neg hkey, hreserved]
        rfl

/-- A run that consists of one step after the other of the restore. -/
theorem run?_proceed {f₁ : Restoring} {n : Nat} (hstep : f.proceed? = some f₁)
    (hrun : f₁.run? (List.replicate n .proceed) = some g) :
    f.run? (List.replicate (n + 1) .proceed) = some g := by
  rw [List.replicate_succ, run?, step?, hstep, Option.bind_some]
  exact hrun

/-- A secret that nobody interrupts is admitted as the manager admits it. -/
theorem admission_uninterrupted {s : Secret} {rest : List Secret}
    (hlooking : f.stage = .looking (s :: rest)) (hfits : Manager.admitFits f.quota s = true) :
    ∃ n g, f.run? (List.replicate n .proceed) = some g ∧ g.stage = .looking rest ∧
      g.manager = { f.manager with quota := Manager.admitListed f.quota s } := by
  have hlook : f.proceed? = some { f with stage := look f.quota s rest } := by
    rw [proceed?, hlooking]
  cases hread : Bookkeeping.read s with
  | error e =>
      have hunread : look f.quota s rest = .looking rest := by rw [look, hread]
      have hsame : Manager.admitListed f.quota s = f.quota := by rw [Manager.admitListed, hread]
      rw [hunread] at hlook
      rw [hsame]
      exact ⟨1, _, run?_proceed hlook rfl, rfl, rfl⟩
  | ok b =>
      simp only [Manager.admitFits, hread] at hfits
      simp only [look, hread] at hlook
      let tested : Restoring := { f with stage := .tested b.secret.key b.domains.size rest }
      have hregister : tested.proceed? =
          some (tested.register b.secret.key b.domains.size rest) := rfl
      cases hreserve : f.quota.reserve b.secret.key b.domains.size with
      | error e =>
          have hsame : Manager.admitListed f.quota s = f.quota := by
            simp only [Manager.admitListed, hread, hreserve]
          have hsingle := Quota.singleTest_of_error hfits hreserve
          rw [hsame]
          -- the first test refuses, or the second one
          cases hfirst : f.quota.firstTest b.secret.key b.domains.size with
          | some reply =>
              rw [Quota.singleTest_of_firstTest hfirst] at hsingle
              cases hsingle
              rw [hfirst] at hlook
              exact ⟨1, _, run?_proceed hlook rfl, rfl, rfl⟩
          | none =>
              rw [hfirst] at hlook
              rw [Quota.singleTest_of_passed rfl (Quota.firstTest_eq_none hfirst)] at hsingle
              rw [tested.register_of_refused hsingle] at hregister
              exact ⟨2, _, run?_proceed hlook (run?_proceed hregister rfl), rfl, rfl⟩
      | ok q =>
          have hcommitted : Manager.admitListed f.quota s = q.commit b.secret.key := by
            simp only [Manager.admitListed, hread, hreserve]
          have hsingle := Quota.singleTest_of_ok hfits hreserve
          rw [hcommitted]
          cases hfirst : f.quota.firstTest b.secret.key b.domains.size with
          | some reply =>
              rw [Quota.singleTest_of_firstTest hfirst] at hsingle
              exact absurd (congrArg Prod.snd hsingle) (Quota.firstTest_ne_opened hfirst)
          | none =>
              rw [hfirst] at hlook
              rw [Quota.singleTest_of_passed rfl (Quota.firstTest_eq_none hfirst)] at hsingle
              rw [tested.register_of_opened hsingle] at hregister
              let reserved : Restoring :=
                { f.setQuota q with stage := .reserved b.secret.key b.domains.size rest }
              have hcommit : reserved.proceed? = some
                  ({ f.setQuota (q.commit b.secret.key) with stage := .looking rest }.note
                    (.admitted b.secret.key b.domains.size)) := rfl
              exact ⟨3, _, run?_proceed hlook (run?_proceed hregister (run?_proceed hcommit rfl)),
                rfl, rfl⟩

/-- The restore that nobody interrupts is the restore of the manager. -/
theorem admissions_uninterrupted {listing : List Secret} (hlooking : f.stage = .looking listing)
    (hfits : Manager.computable f.quota listing = listing) :
    ∃ n g, f.run? (List.replicate n .proceed) = some g ∧ g.stage = .finished ∧
      g.manager = (f.manager.afterRestoreListing (.ok listing)).markRestored := by
  induction listing generalizing f with
  | nil =>
      have hdone : f.proceed? = some f.finish := by rw [proceed?, hlooking]
      exact ⟨1, f.finish, run?_proceed hdone rfl, rfl, rfl⟩
  | cons s rest ih =>
      rw [Manager.computable] at hfits
      split at hfits
      · next hfirst =>
          obtain ⟨n, f₁, hrun, hlooking₁, hmanager⟩ := admission_uninterrupted hlooking hfirst
          have hquota : f₁.quota = Manager.admitListed f.quota s := congrArg Manager.quota hmanager
          obtain ⟨n', g, hrest, hfinished, hrestored⟩ := ih hlooking₁ (by
            rw [hquota]
            exact (List.cons.inj hfits).2)
          refine ⟨n + n', g, ?_, hfinished, ?_⟩
          · rw [List.replicate_add, run?_append, hrun]
            exact hrest
          · rw [hrestored, hmanager]
            rfl
      · cases hfits

end Restoring

end IngressTls
