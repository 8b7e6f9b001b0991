import IngressTls.Proofs.Manager.Consistency

set_option autoImplicit false

/-! # After a release

Requests of some sort are *recalled* when none of them is stored and every worker that issues
for one of them has been told so. As long as nobody asks for them again, they stay recalled:
no such request is stored or taken, a secret is written for one only if its write was under
way already, and a write that succeeds is followed by a withdrawal.

A worker that was told gives back what its key has acquired when it ends, and a key that no
worker issues for gives it back at the release. So nothing is acquired for a released key once
no worker issues for it.

Main statements: `Sound.recalled_release`, `Recalled.move`, `Sound.returned_release` and
`Returned.move`.
-/

namespace IngressTls

namespace Floor

/-! ## The journal grows -/

theorem journal_move {f g : Floor} (h : Move f g) : ∃ d, g.journal = d ++ f.journal := by
  cases h with
  | @read i r service reading => exact ⟨service.notes r.target, rfl⟩
  | @wrote i r s service storing effect =>
      exact ⟨service.notes r.target ++ [.wrote r.target], by rw [List.append_assoc]; rfl⟩
  | @withdrew i r service withdrawing effect =>
      exact ⟨service.notes r.target ++ [.withdrew r.target], by rw [List.append_assoc]; rfl⟩
  | @unwritten i r s service storing effect => exact ⟨service.notes r.target, rfl⟩
  | @unwithdrawn i r service withdrawing effect => exact ⟨service.notes r.target, rfl⟩
  | renewed threshold now scan => exact ⟨_, rfl⟩
  | asked r => exact ⟨[.asked r], rfl⟩
  | released s => exact ⟨[.released s], rfl⟩
  | looked s => exact ⟨[.looked s], rfl⟩
  | removed s => exact ⟨[.removed s], rfl⟩
  | @placed s named => exact ⟨[.placed s.ref], rfl⟩
  | _ => exact ⟨[], rfl⟩

theorem journal_run? {f g : Floor} {es : List FloorEvent} (h : f.run? es = some g) :
    ∃ d, g.journal = d ++ f.journal := by
  induction es generalizing f with
  | nil =>
      cases h
      exact ⟨[], rfl⟩
  | cons e es ih =>
      rw [run?_cons] at h
      obtain ⟨f', hstep, hrest⟩ := Option.bind_eq_some_iff.1 h
      obtain ⟨d₁, h₁⟩ := journal_move (move_of_step? hstep)
      obtain ⟨d₂, h₂⟩ := ih hrest
      exact ⟨d₂ ++ d₁, by rw [h₂, h₁, List.append_assoc]⟩

/-- What is noted up to a state and what is noted after it are all that is noted. -/
theorem journal_append {f f' g : Floor} {d d₁ d₂ : List Deed} (hd : g.journal = d ++ f.journal)
    (h₁ : f'.journal = d₁ ++ f.journal) (h₂ : g.journal = d₂ ++ f'.journal) : d = d₂ ++ d₁ := by
  refine (List.append_left_inj f.journal).1 ?_
  rw [← hd, h₂, h₁, List.append_assoc]

/-- The first step of a run and the rest of it, with what they note. -/
theorem run?_split {f g : Floor} {e : FloorEvent} {es : List FloorEvent} {d : List Deed}
    (hrun : f.run? (e :: es) = some g) (hd : g.journal = d ++ f.journal) :
    ∃ f' d₁ d₂, f.step? e = some f' ∧ f'.run? es = some g ∧ f'.journal = d₁ ++ f.journal ∧
      g.journal = d₂ ++ f'.journal ∧ d = d₂ ++ d₁ := by
  rw [run?_cons] at hrun
  obtain ⟨f', hstep, hrest⟩ := Option.bind_eq_some_iff.1 hrun
  obtain ⟨d₁, h₁⟩ := journal_move (move_of_step? hstep)
  obtain ⟨d₂, h₂⟩ := journal_run? hrest
  exact ⟨f', d₁, d₂, hstep, hrest, h₁, h₂, journal_append hd h₁ h₂⟩

/-- A property that every step preserves, as long as what is noted is harmless, is preserved by
every run in which only harmless things are noted. -/
theorem run?_steps {P : Floor → Prop} {Q : Deed → Prop}
    (hstep : ∀ {f g d} {e : FloorEvent}, f.Sound → P f → f.step? e = some g →
      g.journal = d ++ f.journal → (∀ x ∈ d, Q x) → P g)
    {f g : Floor} {es : List FloorEvent} {d : List Deed} (hs : f.Sound) (hp : P f)
    (hrun : f.run? es = some g) (hd : g.journal = d ++ f.journal) (hd' : ∀ x ∈ d, Q x) :
    P g := by
  induction es generalizing f d with
  | nil =>
      cases hrun
      exact hp
  | cons e es ih =>
      obtain ⟨f', d₁, d₂, hfirst, hrest, h₁, h₂, rfl⟩ := run?_split hrun hd
      have hs' := hs.move (move_of_step? hfirst)
      refine ih hs' (hstep hs hp hfirst h₁ fun x hx => ?_) hrest h₂ fun x hx => ?_
      · exact hd' x (List.mem_append_right _ hx)
      · exact hd' x (List.mem_append_left _ hx)

/-- The same for what every move preserves, whatever the event. -/
theorem run?_induction {P : Floor → Prop} {Q : Deed → Prop}
    (hmove : ∀ {f g d}, f.Sound → P f → Move f g → g.journal = d ++ f.journal →
      (∀ x ∈ d, Q x) → P g)
    {f g : Floor} {es : List FloorEvent} {d : List Deed} (hs : f.Sound) (hp : P f)
    (hrun : f.run? es = some g) (hd : g.journal = d ++ f.journal) (hd' : ∀ x ∈ d, Q x) :
    P g :=
  run?_steps (fun hs hp hstep => hmove hs hp (move_of_step? hstep)) hs hp hrun hd hd'

/-! ## Recalled requests -/

/-- No request of a sort is stored, and every worker that issues for one was told that it was
released. -/
structure Recalled (f : Floor) (P : Request → Prop) : Prop where
  /-- No such request is stored. -/
  stored : ∀ k r, f.manager.requests.find? k = some r → ¬ P r
  /-- The workers have been told. -/
  told : ∀ i r, (f.post i).request? = some r → P r → f.manager.isReleased r.key = true

/-- What does not ask for a request of a sort. -/
def Unasking (P : Request → Prop) : Deed → Prop
  | .asked r | .renewed r => ¬ P r
  | _ => True

/-- Whether requests are recalled only depends on what is stored, what is in flight and who
issues for what. -/
theorem Recalled.congr {f g : Floor} {P : Request → Prop} (h : f.Recalled P)
    (hrequests : g.manager.requests = f.manager.requests)
    (hinFlight : g.manager.inFlight = f.manager.inFlight)
    (hposts : ∀ j r, (g.post j).request? = some r → (f.post j).request? = some r) :
    g.Recalled P := by
  constructor
  · intro k r hr
    rw [hrequests] at hr
    exact h.stored k r hr
  · intro j r hr hP
    have hold := h.told j r (hposts j r hr) hP
    rw [Manager.isReleased_eq_true] at hold ⊢
    rw [hinFlight]
    exact hold

/-- A worker goes on with its key. -/
theorem Recalled.goOn {f g : Floor} {P : Request → Prop} (h : f.Recalled P) {i : Nat} {p : Post}
    {r : Request} (hi : (f.post i).request? = some r) (hp : p.request? = some r)
    (hrequests : g.manager.requests = f.manager.requests)
    (hinFlight : g.manager.inFlight = f.manager.inFlight)
    (hposts : g.posts = (f.setPost i p).posts) : g.Recalled P := by
  refine h.congr hrequests hinFlight fun j r' hr' => ?_
  have hpost : g.post j = (f.setPost i p).post j := by rw [post, post, hposts]
  rw [hpost, post_setPost (ne_ended_of_request hi)] at hr'
  split at hr'
  · next hj =>
      rw [hp] at hr'
      rw [hj, hi, hr']
  · exact hr'

theorem Recalled.setManager {f : Floor} {P : Request → Prop} (h : f.Recalled P) {m : Manager}
    (hstored : ∀ k r, m.requests.find? k = some r → ¬ P r)
    (htold : ∀ k, f.manager.isReleased k = true → m.isReleased k = true) :
    (f.setManager m).Recalled P :=
  ⟨hstored, fun i r hr hP => htold r.key (h.told i r hr hP)⟩

/-- A worker takes a key with its request, which was not recalled. -/
theorem Recalled.start {f : Floor} {P : Request → Prop} (hs : f.Sound) (h : f.Recalled P)
    {i : Nat} (hi : f.post i = .idle) {m : Manager} {k : String}
    (ht : f.manager.take i = (m, .key k)) {r : Request}
    (hr : f.manager.requests.find? k = some r) :
    ((f.setManager (m.startOn k).1).setPost i (.reading r none)).Recalled P := by
  obtain ⟨q, hq, rfl⟩ := Manager.take_eq ht
  obtain ⟨-, hnew, -⟩ := hs.tidy.take_key hq
  have hne := ne_ended_of_idle hi
  constructor
  · intro j r' hr'
    change (f.manager.requests.erase k).find? j = some r' at hr'
    exact h.stored j r' (Table.find?_erase_eq_some.1 hr').2
  · intro j r' hr' hP
    change ((f.setPost i (.reading r none)).post j).request? = some r' at hr'
    rw [post_setPost hne] at hr'
    split at hr'
    · cases hr'
      exact absurd hP (h.stored k r hr)
    · -- a key that is handed out was not held, so nobody else issues for it
      have hkey : r'.key ≠ k := by
        rintro rfl
        exact hnew ((hs.held _).2 ⟨j, keyAt_of_request hr'⟩)
      have hold := Manager.isReleased_eq_true.1 (h.told j r' hr' hP)
      rw [Manager.isReleased_eq_true]
      show (f.manager.inFlight.insert k false).find? r'.key = some true
      rw [Table.find?_insert, if_neg hkey]
      exact hold

/-- An issuance ends. If its request is recalled, the worker was told, and so it is not
stored again. -/
theorem Recalled.conclude {f : Floor} {P : Request → Prop} (hs : f.Sound) (h : f.Recalled P)
    {i : Nat} {r : Request} (hi : (f.post i).request? = some r) {m : Manager}
    (hrequests : m.requests = f.manager.requests)
    (hinFlight : ∀ k, k ≠ r.key → m.inFlight.find? k = f.manager.inFlight.find? k)
    (htold : P r → m.isReleased r.key = true) (result : Except Error Unit) :
    ((f.setManager m).conclude i r result).Recalled P := by
  have hne := ne_ended_of_request hi
  let m₁ := (m.settle r.key r result).1
  have hset : Manager.Settled m m₁ := Manager.settled_settle m r.key r result
  suffices hrecalled : ((f.setManager (m₁.finish r.key)).setPost i .idle).Recalled P from
    hrecalled.congr rfl rfl fun _ _ hr => hr
  constructor
  · intro k r' hr'
    change (m₁.finish r.key).requests.find? k = some r' at hr'
    rw [Manager.finish_requests] at hr'
    rcases Manager.requests_settle hr' with hold | ⟨-, hrr, hreleased, -⟩
    · rw [hrequests] at hold
      exact h.stored k r' hold
    · intro hP
      rw [htold (hrr ▸ hP)] at hreleased
      cases hreleased
  · intro j r' hr' hP
    change ((f.setPost i .idle).post j).request? = some r' at hr'
    rw [post_setPost hne] at hr'
    split at hr'
    · cases hr'
    · next hj =>
        -- no two workers issue for one key, so the flags of the others stay
        have hkey : r'.key ≠ r.key := fun hkey =>
          hj (hs.apart j i r.key (hkey ▸ keyAt_of_request hr') (keyAt_of_request hi))
        have hold := Manager.isReleased_eq_true.1 (h.told j r' hr' hP)
        rw [Manager.isReleased_eq_true]
        show (m₁.finish r.key).inFlight.find? r'.key = some true
        rw [Manager.finish_inFlight, Table.find?_erase, if_neg hkey, hset.inFlight,
          hinFlight r'.key hkey]
        exact hold

theorem Recalled.obtainAll {f : Floor} {P : Request → Prop} (h : f.Recalled P)
    {rs : List Request} (hrs : ∀ r ∈ rs, ¬ P r) :
    (f.setManager (f.manager.obtainAll rs)).Recalled P := by
  obtain ⟨-, hinFlight, -⟩ := Manager.obtainAll_facts f.manager rs
  refine h.setManager (fun k r hr => ?_) fun k hk => ?_
  · rcases Manager.requests_obtainAll hr with ⟨hmem, -⟩ | hold
    · exact hrs r hmem
    · exact h.stored k r hold
  · rw [Manager.isReleased_eq_true, hinFlight]
    exact Manager.isReleased_eq_true.1 hk

/-- A release flags what is in flight and asks for nothing. -/
theorem Recalled.release {f : Floor} {P : Request → Prop} (h : f.Recalled P) (s : SecretRef) :
    (f.setManager (f.manager.release s)).Recalled P := by
  have hstored : ∀ k r, (f.manager.requests.erase s.key).find? k = some r → ¬ P r :=
    fun k r hr => h.stored k r (Table.find?_erase_eq_some.1 hr).2
  obtain ⟨-, heq⟩ | ⟨-, heq⟩ := Manager.release_cases f.manager s
  · rw [heq]
    refine h.setManager hstored fun k hk => ?_
    rw [Manager.isReleased_eq_true] at hk ⊢
    show (f.manager.inFlight.insert s.key true).find? k = some true
    rw [Table.find?_insert]
    split
    · rfl
    · exact hk
  · rw [heq]
    exact h.setManager hstored fun k hk => hk

/-- A release recalls the requests of its key. -/
theorem Sound.recalled_release {f : Floor} (h : f.Sound) (s : SecretRef) :
    (f.setManager (f.manager.release s)).Recalled fun r => r.key = s.key := by
  have hstored : ∀ k r, (f.manager.requests.erase s.key).find? k = some r → r.key ≠ s.key := by
    intro k r hr hkey
    obtain ⟨hk, hold⟩ := Table.find?_erase_eq_some.1 hr
    exact hk ((h.keyed k r hold).symm.trans hkey)
  obtain ⟨-, heq⟩ | ⟨hfree, heq⟩ := Manager.release_cases f.manager s
  · rw [heq]
    refine ⟨hstored, fun i r hi hkey => ?_⟩
    rw [Manager.isReleased_eq_true, hkey]
    show (f.manager.inFlight.insert s.key true).find? s.key = some true
    rw [Table.find?_insert, if_pos rfl]
  · rw [heq]
    refine ⟨hstored, fun i r hi hkey => ?_⟩
    have hbusy : f.Busy s.key := ⟨i, hkey ▸ keyAt_of_request hi⟩
    rw [(h.inFlight s.key).2 hbusy] at hfree
    cases hfree

theorem Recalled.skip {f : Floor} {P : Request → Prop} (hs : f.Sound) (h : f.Recalled P)
    {i : Nat} {m : Manager} {k : String} (ht : f.manager.take i = (m, .key k)) :
    (f.setManager ((m.startOn k).1.finish k)).Recalled P := by
  obtain ⟨-, hinFlight⟩ := hs.skip_facts ht
  obtain ⟨q, -, rfl⟩ := Manager.take_eq ht
  refine h.setManager ?_ fun j hj => ?_
  · intro j r hr
    rw [Manager.finish_requests] at hr
    change (f.manager.requests.erase k).find? j = some r at hr
    exact h.stored j r (Table.find?_erase_eq_some.1 hr).2
  · rw [Manager.isReleased_eq_true] at hj ⊢
    rw [hinFlight]
    exact hj

/-- A worker gets no key. -/
theorem Recalled.wait {f : Floor} {P : Request → Prop} (h : f.Recalled P) {i : Nat}
    {m : Manager} {taken : Taken} (ht : f.manager.take i = (m, taken)) :
    (f.setManager m).Recalled P := by
  obtain ⟨q, -, rfl⟩ := Manager.take_eq ht
  exact h.setManager h.stored fun _ hk => hk

theorem Recalled.leave {f : Floor} {P : Request → Prop} (h : f.Recalled P) {i : Nat}
    (hi : f.post i = .idle) : (f.setPost i .ended).Recalled P := by
  refine h.congr rfl rfl fun j r hr => ?_
  rw [post_setPost (ne_ended_of_idle hi)] at hr
  split at hr
  · cases hr
  · exact hr

theorem Recalled.move {f g : Floor} {P : Request → Prop} {d : List Deed} (hs : f.Sound)
    (h : f.Recalled P) (hm : Move f g) (hd : g.journal = d ++ f.journal)
    (hasks : ∀ x ∈ d, Unasking P x) : g.Recalled P := by
  cases hm with
  | waited idle taken => exact h.wait taken
  | left idle taken => exact (h.wait taken).leave idle
  | skipped idle taken none => exact h.skip hs taken
  | started idle taken some => exact h.start hs idle taken some
  | @read i r service reading =>
      have hi : (f.post i).request? = some r := by rw [reading]; rfl
      exact h.goOn (p := .reading r _) hi rfl rfl rfl rfl
  | @wrote i r s service storing effect =>
      have hi : (f.post i).request? = some r := by rw [storing]; rfl
      exact h.goOn (p := .storing r s _) hi rfl rfl rfl rfl
  | @unwritten i r s service storing effect =>
      have hi : (f.post i).request? = some r := by rw [storing]; rfl
      exact h.goOn (p := .storing r s _) hi rfl rfl rfl rfl
  | @withdrew i r service withdrawing effect =>
      have hi : (f.post i).request? = some r := by rw [withdrawing]; rfl
      exact h.goOn (p := .withdrawing r _) hi rfl rfl rfl rfl
  | @unwithdrawn i r service withdrawing effect =>
      have hi : (f.post i).request? = some r := by rw [withdrawing]; rfl
      exact h.goOn (p := .withdrawing r _) hi rfl rfl rfl rfl
  | @failed i r a e reading =>
      have hi : (f.post i).request? = some r := by rw [reading]; rfl
      exact h.conclude hs (m := f.manager) hi rfl (fun _ _ => rfl) (h.told i r hi) _
  | @reserved i r a q reading ours ok =>
      have hi : (f.post i).request? = some r := by rw [reading]; rfl
      exact h.goOn (p := .ordering r) hi rfl rfl rfl rfl
  | @gaveUp i r result standing why =>
      have hi := request_of_standing standing
      exact h.conclude hs (m := f.manager.rollback r) hi rfl (fun _ _ => rfl) (h.told i r hi) _
  | @ordered i r certificate ordering unreleased =>
      have hi : (f.post i).request? = some r := by rw [ordering]; rfl
      exact h.goOn (p := .storing r _ none) hi rfl rfl rfl rfl
  | @recalled i r s storing released =>
      have hi : (f.post i).request? = some r := by rw [storing]; rfl
      exact h.goOn (p := .withdrawing r none) hi rfl rfl rfl rfl
  | @stored i r s storing unreleased =>
      have hi : (f.post i).request? = some r := by rw [storing]; rfl
      refine h.conclude hs (m := { f.manager with
        inFlight := f.manager.inFlight.erase r.key
        quota := f.manager.quota.commit r.key }) hi rfl (fun k hk => ?_) (fun hP => ?_) _
      · show (f.manager.inFlight.erase r.key).find? k = _
        rw [Table.find?_erase, if_neg hk]
      · -- a recalled request is not committed
        rw [h.told i r hi hP] at unreleased
        cases unreleased
  | @cleared i r a withdrawing =>
      have hi : (f.post i).request? = some r := by rw [withdrawing]; rfl
      exact h.conclude hs (m := f.manager) hi rfl (fun _ _ => rfl) (h.told i r hi) _
  | rang timer => exact h.congr rfl rfl fun _ _ hr => hr
  | listed unlisted => exact h.congr rfl rfl fun _ _ hr => hr
  | @renewed listing threshold now scan =>
      let due := listing.filterMap (f.manager.due? threshold now)
      have hdue : (due.map fun b => Deed.renewed b.toRequest).reverse = d :=
        (List.append_left_inj f.journal).1 hd
      -- a renewal is noted, and nothing that is noted asks for a recalled request
      have hrs : ∀ r ∈ due.map Bookkeeping.toRequest, ¬ P r := by
        intro r hr
        obtain ⟨b, hb, rfl⟩ := List.mem_map.1 hr
        refine hasks (.renewed b.toRequest) ?_
        rw [← hdue, List.mem_reverse]
        exact List.mem_map_of_mem hb
      have hm := Manager.afterRenewalListing_fst f.manager threshold now listing
      exact (h.obtainAll hrs).congr (congrArg Manager.requests hm) (congrArg Manager.inFlight hm)
        fun _ _ hr => hr
  | asked r =>
      have hone : [Deed.asked r] = d := (List.append_left_inj f.journal).1 hd
      have hrs : ∀ r' ∈ [r], ¬ P r' := by
        intro r' hr'
        rw [List.mem_singleton.1 hr']
        exact hasks (.asked r) (by rw [← hone]; exact List.mem_singleton_self _)
      exact (h.obtainAll hrs).congr rfl rfl fun _ _ hr => hr
  | released s => exact (h.release s).congr rfl rfl fun _ _ hr => hr
  | looked s => exact h.congr rfl rfl fun _ _ hr => hr
  | removed s => exact h.congr rfl rfl fun _ _ hr => hr
  | placed named => exact h.congr rfl rfl fun _ _ hr => hr
  | stopped => exact h.congr rfl rfl fun _ _ hr => hr

/-! ## The quota

A key that is not in flight has nothing acquired after its release: a release gives it back
at once, or the worker that was told does when it ends. -/

/-- A key has given back what it acquired, or a worker issues for it. -/
def Returned (f : Floor) (k : String) : Prop :=
  f.manager.inFlight.has k = false → f.manager.quota.acquired.find? k = none

theorem Returned.congr {f g : Floor} {k : String} (h : f.Returned k)
    (hinFlight : g.manager.inFlight.has k = f.manager.inFlight.has k)
    (hacquired : g.manager.quota.acquired.find? k = f.manager.quota.acquired.find? k) :
    g.Returned k := by
  intro hfree
  rw [hinFlight] at hfree
  rw [hacquired]
  exact h hfree

theorem Returned.of_manager {f g : Floor} {k : String} (h : f.Returned k)
    (hm : g.manager = f.manager) : g.Returned k :=
  h.congr (by rw [hm]) (by rw [hm])

/-- A worker that was told gives the quota of its key back when it ends, and any other leaves the
quota as it is. -/
theorem quota_conclude (f : Floor) (i : Nat) (r : Request) (result : Except Error Unit) :
    (f.conclude i r result).manager.quota =
      if f.manager.isReleased r.key then f.manager.quota.release r.key else f.manager.quota := by
  have hset := Manager.settled_settle f.manager r.key r result
  show ((f.manager.settle r.key r result).1.finish r.key).quota = _
  rw [Manager.finish_quota, hset.quota, Manager.isReleased, hset.inFlight, Manager.isReleased]

/-- A key that has given its reservation up can give back what it has acquired. -/
theorem Unreserved.returned {m m' : Manager} {k : String} (h : Unreserved m m' k) :
    (m'.quota.release k).acquired.find? k = none := by
  refine Quota.find?_release_self (fun hmax => ?_) ?_
  · exact h.disabled (h.max ▸ hmax) k
  · rw [h.pending, if_pos rfl]

/-- A worker that was told gives the quota of its key back when it ends. -/
theorem Returned.conclude {f : Floor} {k : String} (h : f.Returned k) (i : Nat) {r : Request}
    {m : Manager} (hm : Unreserved f.manager m r.key) (htold : r.key = k → m.isReleased r.key = true)
    (hacquired : ∀ j, j ≠ r.key →
      m.quota.acquired.find? j = f.manager.quota.acquired.find? j)
    (result : Except Error Unit) : ((f.setManager m).conclude i r result).Returned k := by
  let m₁ := (m.settle r.key r result).1
  have hset : Manager.Settled m m₁ := Manager.settled_settle m r.key r result
  suffices hreturned : (f.setManager (m₁.finish r.key)).Returned k from
    hreturned.of_manager rfl
  have hquota : (m₁.finish r.key).quota =
      if m.isReleased r.key then m.quota.release r.key else m.quota :=
    quota_conclude (f.setManager m) i r result
  by_cases hk : r.key = k
  · intro _
    show (m₁.finish r.key).quota.acquired.find? k = none
    rw [hquota, if_pos (htold hk), ← hk]
    exact hm.returned
  · have hk : k ≠ r.key := fun heq => hk heq.symm
    refine h.congr ?_ ?_
    · show (m₁.finish r.key).inFlight.has k = _
      rw [Manager.finish_inFlight, Table.has_erase, hset.inFlight, hm.inFlight k hk]
      simp [hk]
    · show (m₁.finish r.key).quota.acquired.find? k = _
      rw [hquota, ← hacquired k hk]
      split
      · exact Quota.find?_release_ne _ hk
      · rfl

/-- A key that is not in flight has nothing pending. -/
theorem Sound.pending_free {f : Floor} (h : f.Sound) {k : String}
    (hk : f.manager.inFlight.has k = false) : f.manager.quota.pending.find? k = none := by
  refine h.pending_eq_none fun hbusy => ?_
  rw [(h.inFlight k).2 hbusy] at hk
  cases hk

/-- A key that is not in flight can give back what it has acquired. -/
theorem Sound.returned_free {f : Floor} (h : f.Sound) {k : String}
    (hk : f.manager.inFlight.has k = false) :
    (f.manager.quota.release k).acquired.find? k = none :=
  Quota.find?_release_self (fun hmax => (h.disabled hmax k).1) (h.pending_free hk)

/-- A key that is released gives back what it acquired. -/
theorem Sound.returned_release {f : Floor} (h : f.Sound) (s : SecretRef) :
    (f.setManager (f.manager.release s)).Returned s.key := by
  obtain ⟨hflight, heq⟩ | ⟨hfree, heq⟩ := Manager.release_cases f.manager s
  · rw [heq]
    intro hnot
    change (f.manager.inFlight.insert s.key true).has s.key = false at hnot
    rw [Table.has_insert] at hnot
    simp at hnot
  · rw [heq]
    exact fun _ => h.returned_free hfree

theorem Returned.release {f : Floor} {k : String} (hs : f.Sound) (h : f.Returned k)
    (s : SecretRef) : (f.setManager (f.manager.release s)).Returned k := by
  by_cases hk : k = s.key
  · rw [hk]
    exact hs.returned_release s
  · obtain ⟨-, heq⟩ | ⟨hfree, heq⟩ := Manager.release_cases f.manager s
    · rw [heq]
      refine h.congr ?_ rfl
      show (f.manager.inFlight.insert s.key true).has k = f.manager.inFlight.has k
      rw [Table.has_insert]
      simp [hk]
    · rw [heq]
      exact h.congr rfl (Quota.find?_release_ne _ hk)

/-- After its release a key gives back what it acquired, as long as its requests stay
recalled. -/
theorem Returned.move {f g : Floor} {P : Request → Prop} {k : String} (hs : f.Sound)
    (hr : f.Recalled P) (hP : ∀ r, r.key = k → P r) (h : f.Returned k) (hm : Move f g) :
    g.Returned k := by
  have htold : ∀ {i r}, (f.post i).request? = some r → r.key = k →
      f.manager.isReleased r.key = true :=
    fun hi hk => hr.told _ _ hi (hP _ hk)
  cases hm with
  | waited idle taken =>
      obtain ⟨q, -, rfl⟩ := Manager.take_eq taken
      exact h
  | left idle taken =>
      obtain ⟨q, -, rfl⟩ := Manager.take_eq taken
      exact h
  | skipped idle taken none =>
      obtain ⟨hquota, hinFlight⟩ := hs.skip_facts taken
      refine h.congr ?_ ?_
      · exact congrArg Option.isSome (hinFlight k)
      · exact congrArg (fun q : Quota => q.acquired.find? k) hquota
  | @started i m k' r idle taken some =>
      obtain ⟨q, -, rfl⟩ := Manager.take_eq taken
      intro hfree
      change (f.manager.inFlight.insert k' false).has k = false at hfree
      rw [Table.has_insert, Bool.or_eq_false_iff] at hfree
      exact h hfree.2
  | read service reading => exact h.of_manager rfl
  | wrote storing effect => exact h.of_manager rfl
  | unwritten storing effect => exact h.of_manager rfl
  | withdrew withdrawing effect => exact h.of_manager rfl
  | unwithdrawn withdrawing effect => exact h.of_manager rfl
  | @failed i r a e reading =>
      have hi : (f.post i).request? = some r := by rw [reading]; rfl
      have hnone : (f.post i).reservation? = none := by rw [reading]; rfl
      exact h.conclude i (hs.unreserved_self (hs.pending_eq_none_of_unreserved hi hnone))
        (htold hi) (fun _ _ => rfl) _
  | @reserved i r a q reading ours ok =>
      obtain ⟨-, -, rfl⟩ := Quota.reserve_eq_ok ok
      exact h.congr rfl rfl
  | @gaveUp i r result standing why =>
      have hi := request_of_standing standing
      exact h.conclude i (hs.unreserved_rollback r) (htold hi) (fun _ _ => rfl) _
  | ordered certificate ordering unreleased => exact h.of_manager rfl
  | recalled storing released => exact h.congr rfl rfl
  | @stored i r s storing unreleased =>
      have hi : (f.post i).request? = some r := by rw [storing]; rfl
      -- a worker that commits was not told, so it issues for another key
      have hk : r.key ≠ k := by
        intro hk
        rw [htold hi hk] at unreleased
        cases unreleased
      refine h.conclude i (hs.unreserved_commit r) (fun heq => absurd heq hk) (fun j hj => ?_) _
      have hres : (f.post i).reservation? = some r := by rw [storing]; rfl
      show (f.manager.quota.commit r.key).acquired.find? j = _
      rw [Quota.find?_commit (hs.reserved i r hres), if_neg hj]
  | @cleared i r a withdrawing =>
      have hi : (f.post i).request? = some r := by rw [withdrawing]; rfl
      have hnone : (f.post i).reservation? = none := by rw [withdrawing]; rfl
      exact h.conclude i (hs.unreserved_self (hs.pending_eq_none_of_unreserved hi hnone))
        (htold hi) (fun _ _ => rfl) _
  | rang timer => exact h.congr rfl rfl
  | listed unlisted => exact h.of_manager rfl
  | @renewed listing threshold now scan =>
      let due := listing.filterMap (f.manager.due? threshold now)
      obtain ⟨-, hinFlight, hquota, -⟩ :=
        Manager.obtainAll_facts f.manager (due.map Bookkeeping.toRequest)
      have hm := Manager.afterRenewalListing_fst f.manager threshold now listing
      refine h.congr ?_ ?_
      · show (f.manager.afterRenewalListing threshold now (.ok listing)).1.inFlight.has k = _
        rw [hm, hinFlight]
      · show (f.manager.afterRenewalListing threshold now (.ok listing)).1.quota.acquired.find? k
          = _
        rw [hm, hquota]
  | asked r => exact h.congr rfl rfl
  | released s => exact (h.release hs s).of_manager rfl
  | looked s => exact h.of_manager rfl
  | removed s => exact h.of_manager rfl
  | placed named => exact h.of_manager rfl
  | stopped => exact h.congr rfl rfl

end Floor

end IngressTls
