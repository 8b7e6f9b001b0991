import IngressTls.Proofs.Journal
import IngressTls.Proofs.Manager.Recall
import IngressTls.Proofs.Manager.Start
import IngressTls.Proofs.Manager.Turns

set_option autoImplicit false

/-! # The newest demand

Demand for a key comes from outside and from the renewal scan, and both write to the same
place: what is stored is the request that was made last, whoever made it. A worker that has to
try again stores its request only if nothing newer is stored, and only if it was not released.
So the request that a worker takes is always the newest one for its key.

The newest request need not be the one with the newest domains. A renewal asks for the domains of
the secret as it was listed, and takes the place of a request from outside that no worker has
served yet.

Main statements: `Current.move` and `taken_after_scan`.
-/

namespace IngressTls

namespace Deed

/-- The deed asks for a key or releases it. -/
def IsFor (k : String) : Deed → Prop
  | asked r | renewed r => r.key = k
  | released s => s.key = k
  | looked _ | wrote _ | withdrew _ | removed _ | placed _ | failed _ => False

/-- The deed asks for a key from outside, or releases it. -/
def IsOutside (k : String) : Deed → Prop
  | asked r => r.key = k
  | released s => s.key = k
  | renewed _ | looked _ | wrote _ | withdrew _ | removed _ | placed _ | failed _ => False

/-- The deed asks for a request. -/
def AsksFor (r : Request) (x : Deed) : Prop := x = asked r ∨ x = renewed r

theorem AsksFor.isFor {r : Request} {x : Deed} (h : x.AsksFor r) : x.IsFor r.key := by
  rcases h with rfl | rfl
  · rfl
  · rfl

theorem IsOutside.isFor {k : String} {x : Deed} (h : x.IsOutside k) : x.IsFor k := by
  cases x with
  | asked r => exact h
  | released s => exact h
  | renewed r => exact h.elim
  | looked s => exact h
  | wrote s => exact h
  | withdrew s => exact h
  | removed s => exact h
  | placed s => exact h
  | failed s => exact h

end Deed

/-- A request is the newest one for its key, and the key was not released since. -/
def Newest (r : Request) (d : List Deed) : Prop := Since (Deed.AsksFor r) (Deed.IsFor r.key) d

/-- A request is the newest one from outside for its key, and the key was not released since. -/
def Wanted (r : Request) (d : List Deed) : Prop := Since (· = .asked r) (Deed.IsOutside r.key) d

/-- A request is the newest one for its key, and the renewal scan made it. -/
def Renewal (r : Request) (d : List Deed) : Prop := Since (· = .renewed r) (Deed.IsFor r.key) d

theorem Newest.asked {r : Request} {d : List Deed} (h : Newest r d) : ∃ x ∈ d, x.AsksFor r := by
  obtain ⟨recent, x, before, rfl, hx, -⟩ := h
  exact ⟨x, List.mem_append_right _ List.mem_cons_self, hx⟩

theorem Newest.append {r : Request} {d recent : List Deed} (h : Newest r d)
    (hrecent : ∀ x ∈ recent, ¬ x.IsFor r.key) : Newest r (recent ++ d) :=
  Since.append h hrecent

/-- Only one request for a key is the newest. -/
theorem Newest.unique {r r' : Request} {d : List Deed} (h : Newest r d) (h' : Newest r' d)
    (hkey : r'.key = r.key) : r' = r := by
  rw [Newest, hkey] at h'
  obtain ⟨x, -, hx, hx'⟩ := Since.both h h' (fun x hx => hx.isFor) fun x hx => hkey ▸ hx.isFor
  rcases hx with rfl | rfl
  · rcases hx' with heq | heq
    · exact (Deed.asked.inj heq).symm
    · cases heq
  · rcases hx' with heq | heq
    · cases heq
    · exact (Deed.renewed.inj heq).symm

/-- The newest request for a key for which something is wanted is what is wanted, or a renewal. -/
theorem Newest.of_wanted {r r₀ : Request} {d : List Deed} (h : Newest r d) (h₀ : Wanted r₀ d)
    (hkey : r.key = r₀.key) : r = r₀ ∨ Renewal r d := by
  rcases since_or.1 h with hasked | hrenewed
  · -- both were asked for from outside, and each of them last
    have hwanted : Since (· = .asked r) (Deed.IsOutside r₀.key) d := by
      refine hasked.mono (fun _ => id) fun x hx => ?_
      rw [hkey]
      exact hx.isFor
    obtain ⟨x, -, rfl, heq⟩ := Since.both hwanted h₀ (by rintro x rfl; exact hkey)
      (by rintro x rfl; rfl)
    exact Or.inl (Deed.asked.inj heq)
  · exact Or.inr hrenewed

theorem Renewal.newest {r : Request} {d : List Deed} (h : Renewal r d) : Newest r d :=
  Since.mono h (fun _ => Or.inr) fun _ => id

namespace Manager

/-- A settlement stores a request again only if nothing newer is stored and it was not released. -/
theorem settle_requests (m : Manager) (k : String) (r : Request) (result : Except Error Unit) :
    (m.settle k r result).1.requests = m.requests ∨
    m.requests.has k = false ∧ m.isReleased k = false ∧
      (m.settle k r result).1.requests = m.requests.insert k r := by
  obtain hs | ⟨hreleased, -, hs⟩ := settle_cases m k r result
  · rw [hs]
    exact Or.inl rfl
  · rw [hs]
    simp only [requeue]
    split
    · exact Or.inl rfl
    · next hnone => exact Or.inr ⟨by simpa using hnone, hreleased, rfl⟩

/-- A flag that was set stays set when something is released. -/
theorem isReleased_release {m : Manager} {k : String} (h : m.isReleased k = true)
    (s : SecretRef) : (m.release s).isReleased k = true := by
  obtain ⟨-, heq⟩ | ⟨-, heq⟩ := release_cases m s
  · rw [heq, isReleased_eq_true]
    show (m.inFlight.insert s.key true).find? k = some true
    rw [Table.find?_insert]
    split
    · rfl
    · exact isReleased_eq_true.1 h
  · rw [heq]
    exact h

end Manager

namespace Floor

/-! ## The invariant -/

/-- A request that is stored is the newest one for its key. So is one that a worker issues for,
unless a newer one is stored or the key was released. -/
structure Current (f : Floor) : Prop where
  /-- What is stored. -/
  stored : ∀ k r, f.manager.requests.find? k = some r → Newest r f.journal
  /-- What workers issue for. -/
  issued : ∀ i r, (f.post i).request? = some r →
    Newest r f.journal ∨ f.manager.requests.has r.key = true ∨ f.manager.isReleased r.key = true
  /-- What workers issue for was asked for. -/
  asked : ∀ i r, (f.post i).request? = some r → ∃ x ∈ f.journal, x.AsksFor r

variable {f g : Floor}

/-- Nothing is asked for or released. -/
theorem Current.congr {d : List Deed} (h : f.Current)
    (hrequests : g.manager.requests = f.manager.requests)
    (hinFlight : g.manager.inFlight = f.manager.inFlight) (hd : g.journal = d ++ f.journal)
    (hneutral : ∀ x ∈ d, ∀ k, ¬ x.IsFor k)
    (hposts : ∀ j r, (g.post j).request? = some r → (f.post j).request? = some r) :
    g.Current := by
  constructor
  · intro k r hr
    rw [hrequests] at hr
    rw [hd]
    exact (h.stored k r hr).append fun x hx => hneutral x hx r.key
  · intro j r hr
    rw [hd, hrequests, Manager.isReleased, hinFlight]
    refine (h.issued j r (hposts j r hr)).imp_left fun hnewest => ?_
    exact hnewest.append fun x hx => hneutral x hx r.key
  · intro j r hr
    rw [hd]
    obtain ⟨x, hx, hasks⟩ := h.asked j r (hposts j r hr)
    exact ⟨x, List.mem_append_right _ hx, hasks⟩

theorem notes_not_isFor {s : SecretRef} {service : Service} :
    ∀ x ∈ service.notes s, ∀ k, ¬ x.IsFor k := by
  intro x hx k
  cases service with
  | done => cases hx
  | refused e =>
      rw [List.mem_singleton.1 hx]
      exact id
  | lost e =>
      rw [List.mem_singleton.1 hx]
      exact id

/-- What is noted with an effect that neither asks nor releases does not do so either. -/
theorem effect_not_isFor {s : SecretRef} {service : Service} {x : Deed}
    (hx : ∀ k, ¬ x.IsFor k) : ∀ y ∈ service.notes s ++ [x], ∀ k, ¬ y.IsFor k := by
  intro y hy
  rcases List.mem_append.1 hy with hy | hy
  · exact notes_not_isFor y hy
  · rw [List.mem_singleton.1 hy]
    exact hx

/-- A worker goes on with its request. -/
theorem Current.goOn {d : List Deed} (h : f.Current) {i : Nat} {p : Post} {r : Request}
    (hi : (f.post i).request? = some r) (hp : p.request? = some r)
    (hposts : g.posts = (f.setPost i p).posts)
    (hrequests : g.manager.requests = f.manager.requests)
    (hinFlight : g.manager.inFlight = f.manager.inFlight) (hd : g.journal = d ++ f.journal)
    (hneutral : ∀ x ∈ d, ∀ k, ¬ x.IsFor k) : g.Current := by
  refine h.congr hrequests hinFlight hd hneutral fun j r' hr' => ?_
  rw [post_of_posts (ne_ended_of_request hi) hposts] at hr'
  split at hr'
  · next hj =>
      rw [hp] at hr'
      rw [hj, hi, hr']
  · exact hr'

/-- Somebody asks for a certificate. -/
theorem Current.obtain (hs : f.Sound) (h : f.Current) {r : Request} {x : Deed}
    (hx : x.AsksFor r) : ((f.setManager (f.manager.obtain r)).note x).Current := by
  have hother : ∀ {r'}, r'.key ≠ r.key → Newest r' f.journal → Newest r' (x :: f.journal) := by
    intro r' hne hnewest
    refine since_cons.2 (Or.inr ⟨fun hfor => hne ?_, hnewest⟩)
    rcases hx with rfl | rfl
    · exact hfor.symm
    · exact hfor.symm
  constructor
  · intro k r' hr'
    change (f.manager.obtain r).requests.find? k = some r' at hr'
    show Newest r' (x :: f.journal)
    rw [Manager.obtain_requests] at hr'
    split at hr'
    · cases hr'
      exact since_cons.2 (Or.inl hx)
    · next hk => exact hother (hs.keyed k r' hr' ▸ hk) (h.stored k r' hr')
  · intro j r' hr'
    show Newest r' (x :: f.journal) ∨ (f.manager.requests.insert r.key r).has r'.key = true ∨ _
    rw [Table.has_insert]
    by_cases hkey : r'.key = r.key
    · exact Or.inr (Or.inl (by simp [hkey]))
    · refine (h.issued j r' hr').imp (hother hkey) (Or.imp_left fun hhas => ?_)
      simp [hhas]
  · intro j r' hr'
    obtain ⟨x', hx', hasks⟩ := h.asked j r' hr'
    exact ⟨x', List.mem_cons_of_mem _ hx', hasks⟩

/-- The renewal scan asks for several certificates. -/
theorem Current.renewAll (hs : f.Sound) (h : f.Current) (rs : List Request) :
    Current { f with
      manager := f.manager.obtainAll rs
      journal := (rs.map Deed.renewed).reverse ++ f.journal } := by
  induction rs generalizing f with
  | nil => exact h
  | cons r rs ih =>
      let f₁ : Floor := (f.setManager (f.manager.obtain r)).note (.renewed r)
      have hs₁ : f₁.Sound := (hs.obtainAll [r]).congr rfl rfl
      have hrest := ih hs₁ (h.obtain hs (Or.inr rfl))
      refine hrest.congr (d := []) rfl rfl ?_ (fun x hx => by cases hx) fun _ _ hr => hr
      simp [f₁, note, setManager]

theorem Current.release (hs : f.Sound) (h : f.Current) (s : SecretRef) :
    ((f.setManager (f.manager.release s)).note (.released s)).Current := by
  have hother : ∀ {r}, r.key ≠ s.key → Newest r f.journal →
      Newest r (.released s :: f.journal) := by
    intro r hne hnewest
    exact since_cons.2 (Or.inr ⟨fun hfor => hne hfor.symm, hnewest⟩)
  have hrequests : (f.manager.release s).requests = f.manager.requests.erase s.key := by
    obtain ⟨-, heq⟩ | ⟨-, heq⟩ := Manager.release_cases f.manager s
    · rw [heq]
    · rw [heq]
  constructor
  · intro k r hr
    change (f.manager.release s).requests.find? k = some r at hr
    rw [hrequests] at hr
    obtain ⟨hk, hold⟩ := Table.find?_erase_eq_some.1 hr
    exact hother (hs.keyed k r hold ▸ hk) (h.stored k r hold)
  · intro j r hr
    show Newest r (.released s :: f.journal) ∨ (f.manager.release s).requests.has r.key = true ∨
      (f.manager.release s).isReleased r.key = true
    by_cases hkey : r.key = s.key
    · -- the worker that issues for the key is told
      exact Or.inr (Or.inr ((hs.recalled_release s).told j r hr hkey))
    · rw [hrequests, Table.has_erase]
      refine (h.issued j r hr).imp (hother hkey) (Or.imp (fun hhas => by simp [hkey, hhas]) ?_)
      exact fun htold => Manager.isReleased_release htold s
  · intro j r hr
    obtain ⟨x, hx, hasks⟩ := h.asked j r hr
    exact ⟨x, List.mem_cons_of_mem _ hx, hasks⟩

/-- A worker takes a key with its request, which is the newest one. -/
theorem Current.start (hs : f.Sound) (h : f.Current) {i : Nat} (hi : f.post i = .idle)
    {m : Manager} {k : String} (ht : f.manager.take i = (m, .key k)) {r : Request}
    (hr : f.manager.requests.find? k = some r) :
    ((f.setManager (m.startOn k).1).setPost i (.reading r none)).Current := by
  obtain ⟨q, hq, rfl⟩ := Manager.take_eq ht
  obtain ⟨-, hfree, -⟩ := hs.tidy.take_key hq
  constructor
  · intro j r' hr'
    change (f.manager.requests.erase k).find? j = some r' at hr'
    exact h.stored j r' (Table.find?_erase_eq_some.1 hr').2
  · intro j r' hr'
    change ((f.setPost i (.reading r none)).post j).request? = some r' at hr'
    show Newest r' f.journal ∨ (f.manager.requests.erase k).has r'.key = true ∨ _
    rw [post_setPost (ne_ended_of_idle hi)] at hr'
    split at hr'
    · cases hr'
      exact Or.inl (h.stored k r hr)
    · -- a key that is handed out was not held, so the other worker issues for another one
      have hkey : r'.key ≠ k := by
        rintro rfl
        exact hfree ((hs.held _).2 ⟨j, keyAt_of_request hr'⟩)
      rw [Table.has_erase]
      refine (h.issued j r' hr').imp_right (Or.imp (fun hhas => by simp [hkey, hhas]) ?_)
      intro htold
      rw [Manager.isReleased_eq_true] at htold ⊢
      show (f.manager.inFlight.insert k false).find? r'.key = some true
      rw [Table.find?_insert, if_neg hkey, htold]
  · intro j r' hr'
    change ((f.setPost i (.reading r none)).post j).request? = some r' at hr'
    rw [post_setPost (ne_ended_of_idle hi)] at hr'
    split at hr'
    · cases hr'
      exact (h.stored k r hr).asked
    · exact h.asked j r' hr'

/-- A worker takes a key without a request. -/
theorem Current.skip (hs : f.Sound) (h : f.Current) {i : Nat} {m : Manager} {k : String}
    (ht : f.manager.take i = (m, .key k)) (hnone : f.manager.requests.find? k = none) :
    (f.setManager ((m.startOn k).1.finish k)).Current := by
  obtain ⟨-, hinFlight⟩ := hs.skip_facts ht
  obtain ⟨q, -, rfl⟩ := Manager.take_eq ht
  have hrequests : ∀ j,
      (((Manager.startOn { f.manager with queue := q } k).1.finish k).requests).find? j =
        f.manager.requests.find? j := by
    intro j
    rw [Manager.finish_requests]
    show (f.manager.requests.erase k).find? j = _
    rw [Table.find?_erase]
    split
    · next hj => rw [hj, hnone]
    · rfl
  constructor
  · intro j r hr
    exact h.stored j r ((hrequests j).symm.trans hr)
  · intro j r hr
    refine (h.issued j r hr).imp_right (Or.imp (fun hhas => ?_) fun htold => ?_)
    · rw [Table.has] at hhas ⊢
      exact (congrArg Option.isSome (hrequests r.key)).trans hhas
    · rw [Manager.isReleased_eq_true] at htold ⊢
      exact (hinFlight r.key).trans htold
  · exact h.asked

/-- An issuance ends. Its request is stored again only while it is the newest. -/
theorem Current.conclude (hs : f.Sound) (h : f.Current) {i : Nat} {r : Request}
    (hi : (f.post i).request? = some r) {m : Manager}
    (hrequests : m.requests = f.manager.requests)
    (hinFlight : ∀ k, k ≠ r.key → m.inFlight.find? k = f.manager.inFlight.find? k)
    (htold : f.manager.isReleased r.key = true → m.isReleased r.key = true)
    (result : Except Error Unit) : ((f.setManager m).conclude i r result).Current := by
  let m₁ := (m.settle r.key r result).1
  have hset : Manager.Settled m m₁ := Manager.settled_settle m r.key r result
  have hstored : m₁.requests = f.manager.requests ∨
      Newest r f.journal ∧ m₁.requests = f.manager.requests.insert r.key r := by
    rcases Manager.settle_requests m r.key r result with heq | ⟨hhas, hreleased, heq⟩
    · exact Or.inl (heq.trans hrequests)
    · rw [hrequests] at hhas heq
      refine Or.inr ⟨?_, heq⟩
      rcases h.issued i r hi with hnewest | hhas' | hreleased'
      · exact hnewest
      · -- something newer is stored, and stays
        rw [hhas] at hhas'
        cases hhas'
      · -- what was released is not tried again
        rw [htold hreleased'] at hreleased
        cases hreleased
  -- the timers do not matter
  suffices hcurrent : ((f.setManager (m₁.finish r.key)).setPost i .idle).Current from
    hcurrent.congr (d := []) rfl rfl rfl (fun x hx => by cases hx) fun _ _ hr => hr
  constructor
  · intro k r' hr'
    change (m₁.finish r.key).requests.find? k = some r' at hr'
    rw [Manager.finish_requests] at hr'
    rcases hstored with heq | ⟨hnewest, heq⟩
    · rw [heq] at hr'
      exact h.stored k r' hr'
    · rw [heq, Table.find?_insert] at hr'
      split at hr'
      · cases hr'
        exact hnewest
      · exact h.stored k r' hr'
  · intro j r' hr'
    change ((f.setPost i .idle).post j).request? = some r' at hr'
    show Newest r' f.journal ∨ (m₁.finish r.key).requests.has r'.key = true ∨
      (m₁.finish r.key).isReleased r'.key = true
    rw [post_setPost (ne_ended_of_request hi)] at hr'
    split at hr'
    · cases hr'
    · next hj =>
        -- no two workers issue for one key
        have hkey : r'.key ≠ r.key := fun hkey =>
          hj (hs.apart j i r.key (hkey ▸ keyAt_of_request hr') (keyAt_of_request hi))
        refine (h.issued j r' hr').imp_right (Or.imp (fun hhas => ?_) fun hflag => ?_)
        · rw [Manager.finish_requests]
          rcases hstored with heq | ⟨-, heq⟩
          · rwa [heq]
          · rw [heq, Table.has_insert, hhas, Bool.or_true]
        · rw [Manager.isReleased_eq_true] at hflag ⊢
          rw [Manager.finish_inFlight, Table.find?_erase, if_neg hkey, hset.inFlight,
            hinFlight r'.key hkey, hflag]
  · intro j r' hr'
    change ((f.setPost i .idle).post j).request? = some r' at hr'
    rw [post_setPost (ne_ended_of_request hi)] at hr'
    split at hr'
    · cases hr'
    · exact h.asked j r' hr'

/-- A worker gets no key. -/
theorem Current.wait (h : f.Current) {i : Nat} {m : Manager} {taken : Taken}
    (ht : f.manager.take i = (m, taken)) : (f.setManager m).Current := by
  obtain ⟨q, -, rfl⟩ := Manager.take_eq ht
  exact ⟨h.stored, h.issued, h.asked⟩

theorem Current.leave (h : f.Current) {i : Nat} (hi : f.post i = .idle) :
    (f.setPost i .ended).Current := by
  refine h.congr (d := []) rfl rfl rfl (fun x hx => by cases hx) fun j r hr => ?_
  rw [post_setPost (ne_ended_of_idle hi)] at hr
  split at hr
  · cases hr
  · exact hr

theorem Current.move (hs : f.Sound) (h : f.Current) (hm : Move f g) : g.Current := by
  have hnil : ∀ x ∈ ([] : List Deed), ∀ k, ¬ x.IsFor k := fun x hx => by cases hx
  cases hm with
  | waited idle taken => exact h.wait taken
  | left idle taken => exact (h.wait taken).leave idle
  | skipped idle taken none => exact h.skip hs taken none
  | started idle taken some => exact h.start hs idle taken some
  | @read i r service reading =>
      have hi : (f.post i).request? = some r := by rw [reading]; rfl
      exact h.goOn (p := .reading r _) hi rfl rfl rfl rfl rfl notes_not_isFor
  | @wrote i r s service storing effect =>
      have hi : (f.post i).request? = some r := by rw [storing]; rfl
      exact h.goOn (d := service.notes r.target ++ [.wrote r.target]) (p := .storing r s _) hi rfl
        rfl rfl rfl (by rw [List.append_assoc]; rfl) (effect_not_isFor fun _ => id)
  | @unwritten i r s service storing effect =>
      have hi : (f.post i).request? = some r := by rw [storing]; rfl
      exact h.goOn (p := .storing r s _) hi rfl rfl rfl rfl rfl notes_not_isFor
  | @withdrew i r service withdrawing effect =>
      have hi : (f.post i).request? = some r := by rw [withdrawing]; rfl
      exact h.goOn (d := service.notes r.target ++ [.withdrew r.target]) (p := .withdrawing r _) hi
        rfl rfl rfl rfl (by rw [List.append_assoc]; rfl) (effect_not_isFor fun _ => id)
  | @unwithdrawn i r service withdrawing effect =>
      have hi : (f.post i).request? = some r := by rw [withdrawing]; rfl
      exact h.goOn (p := .withdrawing r _) hi rfl rfl rfl rfl rfl notes_not_isFor
  | @failed i r a e reading =>
      have hi : (f.post i).request? = some r := by rw [reading]; rfl
      exact h.conclude hs (m := f.manager) hi rfl (fun _ _ => rfl) id _
  | @reserved i r a q reading ours ok =>
      have hi : (f.post i).request? = some r := by rw [reading]; rfl
      exact h.goOn (d := []) (p := .ordering r) hi rfl rfl rfl rfl rfl hnil
  | @gaveUp i r result standing why =>
      have hi := request_of_standing standing
      exact h.conclude hs (m := f.manager.rollback r) hi rfl (fun _ _ => rfl) id _
  | @ordered i r certificate ordering unreleased =>
      have hi : (f.post i).request? = some r := by rw [ordering]; rfl
      exact h.goOn (d := []) (p := .storing r _ none) hi rfl rfl rfl rfl rfl hnil
  | @recalled i r s storing released =>
      have hi : (f.post i).request? = some r := by rw [storing]; rfl
      exact h.goOn (d := []) (p := .withdrawing r none) hi rfl rfl rfl rfl rfl hnil
  | @stored i r s storing unreleased =>
      have hi : (f.post i).request? = some r := by rw [storing]; rfl
      refine h.conclude hs (m := { f.manager with
        inFlight := f.manager.inFlight.erase r.key
        quota := f.manager.quota.commit r.key }) hi rfl (fun k hk => ?_) (fun htold => ?_) _
      · show (f.manager.inFlight.erase r.key).find? k = _
        rw [Table.find?_erase, if_neg hk]
      · -- a worker that was told does not commit
        rw [htold] at unreleased
        cases unreleased
  | @cleared i r a withdrawing =>
      have hi : (f.post i).request? = some r := by rw [withdrawing]; rfl
      exact h.conclude hs (m := f.manager) hi rfl (fun _ _ => rfl) id _
  | rang timer => exact ⟨h.stored, h.issued, h.asked⟩
  | listed unlisted => exact ⟨h.stored, h.issued, h.asked⟩
  | @renewed listing threshold now scan =>
      let due := listing.filterMap (f.manager.due? threshold now)
      have hall := h.renewAll hs (due.map Bookkeeping.toRequest)
      have hm := Manager.afterRenewalListing_fst f.manager threshold now listing
      refine hall.congr (d := []) (congrArg Manager.requests hm) (congrArg Manager.inFlight hm) ?_
        hnil fun _ _ hr => hr
      rw [List.map_map]
      rfl
  | asked r => exact h.obtain hs (Or.inl rfl)
  | released s => exact h.release hs s
  | looked s => exact h.congr (d := [.looked s]) rfl rfl rfl (by simp [Deed.IsFor]) fun _ _ hr => hr
  | removed s =>
      exact h.congr (d := [.removed s]) rfl rfl rfl (by simp [Deed.IsFor]) fun _ _ hr => hr
  | @placed s named =>
      exact h.congr (d := [.placed s.ref]) rfl rfl rfl (by simp [Deed.IsFor]) fun _ _ hr => hr
  | stopped => exact ⟨h.stored, h.issued, h.asked⟩

theorem Current.run? {es : List FloorEvent} (hs : f.Sound) (h : f.Current)
    (hrun : f.run? es = some g) : g.Current := by
  obtain ⟨d, hd⟩ := journal_run? hrun
  exact run?_induction (P := Current) (Q := fun _ => True)
    (fun hsa hca hm _ _ => hca.move hsa hm) hs h hrun hd fun _ _ => trivial

theorem current_start (settings : ManagerSettings) (max : Int)
    (listing : Except Error (List Secret)) (shelf : Snapshot Secret) :
    (start settings max listing shelf).Current := by
  obtain ⟨q, -, -, -, heq⟩ := restored_eq settings max listing
  have hmanager : (start settings max listing shelf).manager =
      ⟨settings, .empty, .empty, .empty, true, q⟩ := heq
  constructor
  · intro k r hr
    rw [hmanager] at hr
    cases hr
  · intro i r hr
    rw [post_start] at hr
    cases hr
  · intro i r hr
    rw [post_start] at hr
    cases hr

/-! ## What a worker takes -/

/-- A worker only takes a request that is stored. -/
theorem stored_of_take {i : Nat} {r : Request} (h : f.step? (.take i) = some g)
    (hpost : g.post i = .reading r none) :
    g.journal = f.journal ∧ ∃ k, f.manager.requests.find? k = some r := by
  cases turn_of_step? h with
  | began idle awake =>
      have hend := fun p => (post_setPost (ne_ended_of_idle idle) p i).trans (if_pos rfl)
      have hbegun := begun f i
      generalize f.begin i = g at hbegun hpost
      cases hbegun with
      | waited taken => cases idle.symm.trans hpost
      | left taken => cases (hend .ended).symm.trans hpost
      | skipped taken none => cases idle.symm.trans hpost
      | @started m k r' taken some =>
          cases (hend (.reading r' none)).symm.trans hpost
          exact ⟨rfl, k, some⟩

/-- The renewal scan notes what it asks for, and nothing else. -/
theorem journal_renew {now : Instant} (h : f.step? (.renew now) = some g) :
    ∃ rs : List Request, g.journal = rs.map Deed.renewed ++ f.journal := by
  cases turn_of_step? h with
  | @renewed listing threshold now scan valid =>
      refine ⟨List.reverse
        ((listing.filterMap (f.manager.due? threshold now)).map Bookkeeping.toRequest), ?_⟩
      rw [List.map_reverse, List.map_map]
      rfl

/-- A certificate is wanted from outside when the renewal scan asks again for what is due, and
nothing is asked for or released from outside afterwards. Then a worker that takes a request for
the key asks for the wanted domains exactly if the newest renewal of the key since, if there is
one, was for these domains too. -/
theorem taken_after_scan {settings : ManagerSettings} {max : Int}
    {listing : Except Error (List Secret)} {shelf : Snapshot Secret}
    {es es' : List FloorEvent} {f₀ f₁ f g : Floor} {now : Instant} {i : Nat} {r r₀ : Request}
    {d : List Deed} (hreach : (start settings max listing shelf).run? es = some f₀)
    (hwanted : Wanted r₀ f₀.journal) (hscan : f₀.step? (.renew now) = some f₁)
    (hrun : f₁.run? es' = some f) (hd : f.journal = d ++ f₁.journal)
    (houtside : ∀ x ∈ d, ¬ x.IsOutside r₀.key) (htake : f.step? (.take i) = some g)
    (hpost : g.post i = .reading r none) (hkey : r.key = r₀.key) :
    r.domains = r₀.domains ↔
      ∀ r', Renewal r' f.journal → r'.key = r₀.key → r'.domains = r₀.domains := by
  have hs := sound_start settings max listing shelf
  have hsame : (start settings max listing shelf).run? (es ++ .renew now :: es') = some f := by
    rw [run?_append, hreach, Option.bind_some, run?_cons, hscan, Option.bind_some, hrun]
  have hcurrent : f.Current := (current_start settings max listing shelf).run? hs hsame
  obtain ⟨-, k, hstored⟩ := stored_of_take htake hpost
  have hnewest : Newest r f.journal := hcurrent.stored k r hstored
  have hwanted : Wanted r₀ f.journal := by
    obtain ⟨rs, hrs⟩ := journal_renew hscan
    rw [hd, hrs]
    refine (hwanted.append fun x hx => ?_).append houtside
    obtain ⟨r', -, rfl⟩ := List.mem_map.1 hx
    exact id
  constructor
  · intro hdomains r' hrenewal hkey'
    rw [hnewest.unique hrenewal.newest (hkey'.trans hkey.symm), hdomains]
  · intro hrenewals
    rcases hnewest.of_wanted hwanted hkey with rfl | hrenewal
    · rfl
    · exact hrenewals r hrenewal hkey

/-! ## A renewal in the place of newer demand -/

/-- A certificate that expires at once is stored. Then other hosts are wanted for its secret, and
before the worker gets to them the secret is listed for renewal. -/
def renewedTooLate : List FloorEvent :=
  [.obtain (requestFor "old.com"), .take 0, .serve 0 .done, .resume 0,
    .order 0 (.ok ⟨[], [], [], default, default⟩), .serve 0 .done, .resume 0,
    .obtain (requestFor "new.com"), .list]

theorem renewedTooLate_runs :
    ∃ f₀ f₁ g, small.run? renewedTooLate = some f₀ ∧ Wanted (requestFor "new.com") f₀.journal ∧
      f₀.manager.requests.find? (requestFor "new.com").key = some (requestFor "new.com") ∧
      f₀.step? (.renew default) = some f₁ ∧ f₁.step? (.take 0) = some g ∧
      g.post 0 = .reading (requestFor "old.com") none := by
  refine ⟨_, _, _, rfl, ?_, rfl, rfl, rfl, rfl⟩
  exact since_cons.2 (Or.inl rfl)

theorem old_ne_new : (requestFor "old.com").domains ≠ (requestFor "new.com").domains := by decide

/-- The worker asks for the old host, and so the newest request is a renewal for it. -/
theorem taken_after_scan_renewedTooLate :
    ∃ f₀ f₁ r, small.run? renewedTooLate = some f₀ ∧ f₀.step? (.renew default) = some f₁ ∧
      Wanted (requestFor "new.com") f₀.journal ∧ Renewal r f₁.journal ∧
      r.domains ≠ (requestFor "new.com").domains := by
  obtain ⟨f₀, f₁, g, hreach, hwanted, -, hscan, htake, hpost⟩ := renewedTooLate_runs
  have hend : f₁.run? [] = some f₁ := rfl
  have hiff := taken_after_scan (d := []) hreach hwanted hscan hend rfl
    (fun x hx => by cases hx) htake hpost rfl
  have hnot := mt hiff.2 old_ne_new
  simp only [not_forall] at hnot
  obtain ⟨r, hrenewal, -, hdomains⟩ := hnot
  exact ⟨f₀, f₁, r, hreach, hscan, hwanted, hrenewal, hdomains⟩

/-- It is not true that a renewal never replaces newer demand, not even demand that is still
stored. -/
theorem renewals_can_replace_demand :
    ¬ ∀ (settings : ManagerSettings) (max : Int) (listing : Except Error (List Secret))
      (shelf : Snapshot Secret) (es es' : List FloorEvent) (f₀ f₁ f g : Floor) (now : Instant)
      (i : Nat) (r r₀ : Request) (d : List Deed),
      (start settings max listing shelf).run? es = some f₀ → Wanted r₀ f₀.journal →
      f₀.manager.requests.find? r₀.key = some r₀ → f₀.step? (.renew now) = some f₁ →
      f₁.run? es' = some f → f.journal = d ++ f₁.journal → (∀ x ∈ d, ¬ x.IsOutside r₀.key) →
      f.step? (.take i) = some g → g.post i = .reading r none → r.key = r₀.key →
      r.domains = r₀.domains := by
  intro hall
  obtain ⟨f₀, f₁, g, hreach, hwanted, hstored, hscan, htake, hpost⟩ := renewedTooLate_runs
  refine old_ne_new (hall _ _ _ _ renewedTooLate [] f₀ f₁ f₁ g default 0 _ _ [] hreach hwanted
    hstored hscan rfl rfl ?_ htake hpost rfl)
  intro x hx
  cases hx

end Floor

end IngressTls
