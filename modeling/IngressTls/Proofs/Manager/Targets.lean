import IngressTls.Proofs.Bookkeeping
import IngressTls.Proofs.Manager.Recall
import IngressTls.Proofs.Manager.Start
import IngressTls.Proofs.Snapshot

set_option autoImplicit false

/-! # Whose secrets the manager works on

The manager only issues for secrets that somebody asked for: if everything that is asked for
from outside satisfies a condition, then so does everything that is stored, issued for, written
and listed. Renewal does not widen this, since the scan only lists what the manager owns, and
what it owns has been written for a request.

Main statements: `settings_move` and `Within.move`.
-/

namespace IngressTls

/-- What is due for renewal is owned, and has been read. -/
theorem Manager.of_due {m : Manager} {threshold : Int} {now : Instant} {s : Secret}
    {b : Bookkeeping} (h : m.due? threshold now s = some b) :
    s.metadata.isManagedBy m.settings.controllerName = true ∧ Bookkeeping.read s = .ok b := by
  rw [due?] at h
  split at h
  · next hmanaged =>
      split at h
      · cases h
      · next b' hread =>
          split at h
          · cases h
            exact ⟨hmanaged, hread⟩
          · cases h
  · cases h

/-- What is due for renewal is renewed at its place. -/
theorem Manager.target_of_due {m : Manager} {threshold : Int} {now : Instant} {s : Secret}
    {b : Bookkeeping} (h : m.due? threshold now s = some b) : b.toRequest.target = s.ref :=
  (Bookkeeping.of_read (of_due h).2).1

theorem Manager.release_settings (m : Manager) (s : SecretRef) :
    (m.release s).settings = m.settings := by
  obtain ⟨-, heq⟩ | ⟨-, heq⟩ := release_cases m s
  · rw [heq]
  · rw [heq]

namespace Floor

/-- No step changes the settings. -/
theorem settings_conclude (f : Floor) (i : Nat) (r : Request) (result : Except Error Unit) :
    (f.conclude i r result).manager.settings = f.manager.settings := by
  show ((f.manager.settle r.key r result).1.finish r.key).settings = _
  rw [Manager.finish_settings, (Manager.settled_settle f.manager r.key r result).settings]

theorem settings_move {f g : Floor} (h : Move f g) :
    g.manager.settings = f.manager.settings := by
  cases h with
  | waited idle taken =>
      obtain ⟨q, -, rfl⟩ := Manager.take_eq taken
      rfl
  | left idle taken =>
      obtain ⟨q, -, rfl⟩ := Manager.take_eq taken
      rfl
  | skipped idle taken none =>
      obtain ⟨q, -, rfl⟩ := Manager.take_eq taken
      exact Manager.finish_settings _ _
  | started idle taken some =>
      obtain ⟨q, -, rfl⟩ := Manager.take_eq taken
      rfl
  | failed e reading => exact settings_conclude _ _ _ _
  | gaveUp standing why => exact settings_conclude _ _ _ _
  | stored storing unreleased => exact settings_conclude _ _ _ _
  | cleared withdrawing => exact settings_conclude _ _ _ _
  | @renewed listing threshold now scan =>
      show (f.manager.afterRenewalListing threshold now (.ok listing)).1.settings = _
      rw [Manager.afterRenewalListing_fst]
      exact (Manager.obtainAll_facts _ _).2.2.2.1
  | released s => exact Manager.release_settings _ _
  | _ => rfl

theorem settings_run? {f g : Floor} {es : List FloorEvent} (h : f.run? es = some g) :
    g.manager.settings = f.manager.settings := by
  induction es generalizing f with
  | nil =>
      cases h
      rfl
  | cons e es ih =>
      rw [run?_cons] at h
      obtain ⟨f₁, hstep, hrest⟩ := Option.bind_eq_some_iff.1 h
      exact (ih hrest).trans (settings_move (move_of_step? hstep))

theorem settings_start (settings : ManagerSettings) (max : Int)
    (listing : Except Error (List Secret)) (shelf : Snapshot Secret) :
    (start settings max listing shelf).manager.settings = settings := by
  obtain ⟨q, -, -, -, heq⟩ := restored_eq settings max listing
  exact congrArg Manager.settings heq

/-! ## Within a condition -/

/-- What the manager works on satisfies a condition. -/
structure Within (f : Floor) (P : SecretRef → Prop) : Prop where
  /-- What is stored. -/
  stored : ∀ k r, f.manager.requests.find? k = some r → P r.target
  /-- What workers issue for. -/
  issued : ∀ i r, (f.post i).request? = some r → P r.target
  /-- What the manager owns; it stands where it says. -/
  owned : ∀ k o, f.shelf.lookup k = some o →
    o.metadata.isManagedBy f.manager.settings.controllerName = true → k = o.ref.place ∧ P o.ref
  /-- What was listed. -/
  listed : ∀ l, f.scan = some l → ∀ o ∈ l, P o.ref

/-- What asks for nothing outside a condition. -/
def Deed.Respects (P : SecretRef → Prop) : Deed → Prop
  | .asked r => P r.target
  | .placed s => P s
  | _ => True

variable {f g : Floor} {P : SecretRef → Prop}

/-- A step that leaves the secrets alone. -/
theorem Within.demand (h : f.Within P) (hsettings : g.manager.settings = f.manager.settings)
    (hstored : ∀ k r, g.manager.requests.find? k = some r → P r.target)
    (hissued : ∀ i r, (g.post i).request? = some r → P r.target) (hshelf : g.shelf = f.shelf)
    (hscan : g.scan = f.scan) : g.Within P where
  stored := hstored
  issued := hissued
  owned := by
    rw [hshelf, hsettings]
    exact h.owned
  listed := by
    rw [hscan]
    exact h.listed

/-- A worker stands somewhere else. -/
theorem Within.issued_setPost (h : f.Within P) {i : Nat} {p : Post} (hi : f.post i ≠ .ended)
    (hp : ∀ r, p.request? = some r → P r.target) (hposts : g.posts = (f.setPost i p).posts) :
    ∀ j r, (g.post j).request? = some r → P r.target := by
  intro j r hr
  rw [post_of_posts hi hposts] at hr
  split at hr
  · exact hp r hr
  · exact h.issued j r hr

/-- A worker goes on with its request. -/
theorem Within.goOn (h : f.Within P) {i : Nat} {p : Post} {r : Request}
    (hi : (f.post i).request? = some r) (hp : p.request? = some r)
    (hsettings : g.manager.settings = f.manager.settings)
    (hrequests : g.manager.requests = f.manager.requests)
    (hposts : g.posts = (f.setPost i p).posts) (hshelf : g.shelf = f.shelf)
    (hscan : g.scan = f.scan) : g.Within P := by
  refine h.demand hsettings ?_ ?_ hshelf hscan
  · rw [hrequests]
    exact h.stored
  · refine h.issued_setPost (ne_ended_of_request hi) (fun r' hr' => ?_) hposts
    rw [hp] at hr'
    cases hr'
    exact h.issued i r hi

/-- A worker ends with its request, which may be stored again. -/
theorem Within.conclude (h : f.Within P) {i : Nat} {r : Request} {m : Manager}
    (hi : (f.post i).request? = some r) (hsettings : m.settings = f.manager.settings)
    (hrequests : m.requests = f.manager.requests) (result : Except Error Unit) :
    ((f.setManager m).conclude i r result).Within P := by
  refine h.demand ((settings_conclude _ _ _ _).trans hsettings) ?_ ?_ rfl rfl
  · intro k r' hr'
    change ((m.settle r.key r result).1.finish r.key).requests.find? k = some r' at hr'
    rw [Manager.finish_requests] at hr'
    rcases Manager.requests_settle hr' with hold | ⟨-, rfl, -⟩
    · rw [hrequests] at hold
      exact h.stored k r' hold
    · exact h.issued i r' hi
  · exact h.issued_setPost (p := .idle) (ne_ended_of_request hi) (fun r' hr' => by cases hr') rfl

theorem mem_owned {o : Secret} :
    o ∈ f.owned ↔ (∃ k, f.shelf.lookup k = some o) ∧
      o.metadata.isManagedBy f.manager.settings.controllerName = true := by
  rw [owned, List.mem_filter, Snapshot.mem_objects]

theorem Within.insert (h : f.Within P) {o : Secret} (hplace : o.metadata.key = o.ref.place)
    (ho : P o.ref) : (f.insert o).Within P where
  stored := h.stored
  issued := h.issued
  owned := by
    intro k o' ho' hmanaged
    change (f.shelf.insert o.metadata.key o).lookup k = some o' at ho'
    rw [Snapshot.lookup_insert] at ho'
    split at ho'
    · next hk =>
        cases ho'
        exact ⟨hk.trans hplace, ho⟩
    · exact h.owned k o' ho' hmanaged
  listed := h.listed

theorem Within.erase (h : f.Within P) (s : SecretRef) : (f.erase s).Within P where
  stored := h.stored
  issued := h.issued
  owned := by
    intro k o ho hmanaged
    change (f.shelf.erase s.place).lookup k = some o at ho
    rw [Snapshot.lookup_erase] at ho
    split at ho
    · cases ho
    · exact h.owned k o ho hmanaged
  listed := h.listed

/-- Nothing is added when a key is taken. -/
theorem Within.take (h : f.Within P) {i : Nat} {m : Manager} {taken : Taken}
    (ht : f.manager.take i = (m, taken)) : (f.setManager m).Within P := by
  obtain ⟨q, -, rfl⟩ := Manager.take_eq ht
  exact h.demand rfl h.stored h.issued rfl rfl

theorem stored_erase {m : Manager} (h : ∀ k r, m.requests.find? k = some r → P r.target)
    (j : String) : ∀ k r, (m.requests.erase j).find? k = some r → P r.target :=
  fun k r hr => h k r (Table.find?_erase_eq_some.1 hr).2

theorem Within.move {d : List Deed} (hs : f.Sound) (h : f.Within P) (hm : Move f g)
    (hd : g.journal = d ++ f.journal) (hrespects : ∀ x ∈ d, Deed.Respects P x) : g.Within P := by
  have hd' : ∀ {d'}, g.journal = d' ++ f.journal → d = d' := fun heq =>
    (List.append_left_inj f.journal).1 (hd.symm.trans heq)
  cases hm with
  | waited idle taken => exact h.take taken
  | @left i m idle taken =>
      refine (h.take taken).demand rfl (h.take taken).stored ?_ rfl rfl
      exact h.issued_setPost (p := .ended) (ne_ended_of_idle idle) (fun r hr => by cases hr) rfl
  | @skipped i m k idle taken none =>
      have hm := h.take taken
      refine hm.demand (Manager.finish_settings _ _) ?_ h.issued rfl rfl
      show ∀ j r, (((m.startOn k).1.finish k).requests).find? j = some r → P r.target
      rw [Manager.finish_requests]
      exact stored_erase hm.stored k
  | @started i m k r idle taken some =>
      have hm := h.take taken
      refine hm.demand rfl (stored_erase hm.stored k) ?_ rfl rfl
      refine h.issued_setPost (p := .reading r .none) (ne_ended_of_idle idle) (fun r' hr' => ?_) rfl
      cases hr'
      exact h.stored k r some
  | @read i r service reading =>
      have hi : (f.post i).request? = some r := by rw [reading]; rfl
      exact h.goOn (p := .reading r _) hi rfl rfl rfl rfl rfl rfl
  | @wrote i r sec service storing effect =>
      have hi : (f.post i).request? = some r := by rw [storing]; rfl
      -- what is written names the place of its request
      obtain ⟨c, rfl⟩ := hs.written i r sec none storing
      refine (h.insert ?_ ?_).goOn (p := .storing r _ _) hi rfl rfl rfl rfl rfl rfl
      · rfl
      · exact h.issued i r hi
  | @unwritten i r sec service storing effect =>
      have hi : (f.post i).request? = some r := by rw [storing]; rfl
      exact h.goOn (p := .storing r sec _) hi rfl rfl rfl rfl rfl rfl
  | @withdrew i r service withdrawing effect =>
      have hi : (f.post i).request? = some r := by rw [withdrawing]; rfl
      exact (h.erase r.target).goOn (p := .withdrawing r _) hi rfl rfl rfl rfl rfl rfl
  | @unwithdrawn i r service withdrawing effect =>
      have hi : (f.post i).request? = some r := by rw [withdrawing]; rfl
      exact h.goOn (p := .withdrawing r _) hi rfl rfl rfl rfl rfl rfl
  | @failed i r a e reading =>
      have hi : (f.post i).request? = some r := by rw [reading]; rfl
      exact h.conclude (m := f.manager) hi rfl rfl _
  | @reserved i r a q reading ours ok =>
      have hi : (f.post i).request? = some r := by rw [reading]; rfl
      exact h.goOn (p := .ordering r) hi rfl rfl rfl rfl rfl rfl
  | @gaveUp i r result standing why =>
      have hi := request_of_standing standing
      exact h.conclude (m := f.manager.rollback r) hi rfl rfl _
  | @ordered i r certificate ordering unreleased =>
      have hi : (f.post i).request? = some r := by rw [ordering]; rfl
      exact h.goOn (p := .storing r _ none) hi rfl rfl rfl rfl rfl rfl
  | @recalled i r sec storing released =>
      have hi : (f.post i).request? = some r := by rw [storing]; rfl
      exact h.goOn (p := .withdrawing r none) hi rfl rfl rfl rfl rfl rfl
  | @stored i r sec storing unreleased =>
      have hi : (f.post i).request? = some r := by rw [storing]; rfl
      exact h.conclude (m := { f.manager with
        inFlight := f.manager.inFlight.erase r.key
        quota := f.manager.quota.commit r.key }) hi rfl rfl _
  | @cleared i r a withdrawing =>
      have hi : (f.post i).request? = some r := by rw [withdrawing]; rfl
      exact h.conclude (m := f.manager) hi rfl rfl _
  | rang timer => exact h.demand rfl h.stored h.issued rfl rfl
  | listed unlisted =>
      refine ⟨h.stored, h.issued, h.owned, fun l hl o ho => ?_⟩
      cases hl
      obtain ⟨⟨k, hk⟩, hmanaged⟩ := mem_owned.1 ho
      exact (h.owned k o hk hmanaged).2
  | @renewed listing threshold now scan =>
      have hmanager : (f.renew threshold now listing).manager = f.manager.obtainAll
          ((listing.filterMap (f.manager.due? threshold now)).map Bookkeeping.toRequest) :=
        Manager.afterRenewalListing_fst _ _ _ _
      refine ⟨fun k r hr => ?_, h.issued, ?_, fun l hl => by cases hl⟩
      · -- what is due was listed, and so it was owned
        rw [hmanager] at hr
        rcases Manager.requests_obtainAll hr with ⟨hdue, -⟩ | hold
        · obtain ⟨b, hb, rfl⟩ := List.mem_map.1 hdue
          obtain ⟨o, ho, hdue⟩ := List.mem_filterMap.1 hb
          rw [Manager.target_of_due hdue]
          exact h.listed listing scan o ho
        · exact h.stored k r hold
      · obtain ⟨-, -, -, hsettings, -⟩ := Manager.obtainAll_facts f.manager
          ((listing.filterMap (f.manager.due? threshold now)).map Bookkeeping.toRequest)
        rw [hmanager, hsettings]
        exact h.owned
  | asked r =>
      have heq : d = [.asked r] := hd' rfl
      refine h.demand rfl (fun k r' hr' => ?_) h.issued rfl rfl
      change (f.manager.obtain r).requests.find? k = some r' at hr'
      rw [Manager.obtain_requests] at hr'
      split at hr'
      · cases hr'
        exact hrespects (.asked r) (by rw [heq]; exact List.mem_cons_self)
      · exact h.stored k r' hr'
  | released s =>
      refine h.demand (Manager.release_settings _ _) ?_ h.issued rfl rfl
      show ∀ k r, (f.manager.release s).requests.find? k = some r → P r.target
      obtain ⟨-, heq⟩ | ⟨-, heq⟩ := Manager.release_cases f.manager s
      · rw [heq]
        exact stored_erase h.stored s.key
      · rw [heq]
        exact stored_erase h.stored s.key
  | looked s => exact h.demand rfl h.stored h.issued rfl rfl
  | removed s => exact (h.erase s).demand rfl h.stored h.issued rfl rfl
  | @placed sec named =>
      have heq : d = [.placed sec.ref] := hd' rfl
      refine (h.insert named ?_).demand rfl h.stored h.issued rfl rfl
      exact hrespects (.placed sec.ref) (by rw [heq]; exact List.mem_cons_self)
  | stopped => exact h.demand rfl h.stored h.issued rfl rfl

theorem Within.run? {es : List FloorEvent} {d : List Deed} (hs : f.Sound) (h : f.Within P)
    (hrun : f.run? es = some g) (hd : g.journal = d ++ f.journal)
    (hrespects : ∀ x ∈ d, Deed.Respects P x) : g.Within P := by
  refine run?_induction (P := fun g => g.Within P) (Q := Deed.Respects P) ?_ hs h hrun hd hrespects
  intro a b x hsa hwa hm hx hall
  exact hwa.move hsa hm hx hall

theorem within_start {settings : ManagerSettings} {max : Int}
    {listing : Except Error (List Secret)} {shelf : Snapshot Secret}
    (h : ∀ k o, shelf.lookup k = some o →
      o.metadata.isManagedBy settings.controllerName = true → k = o.ref.place ∧ P o.ref) :
    (start settings max listing shelf).Within P := by
  obtain ⟨q, -, -, -, heq⟩ := restored_eq settings max listing
  have hmanager : (start settings max listing shelf).manager =
      ⟨settings, .empty, .empty, .empty, true, q⟩ := heq
  constructor
  · intro k r hr
    rw [hmanager] at hr
    cases hr
  · intro i r hr
    rw [post_start] at hr
    cases hr
  · rw [hmanager]
    exact h
  · intro l hl
    cases hl

end Floor

end IngressTls
