import IngressTls.Proofs.Cluster.Demanders

set_option autoImplicit false

/-! # A cluster that runs smoothly

A cluster runs *smoothly* while every call succeeds, the authority answers with certificates,
nobody stops the manager and the classes of ingresses stay as they are. If besides all resources
name a secret for the same hosts, then all that is asked for it is for these hosts. So is what
workers write, and with it what renewals ask for.

Main statements: `Floor.Steady.step` and `World.Informed.step`.
-/

namespace IngressTls

/-- Whether a deed happens when everything goes smoothly. -/
def Deed.isSmooth : Deed → Bool
  | placed _ | failed _ => false
  | asked _ | renewed _ | released _ | looked _ | wrote _ | withdrew _ | removed _ => true

/-- If a controller owns a secret, it records no other hosts than given ones. -/
def Secret.RecordsOnly (o : Secret) (controllerName : String) (D : DomainSet) : Prop :=
  o.metadata.isManagedBy controllerName = true →
    ∀ D', (SecretView.ofSecret o).domains = some D' → D' = D

namespace Floor

variable {f g : Floor} {s : SecretRef} {D : DomainSet}

/-! ## The floor -/

/-- When everything goes smoothly no call fails, and nobody else writes secrets. -/
theorem smooth_deeds {e : FloorEvent} {d : List Deed} (hstep : f.step? e = some g)
    (hsmooth : e.isSmooth = true) (hd : g.journal = d ++ f.journal) :
    ∀ x ∈ d, x.isSmooth = true := by
  have hd' : ∀ {d'}, g.journal = d' ++ f.journal → d = d' := fun heq =>
    (List.append_left_inj f.journal).1 (hd.symm.trans heq)
  have hsame : g.journal = f.journal → ∀ x ∈ d, x.isSmooth = true := by
    intro heq x hx
    have hnone : d = [] := hd' heq
    rw [hnone] at hx
    cases hx
  have hone : ∀ y : Deed, y.isSmooth = true → g.journal = y :: f.journal →
      ∀ x ∈ d, x.isSmooth = true := by
    intro y hy heq x hx
    have hone : d = [y] := hd' heq
    rw [hone] at hx
    rw [List.mem_singleton.1 hx, hy]
  -- a call that is served smoothly notes nothing beside its effect
  cases turn_of_step? hstep with
  | began idle awake => exact hsame (journal_begin f _)
  | read service reading =>
      cases FloorEvent.done_of_smooth hsmooth
      exact hsame rfl
  | wrote storing effect =>
      cases FloorEvent.done_of_smooth hsmooth
      exact hone (.wrote _) rfl rfl
  | unwritten storing effect =>
      cases FloorEvent.done_of_smooth hsmooth
      cases effect
  | withdrew withdrawing effect =>
      cases FloorEvent.done_of_smooth hsmooth
      exact hone (.withdrew _) rfl rfl
  | unwithdrawn withdrawing effect =>
      cases FloorEvent.done_of_smooth hsmooth
      cases effect
  | informed reading => exact hsame (journal_advance _ _ _ _)
  | stored storing => exact hsame (journal_advance _ _ _ _)
  | cleared withdrawing => exact hsame (journal_advance _ _ _ _)
  | ordered a ordering => exact hsame (journal_advance _ _ _ _)
  | renewed now scan valid =>
      rw [hd' rfl]
      intro x hx
      obtain ⟨b, -, rfl⟩ := List.mem_map.1 (List.mem_reverse.1 hx)
      rfl
  | asked r => exact hone (.asked r) rfl rfl
  | released t => exact hone (.released t) rfl rfl
  | looked t => exact hone (.looked t) rfl rfl
  | removed t => exact hone (.removed t) rfl rfl
  | placed named => cases hsmooth
  | stopped => cases hsmooth
  | _ => exact hsame rfl

/-! ## What renewals ask for -/

/-- A secret records no other hosts than given ones, as it is and as it was listed. -/
structure Records (f : Floor) (s : SecretRef) (D : DomainSet) : Prop where
  /-- As it is. -/
  stored : ∀ o, f.secret? s = some o → o.RecordsOnly f.manager.settings.controllerName D
  /-- As it was listed. -/
  listed : ∀ l, f.scan = some l → ∀ o ∈ l, o.ref = s →
    o.RecordsOnly f.manager.settings.controllerName D

theorem scan_move (hm : Move f g) :
    g.scan = f.scan ∨ g.scan = some f.owned ∨ g.scan = none := by
  cases hm with
  | listed unlisted => exact Or.inr (Or.inl rfl)
  | renewed threshold now scan => exact Or.inr (Or.inr rfl)
  | _ => exact Or.inl rfl

theorem Records.move {d : List Deed} (hs : f.Sound) (hfiled : f.Filed) (h : f.Records s D)
    (hm : Move f g) (hd : g.journal = d ++ f.journal) (hplaced : .placed s ∉ d)
    (hdomains : ∀ i r, (f.post i).request? = some r → r.target = s → r.domains = D)
    (hcommas : ∀ host ∈ D.hosts, ',' ∉ host.toList) : g.Records s D := by
  have hsettings := settings_move hm
  constructor
  · have htouch := touch_move hs hm hd s
    have hnone : .placed s ∉ touching s d := fun hmem => hplaced (mem_touching.1 hmem).1
    generalize touching s d = t at htouch hnone
    rw [hsettings]
    intro o ho
    cases htouch with
    | none same => exact h.stored o (same ▸ ho)
    | @wrote i r c target storing present =>
        -- what a worker writes records the hosts of its request
        have hD : r.domains = D := hdomains i r (by rw [storing]; rfl) target
        cases present.symm.trans ho
        intro _ D' hD'
        rw [domains_managedSecret, hD, DomainSet.ofJoined_joined hcommas] at hD'
        exact (Option.some.inj hD').symm
    | withdrew target withdrawing answered absent => cases absent.symm.trans ho
    | removed absent => cases absent.symm.trans ho
    | placed present => exact absurd (List.mem_singleton_self _) hnone
  · rw [hsettings]
    intro l hl o ho href
    rcases scan_move hm with heq | heq | heq
    · exact h.listed l (heq ▸ hl) o ho href
    · -- the listing shows the secret as it is
      cases heq.symm.trans hl
      obtain ⟨⟨k, hk⟩, -⟩ := mem_owned.1 ho
      have hplace : s.place = k := by
        rw [← href]
        exact (hfiled k o hk).2
      refine h.stored o ?_
      rw [secret?, hplace]
      exact hk
    · cases heq.symm.trans hl

/-- So a renewal asks for these hosts. -/
theorem Records.renewed {d : List Deed} (h : f.Records s D) (hm : Move f g)
    (hd : g.journal = d ++ f.journal) :
    ∀ r, .renewed r ∈ d → r.target = s → r.domains = D := by
  intro r hr htarget
  rcases isFor_move hm hd with hneutral | ⟨r', rfl, -⟩ | ⟨t, rfl, -⟩ | ⟨rs, rfl, -, hrenews⟩
  · exact absurd rfl (hneutral _ hr r.key)
  · cases List.mem_singleton.1 hr
  · cases List.mem_singleton.1 hr
  · obtain ⟨r', hr', heq⟩ := List.mem_map.1 (List.mem_reverse.1 hr)
    cases heq
    obtain ⟨l, hl, o, ho, threshold, now, b, hdue, rfl⟩ := hrenews r hr'
    obtain ⟨hmanaged, hread⟩ := Manager.of_due hdue
    have href : o.ref = s := (Manager.target_of_due hdue).symm.trans htarget
    exact h.listed l hl o ho href hmanaged _ (Bookkeeping.of_read hread).2

/-! ## What a smooth run keeps -/

/-- What a floor keeps about a secret while everything goes smoothly. -/
structure Steady (f : Floor) (s : SecretRef) (D : DomainSet) : Prop where
  /-- The floor is sound. -/
  sound : f.Sound
  /-- The manager works for the newest demand. -/
  current : f.Current
  /-- Every secret stands where it says. -/
  filed : f.Filed
  /-- The manager has not been stopped. -/
  opened : f.manager.queue.closed = false
  /-- The journal tells about the secret. -/
  recorded : f.Recorded s D
  /-- Nothing is left of abandoned demand. -/
  forsakes : f.Forsakes s
  /-- Everything has gone smoothly. -/
  smooth : ∀ x ∈ f.journal, x.isSmooth = true
  /-- The secret records these hosts. -/
  records : f.Records s D
  /-- Renewals have asked for these hosts. -/
  renewed : ∀ r, .renewed r ∈ f.journal → r.target = s → r.domains = D

/-- If these hosts are asked for from outside, then workers issue for them. -/
theorem Steady.domains (h : f.Steady s D)
    (hasked : ∀ r, .asked r ∈ f.journal → r.target = s → r.domains = D) (i : Nat) (r : Request)
    (hr : (f.post i).request? = some r) : r.target = s → r.domains = D := by
  obtain ⟨x, hx, rfl | rfl⟩ := h.current.asked i r hr
  · exact hasked r hx
  · exact h.renewed r hx

theorem Steady.step {e : FloorEvent} (h : f.Steady s D)
    (hasked : ∀ r, .asked r ∈ f.journal → r.target = s → r.domains = D)
    (hcommas : ∀ host ∈ D.hosts, ',' ∉ host.toList) (hstep : f.step? e = some g)
    (hsmooth : e.isSmooth = true) : g.Steady s D := by
  have hmove := move_of_step? hstep
  obtain ⟨d, hd⟩ := journal_move hmove
  have hdeeds := smooth_deeds hstep hsmooth hd
  have hplaced : .placed s ∉ d := fun hmem => by cases hdeeds _ hmem
  have hfailed : .failed s ∉ d := fun hmem => by cases hdeeds _ hmem
  have hdomains := h.domains hasked
  exact {
    sound := h.sound.move hmove
    current := h.current.move h.sound hmove
    filed := h.filed.move h.sound hmove
    opened := (closed_step hstep (by rintro rfl; cases hsmooth)).trans h.opened
    recorded := h.recorded.move h.sound hmove hd hplaced hdomains hcommas
    forsakes := h.forsakes.move h.sound h.recorded hmove hd hplaced hfailed
    smooth := by
      rw [hd]
      intro x hx
      exact (List.mem_append.1 hx).elim (hdeeds x) (h.smooth x)
    records := h.records.move h.sound h.filed hmove hd hplaced hdomains hcommas
    renewed := by
      rw [hd]
      intro r hr
      exact (List.mem_append.1 hr).elim (h.records.renewed hmove hd r) (h.renewed r) }

theorem Steady.run? {es : List FloorEvent} (h : f.Steady s D) (hrun : f.run? es = some g)
    (hsmooth : ∀ e ∈ es, e.isSmooth = true)
    (hasked : ∀ r, .asked r ∈ g.journal → r.target = s → r.domains = D)
    (hcommas : ∀ host ∈ D.hosts, ',' ∉ host.toList) : g.Steady s D := by
  induction es generalizing f with
  | nil =>
      cases hrun
      exact h
  | cons e es ih =>
      -- what is asked for stays noted until the end
      obtain ⟨d, hd⟩ := journal_run? hrun
      have hasked₀ : ∀ r, .asked r ∈ f.journal → r.target = s → r.domains = D := fun r hr =>
        hasked r (by rw [hd]; exact List.mem_append_right _ hr)
      rw [run?_cons] at hrun
      obtain ⟨f', hfirst, hrest⟩ := Option.bind_eq_some_iff.1 hrun
      have hnext := h.step hasked₀ hcommas hfirst (hsmooth e List.mem_cons_self)
      exact ih hnext hrest fun e' he' => hsmooth e' (List.mem_cons_of_mem _ he')

theorem steady_start {settings : ManagerSettings} {max : Int}
    {listing : Except Error (List Secret)} {shelf : Snapshot Secret}
    (hfiled : ∀ k o, shelf.lookup k = some o → o.metadata.key = k ∧ o.ref.place = k)
    (hstored : ∀ o, shelf.lookup s.place = some o → o.RecordsOnly settings.controllerName D) :
    (start settings max listing shelf).Steady s D where
  sound := sound_start settings max listing shelf
  current := current_start settings max listing shelf
  filed := hfiled
  opened := by
    obtain ⟨q, -, -, -, heq⟩ := restored_eq settings max listing
    show (restored settings max listing).queue.closed = false
    rw [heq]
    rfl
  recorded := by
    refine ⟨fun hgone => ?_, fun hwrote => by cases hwrote⟩
    rcases hgone with heq | heq
    · cases heq
    · cases heq
  forsakes := by
    rintro ⟨recent, before, heq, -⟩
    cases recent with
    | nil => cases heq
    | cons x recent => cases heq
  smooth := fun x hx => by cases hx
  records := by
    refine ⟨?_, fun l hl => by cases hl⟩
    rw [settings_start]
    exact hstored
  renewed := fun r hr => by cases hr

end Floor

/-- Whether an event is one of a cluster that runs smoothly. -/
def WorldEvent.isSmooth : WorldEvent → Bool
  | work e => e.isSmooth
  | serve _ .done => true
  | serve _ _ => false
  | put k _ | drop k _ => !k.isClass
  | lose _ | handle _ | look _ | resume _ => true

/-- If the event writes a resource, it names a secret for given hosts only. -/
def WorldEvent.IsUniform (s : SecretRef) (D : DomainSet) : WorldEvent → Prop
  | put k o => (k.secured o).Uniform s D
  | work _ | drop _ _ | lose _ | handle _ | look _ | serve _ _ | resume _ => True

instance (s : SecretRef) (D : DomainSet) : DecidablePred (WorldEvent.IsUniform s D)
  | .put k o => inferInstanceAs (Decidable ((k.secured o).Uniform s D))
  | .work _ | .drop _ _ | .lose _ | .handle _ | .look _ | .serve _ _ | .resume _ => isTrue trivial

namespace World

variable {w w' : World} {s : SecretRef} {D : DomainSet}

/-! ## The cluster -/

/-- What happens in a cluster that runs smoothly is a smooth run of its floor. -/
theorem smooth_floor {e : WorldEvent} (h : w.step? e = some w') (hsmooth : e.isSmooth = true) :
    ∃ es, w.floor.run? es = some w'.floor ∧ ∀ e ∈ es, e.isSmooth = true := by
  have hone : ∀ e : FloorEvent, e.isSmooth = true → ∀ e' ∈ [e], e'.isSmooth = true := by
    intro e he e' he'
    rw [List.mem_singleton.1 he', he]
  cases turn_of_step? h with
  | @worked e g inner step => exact ⟨[e], by rw [Floor.run?_cons, step]; rfl, hone e hsmooth⟩
  | put other news => exact ⟨[], rfl, fun e' he' => by cases he'⟩
  | dropped other known => exact ⟨[], rfl, fun e' he' => by cases he'⟩
  | lost t => exact ⟨[.remove t], rfl, hone _ rfl⟩
  | @handled k c rest waiting =>
      refine ⟨_, floor_asks w.floor (w.controller.react c).requests, fun e' he' => ?_⟩
      obtain ⟨r, -, rfl⟩ := List.mem_map.1 he'
      rfl
  | @looked k t rest looking => exact ⟨[.look t], rfl, hone _ rfl⟩
  | @served k t rest service deleting =>
      cases service with
      | done => exact ⟨[.remove t], rfl, hone _ rfl⟩
      | refused e => cases hsmooth
      | lost e => cases hsmooth
  | @resumed k t a rest deleting =>
      cases a with
      | ok _ => exact ⟨[.release t], rfl, hone _ rfl⟩
      | error e => exact ⟨[], rfl, fun e' he' => by cases he'⟩

/-- What is known about a secret in a cluster in which all resources name it for the same hosts. -/
structure Informed (w : World) (s : SecretRef) (D : DomainSet) : Prop where
  /-- The floor keeps what it keeps about the secret. -/
  steady : w.floor.Steady s D
  /-- The controller asks for these hosts. -/
  asked : ∀ r, .asked r ∈ w.floor.journal → r.target = s → r.domains = D
  /-- The resources name the secret for these hosts. -/
  stock : ∀ k, ∀ o ∈ (w.kinds.get k).objects, (k.secured o).Uniform s D
  /-- So do those that the controller has not learned of. -/
  brought : ∀ k, ∀ c ∈ (w.lane k).changes, ∀ o, Controller.current c.change = some o →
    (c.kind.secured o).Uniform s D
  /-- A call for the deletion that was answered has taken effect. -/
  answered : ∀ k rest, (w.lane k).errand = .deleting s (some (.ok ())) rest →
    .removed s ∈ w.floor.journal

/-- The secrets that are gone bring nothing. -/
theorem current_vanished {f g : Floor} {c : KindChange} (h : c ∈ vanished f g) :
    Controller.current c.change = none := by
  obtain ⟨o, -, rfl⟩ := List.mem_map.1 h
  rfl

theorem current_changeOf {α : Type} (store : Snapshot α) (key : α → ObjectKey) (o : α) :
    Controller.current (KindWatch.changeOf store key o) = some o := by
  rw [KindWatch.changeOf]
  split
  · rfl
  · rfl

/-- The objects after one has been written are that one and old ones. -/
theorem mem_objects_put {k j : Kind} {o : k.Object} {o' : j.Object}
    (h : o' ∈ ((w.put k o).kinds.get j).objects) :
    (∃ hj : j = k, hj ▸ o' = o) ∨ o' ∈ (w.kinds.get j).objects := by
  change o' ∈ ((w.kinds.set k _).get j).objects at h
  by_cases hj : j = k
  · subst hj
    rw [PerKind.get_set_self] at h
    obtain ⟨key, hkey⟩ := Snapshot.mem_objects.1 h
    rw [Snapshot.lookup_insert] at hkey
    split at hkey
    · cases hkey
      exact Or.inl ⟨rfl, rfl⟩
    · exact Or.inr (Snapshot.mem_objects.2 ⟨key, hkey⟩)
  · rw [PerKind.get_set_ne _ _ hj] at h
    exact Or.inr h

theorem mem_objects_drop {k j : Kind} {key : ObjectKey} {o : k.Object} {o' : j.Object}
    (h : o' ∈ ((w.drop k key o).kinds.get j).objects) : o' ∈ (w.kinds.get j).objects := by
  change o' ∈ ((w.kinds.set k _).get j).objects at h
  by_cases hj : j = k
  · subst hj
    rw [PerKind.get_set_self] at h
    obtain ⟨key', hkey'⟩ := Snapshot.mem_objects.1 h
    rw [Snapshot.lookup_erase] at hkey'
    split at hkey'
    · cases hkey'
    · exact Snapshot.mem_objects.2 ⟨key', hkey'⟩
  · rw [PerKind.get_set_ne _ _ hj] at h
    exact h

/-- The controller asks for the hosts for which resources name the secret. -/
theorem Informed.asked_turn {e : WorldEvent} (h : w.Informed s D) (hturn : Turn w e w') :
    ∀ r, .asked r ∈ w'.floor.journal → r.target = s → r.domains = D := by
  -- what is noted besides leaves what was asked for
  have hother : ∀ {d}, w'.floor.journal = d ++ w.floor.journal → (∀ r, .asked r ∉ d) →
      ∀ r, .asked r ∈ w'.floor.journal → r.target = s → r.domains = D := by
    intro d hd hnone r hr
    rw [hd] at hr
    exact h.asked r ((List.mem_append.1 hr).resolve_left (hnone r))
  cases hturn with
  | @worked e g inner step =>
      obtain ⟨d, hd⟩ := Floor.journal_move (Floor.move_of_step? step)
      refine hother hd fun r hr => ?_
      cases inner_deeds step inner hd _ hr
  | put other news => exact h.asked
  | dropped other known => exact h.asked
  | lost t => exact hother (d := [.removed t]) rfl (by simp)
  | @handled k c rest waiting =>
      intro r hr htarget
      rw [show (w.handle k c rest).floor.journal = _ from
        journal_asks w.floor (w.controller.react c).requests] at hr
      rcases List.mem_append.1 hr with hr | hr
      · -- the controller asks because of the change, which names these hosts
        obtain ⟨r', hr', heq⟩ := List.mem_map.1 (List.mem_reverse.1 hr)
        cases heq
        refine domains_of_react h.stock (h.brought k c ?_) hr' htarget
        rw [waiting]
        exact List.mem_cons_self
      · exact h.asked r hr htarget
  | looked looking => exact hother (d := [.looked _]) rfl (by simp)
  | @served k t rest service deleting =>
      rw [serve]
      split
      · intro r hr
        exact h.asked r ((List.mem_cons.1 hr).resolve_left fun heq => by cases heq)
      · exact h.asked
  | @resumed k t a rest deleting =>
      cases a with
      | ok _ => exact hother (d := [.released t]) rfl (by simp)
      | error e => exact h.asked

/-- The resources go on naming the secret for the same hosts. -/
theorem Informed.stock_turn {e : WorldEvent} (h : w.Informed s D) (hturn : Turn w e w')
    (huniform : e.IsUniform s D) :
    ∀ k, ∀ o ∈ (w'.kinds.get k).objects, (k.secured o).Uniform s D := by
  cases hturn with
  | @put k o other news =>
      intro j o' ho'
      rcases mem_objects_put ho' with ⟨rfl, rfl⟩ | hold
      · exact huniform
      · exact h.stock j o' hold
  | @dropped k key o other known => exact fun j o' ho' => h.stock j o' (mem_objects_drop ho')
  | @served k t rest service deleting =>
      rw [serve]
      split
      · exact h.stock
      · exact h.stock
  | @resumed k t a rest deleting =>
      cases a with
      | ok _ => exact h.stock
      | error e => exact h.stock
  | _ => exact h.stock

/-- So do the resources that the controller has not learned of. -/
theorem Informed.brought_turn {e : WorldEvent} (h : w.Informed s D) (hturn : Turn w e w')
    (huniform : e.IsUniform s D) :
    ∀ k, ∀ c ∈ (w'.lane k).changes, ∀ o, Controller.current c.change = some o →
      (c.kind.secured o).Uniform s D := by
  have hfloor : ∀ g k, ∀ c ∈ ((w.withFloor g).lane k).changes, ∀ o,
      Controller.current c.change = some o → (c.kind.secured o).Uniform s D := by
    intro g k c hc o ho
    rcases mem_changes_enqueue.1 hc with hold | ⟨-, hnew⟩
    · exact h.brought k c hold o ho
    · rw [current_vanished hnew] at ho
      cases ho
  cases hturn with
  | worked inner step => exact hfloor _
  | @put k o other news =>
      intro j c hc o' ho'
      rcases mem_changes_enqueue.1 hc with hold | ⟨-, hnew⟩
      · exact h.brought j c hold o' ho'
      · cases List.mem_singleton.1 hnew
        rw [current_changeOf] at ho'
        cases ho'
        exact huniform
  | @dropped k key o other known =>
      intro j c hc o' ho'
      rcases mem_changes_enqueue.1 hc with hold | ⟨-, hnew⟩
      · exact h.brought j c hold o' ho'
      · cases List.mem_singleton.1 hnew
        cases ho'
  | lost t => exact hfloor _
  | @handled k c rest waiting =>
      intro j c' hc'
      by_cases hj : j = k
      · subst hj
        rw [show (w.handle j c rest).lane j = _ from lane_set_self _ _ _] at hc'
        refine h.brought j c' ?_
        rw [waiting]
        exact List.mem_cons_of_mem _ hc'
      · rw [show (w.handle k c rest).lane j = w.lane j from lane_set_ne _ _ hj] at hc'
        exact h.brought j c' hc'
  | looked looking =>
      intro j c hc
      rw [look, changes_setErrand] at hc
      exact h.brought j c hc
  | @served k t rest service deleting =>
      intro j c hc
      rw [serve, changes_setErrand] at hc
      split at hc
      · exact hfloor _ j c hc
      · exact h.brought j c hc
  | @resumed k t a rest deleting =>
      intro j c hc
      cases a with
      | ok _ =>
          rw [resume, changes_setErrand] at hc
          exact h.brought j c hc
      | error e =>
          rw [resume, changes_setErrand] at hc
          exact h.brought j c hc

/-- A deletion is answered after it has taken effect. -/
theorem Informed.answered_turn {e : WorldEvent} (h : w.Informed s D) (hturn : Turn w e w')
    (hsmooth : e.isSmooth = true) :
    ∀ k rest, (w'.lane k).errand = .deleting s (some (.ok ())) rest →
      .removed s ∈ w'.floor.journal := by
  obtain ⟨d, hd, -⟩ := worldly_turn hturn
  have hold : ∀ k rest, (w.lane k).errand = .deleting s (some (.ok ())) rest →
      .removed s ∈ w'.floor.journal := by
    intro k rest herrand
    rw [hd]
    exact List.mem_append_right _ (h.answered k rest herrand)
  have hqueued : ∀ (w₁ : World) k cs, w₁.lanes = w.lanes →
      ∀ j rest, ((w₁.enqueue k cs).lane j).errand = .deleting s (some (.ok ())) rest →
      .removed s ∈ w'.floor.journal := by
    intro w₁ k cs hlanes j rest herrand
    rw [errand_enqueue, lane, hlanes] at herrand
    exact hold j rest herrand
  cases hturn with
  | worked inner step => exact hqueued { w with floor := _ } .secret _ rfl
  | @put k o other news => exact hqueued { w with kinds := _ } k _ rfl
  | @dropped k key o other known => exact hqueued { w with kinds := _ } k _ rfl
  | lost t => exact hqueued { w with floor := _ } .secret _ rfl
  | @handled k c rest waiting =>
      intro j rest' herrand
      by_cases hj : j = k
      · subst hj
        rw [show (w.handle j c rest).lane j = _ from lane_set_self _ _ _] at herrand
        cases herrand
      · rw [show (w.handle k c rest).lane j = w.lane j from lane_set_ne _ _ hj] at herrand
        exact hold j rest' herrand
  | @looked k t rest looking =>
      intro j rest' herrand
      rw [look, errand_setErrand] at herrand
      split at herrand
      · split at herrand
        · cases herrand
        · cases herrand
      · exact hold j rest' herrand
  | @served k t rest service deleting =>
      cases service with
      | refused e => cases hsmooth
      | lost e => cases hsmooth
      | done =>
          intro j rest' herrand
          rw [serve, errand_setErrand] at herrand
          split at herrand
          · -- the deletion of this very secret takes effect now
            cases herrand
            exact List.mem_cons_self
          · exact hqueued { w with floor := _ } .secret _ rfl j rest' herrand
  | @resumed k t a rest deleting =>
      intro j rest' herrand
      cases a with
      | ok _ =>
          rw [resume, errand_setErrand] at herrand
          split at herrand
          · cases herrand
          · exact hold j rest' herrand
      | error e =>
          rw [resume, errand_setErrand] at herrand
          split at herrand
          · cases herrand
          · exact hold j rest' herrand

theorem Informed.step {e : WorldEvent} (h : w.Informed s D) (hstep : w.step? e = some w')
    (hsmooth : e.isSmooth = true) (huniform : e.IsUniform s D)
    (hcommas : ∀ host ∈ D.hosts, ',' ∉ host.toList) : w'.Informed s D := by
  have hturn := turn_of_step? hstep
  have hasked := h.asked_turn hturn
  obtain ⟨es, hrun, hall⟩ := smooth_floor hstep hsmooth
  exact {
    steady := h.steady.run? hrun hall hasked hcommas
    asked := hasked
    stock := h.stock_turn hturn huniform
    brought := h.brought_turn hturn huniform
    answered := h.answered_turn hturn hsmooth }

end World

end IngressTls
