import IngressTls.Proofs.Cluster.Reference
import IngressTls.Proofs.Manager.Aftermath
import IngressTls.Proofs.Manager.Targets

set_option autoImplicit false

/-! # Orphans

A managed secret that no resource points at is an orphan. When the last resource stops to
point at a secret, the controller looks at it and has it deleted. But it only looks at what is
there: if the certificate has not been issued yet there is no secret to delete, the request is
not released, and a worker writes the secret afterwards. The controller has then looked for
the last time, and the secret stays.

That is the only way to an orphan. When the cluster has become quiet, a secret that nobody
points at exists exactly if the last that happened to it was a worker's write (and not a look
of the controller, or a deletion).

Main statement: `orphaned_iff`.
-/

namespace IngressTls

/-- The secret that a deed changes or looks at. -/
def Deed.concerned? : Deed → Option SecretRef
  | looked s | wrote s | withdrew s | removed s | placed s => some s
  | asked _ | renewed _ | released _ | failed _ => none

/-- The last deed that changed a secret or looked at it. -/
def lastConcern (s : SecretRef) (d : List Deed) : Option Deed :=
  d.find? fun x => x.concerned? = some s

theorem lastConcern_cons_of_ne {s : SecretRef} {x : Deed} (d : List Deed)
    (h : x.concerned? ≠ some s) : lastConcern s (x :: d) = lastConcern s d :=
  List.find?_cons_of_neg (by simpa using h)

theorem lastConcern_cons_of_eq {s : SecretRef} {x : Deed} (d : List Deed)
    (h : x.concerned? = some s) : lastConcern s (x :: d) = some x :=
  List.find?_cons_of_pos (by simpa using h)

/-- Deeds that concern no secret leave the last one that did. -/
theorem lastConcern_append_of_unconcerned {s : SecretRef} {d : List Deed} (d' : List Deed)
    (h : ∀ x ∈ d, x.concerned? ≠ some s) : lastConcern s (d ++ d') = lastConcern s d' := by
  rw [lastConcern, List.find?_append, List.find?_eq_none.2 fun x hx => by simpa using h x hx]
  rfl

/-- Inside the manager nobody looks at secrets: what concerns one changes it. -/
theorem lastConcern_append_of_inner {s : SecretRef} {d : List Deed} (d' : List Deed)
    (h : ∀ x ∈ d, x.isInner = true) :
    lastConcern s (d ++ d') = (touching s d).head?.or (lastConcern s d') := by
  have hsame : ∀ x ∈ d, decide (x.concerned? = some s) = decide (x.touched? = some s) := by
    intro x hx
    cases x with
    | looked t => cases h _ hx
    | _ => rfl
  rw [lastConcern, List.find?_append, ← List.head?_filter, List.filter_congr hsame]
  rfl

/-- Whether a secret is to be looked at, or its deletion has been called for and not served. -/
def Errand.Covers (s : SecretRef) : Errand → Prop
  | looking names => s ∈ names
  | deleting t answer rest => t = s ∧ answer = none ∨ s ∈ rest

namespace World

/-- The manager owns the secret at a place. -/
def Manages (w : World) (s : SecretRef) : Prop :=
  ∃ o, w.floor.secret? s = some o ∧
    o.metadata.isManagedBy w.floor.manager.settings.controllerName = true

/-- The controller is going to look at a secret, or has called for its deletion. -/
def Expects (w : World) (s : SecretRef) : Prop :=
  ∃ k, (∃ c ∈ (w.lane k).changes, Drops c s) ∨ (w.lane k).errand.Covers s

/-- What a cluster without failing calls keeps about a secret. -/
structure Attends (w : World) (s : SecretRef) : Prop where
  /-- What was written last is there. -/
  written : lastConcern s w.floor.journal = some (.wrote s) → w.Manages s
  /-- Everything else that is there is pointed at, or expected. -/
  attended : w.Manages s → lastConcern s w.floor.journal = some (.wrote s) ∨ w.PointsAt s ∨
    w.Expects s

/-- What every step keeps about the cluster as a whole. -/
structure Kept (w : World) : Prop where
  /-- The floor is sound. -/
  sound : w.floor.Sound
  /-- The manager works on secrets with names. -/
  named : w.floor.Within fun s => s.name ≠ ""
  /-- Every object stands under its own key. -/
  keyed : w.Keyed

/-- A floor that leaves a secret and the settings alone. -/
theorem manages_congr {w w' : World} {s : SecretRef}
    (hsecret : w'.floor.secret? s = w.floor.secret? s)
    (hsettings : w'.floor.manager.settings = w.floor.manager.settings) :
    w'.Manages s ↔ w.Manages s := by
  rw [Manages, Manages, hsecret, hsettings]

theorem not_manages_of_absent {w : World} {s : SecretRef} (h : w.floor.secret? s = none) :
    ¬ w.Manages s := by
  rintro ⟨o, ho, -⟩
  rw [h] at ho
  cases ho

/-- What is there has a name. -/
theorem Kept.name_ne {w : World} (h : w.Kept) {s : SecretRef} (hs : w.Manages s) : s.name ≠ "" := by
  obtain ⟨o, ho, hmanaged⟩ := hs
  obtain ⟨hplace, hname⟩ := h.named.owned s.place o ho hmanaged
  rw [SecretRef.place_inj.1 hplace]
  exact hname

/-- What is there and not referenced is reclaimed. -/
theorem reclaims_of_manages {w : World} {s : SecretRef} (hs : w.Manages s)
    (hpoints : ¬ w.PointsAt s) : w.controller.reclaims s = true := by
  obtain ⟨o, ho, hmanaged⟩ := hs
  have hcache : w.cache.secret s = some (SecretView.ofSecret o) := by
    show (w.floor.shelf.find? s.place).map SecretView.ofSecret = _
    rw [Snapshot.find?, show w.floor.shelf.lookup s.place = some o from ho]
    rfl
  exact (w.controller.reclaims_iff s).2
    ⟨⟨_, hcache, hmanaged⟩, fun hrefers => hpoints ((w.refers_iff s).1 hrefers)⟩

/-! ## What the controller expects -/

theorem Expects.enqueue {w : World} {s : SecretRef} (h : w.Expects s) (k : Kind)
    (cs : List KindChange) : (w.enqueue k cs).Expects s := by
  obtain ⟨j, ⟨c, hc, hdrops⟩ | herrand⟩ := h
  · exact ⟨j, Or.inl ⟨c, mem_changes_enqueue.2 (Or.inl hc), hdrops⟩⟩
  · refine ⟨j, Or.inr ?_⟩
    rw [errand_enqueue]
    exact herrand

/-- A change that gives a secret up makes the controller look at it. -/
theorem expects_of_drops {w : World} {k : Kind} {c : KindChange} {s : SecretRef}
    (h : Drops c s) : (w.enqueue k [c]).Expects s :=
  ⟨k, Or.inl ⟨c, mem_changes_enqueue.2 (Or.inr ⟨rfl, List.mem_singleton_self _⟩), h⟩⟩

/-- A lane goes on with an errand that still covers a secret. -/
theorem Expects.setErrand {w : World} {s : SecretRef} {k : Kind} {e : Errand} (h : w.Expects s)
    (herrand : (w.lane k).errand.Covers s → e.Covers s) : (w.setErrand k e).Expects s := by
  obtain ⟨j, ⟨c, hc, hdrops⟩ | hold⟩ := h
  · refine ⟨j, Or.inl ⟨c, ?_, hdrops⟩⟩
    rw [changes_setErrand]
    exact hc
  · refine ⟨j, Or.inr ?_⟩
    rw [errand_setErrand]
    by_cases hjk : j = k
    · subst hjk
      rw [if_pos rfl]
      exact herrand hold
    · rw [if_neg hjk]
      exact hold

/-! ## What a step keeps -/

theorem Kept.step {w w' : World} {e : WorldEvent} (h : w.Kept) (hstep : w.step? e = some w') :
    w'.Kept := by
  obtain ⟨fs, hfs⟩ := floor_step? hstep
  have hturn := turn_of_step? hstep
  obtain ⟨d, hd, hworldly⟩ := worldly_turn hturn
  -- only the controller asks from outside, and it asks for secrets with names
  refine ⟨Floor.sound_run? h.sound hfs, h.named.run? h.sound hfs hd fun x hx => ?_, ?_⟩
  · have hx' := hworldly x hx
    cases x with
    | asked r => exact hx'
    | placed t => exact hx'.elim
    | _ => trivial
  · cases hturn with
    | @put k o other news => exact h.keyed.put k o
    | @dropped k key o other known => exact h.keyed.drop k key o
    | @served k t rest service deleting =>
        rw [serve]
        split
        · exact h.keyed
        · exact h.keyed
    | @resumed k t a rest deleting =>
        cases a with
        | ok _ => exact h.keyed
        | error e => exact h.keyed
    | _ => exact h.keyed

/-- Nothing happens to a secret. -/
theorem Attends.keep {w w' : World} {s : SecretRef} (h : w.Attends s)
    (hmanages : w'.Manages s ↔ w.Manages s)
    (hlast : lastConcern s w'.floor.journal = lastConcern s w.floor.journal)
    (hpoints : w'.Manages s → w.PointsAt s → w'.PointsAt s ∨ w'.Expects s)
    (hexpects : w.Expects s → w'.Expects s) : w'.Attends s where
  written := by
    rw [hlast, hmanages]
    exact h.written
  attended := by
    intro hs
    rw [hlast]
    rcases h.attended (hmanages.1 hs) with hwrote | hpoint | hexpect
    · exact Or.inl hwrote
    · exact Or.inr (hpoints hs hpoint)
    · exact Or.inr (Or.inr (hexpects hexpect))

/-- A secret is gone. -/
theorem Attends.gone {w : World} {s : SecretRef} (habsent : w.floor.secret? s = none)
    (hlast : lastConcern s w.floor.journal ≠ some (.wrote s)) : w.Attends s where
  written := fun h => absurd h hlast
  attended := fun h => absurd h (not_manages_of_absent habsent)

/-- Something happens inside the manager. -/
theorem Attends.worked {w : World} {s : SecretRef} {e : FloorEvent} {g : Floor} (hkept : w.Kept)
    (h : w.Attends s) (hinner : e.isInner = true) (hstep : w.floor.step? e = some g) :
    (w.withFloor g).Attends s := by
  have hmove := Floor.move_of_step? hstep
  obtain ⟨d, hd⟩ := Floor.journal_move hmove
  have hdeeds := inner_deeds hstep hinner hd
  have hlast : lastConcern s g.journal =
      (touching s d).head?.or (lastConcern s w.floor.journal) := by
    rw [hd]
    exact lastConcern_append_of_inner _ hdeeds
  have hplaced : .placed s ∉ touching s d := by
    intro hmem
    cases hdeeds _ (mem_touching.1 hmem).1
  have htouch := Floor.touch_move hkept.sound hmove hd s
  generalize touching s d = t at hlast hplaced htouch
  -- a worker's write or withdrawal is what happened last; all else leaves the secret alone
  cases htouch with
  | none same =>
      have hmanages : (w.withFloor g).Manages s ↔ w.Manages s :=
        manages_congr same (Floor.settings_move hmove)
      exact h.keep hmanages hlast (fun _ => Or.inl)
        fun hold => Expects.enqueue (w := { w with floor := g }) hold _ _
  | @wrote i r c target storing present =>
      have hmanages : (w.withFloor g).Manages s := by
        refine ⟨_, present, ?_⟩
        show Metadata.isManagedBy _ g.manager.settings.controllerName = true
        rw [Floor.settings_move hmove]
        exact isManagedBy_managedSecret r c _
      exact ⟨fun _ => hmanages, fun _ => Or.inl hlast⟩
  | withdrew target withdrawing answered absent =>
      refine .gone absent fun hwrote => ?_
      cases hlast.symm.trans hwrote
  | removed absent =>
      refine .gone absent fun hwrote => ?_
      cases hlast.symm.trans hwrote
  | placed present => exact absurd (List.mem_singleton_self _) hplaced

/-- A secret is deleted from outside the manager. -/
theorem Attends.erased {w : World} {s : SecretRef} (h : w.Attends s) (t : SecretRef) :
    (w.withFloor ((w.floor.erase t).note (.removed t))).Attends s := by
  have hsecret := Floor.secret?_erase w.floor t s
  by_cases ht : t = s
  · subst ht
    rw [if_pos rfl] at hsecret
    refine .gone hsecret fun hwrote => ?_
    cases (lastConcern_cons_of_eq (x := .removed t) w.floor.journal rfl).symm.trans hwrote
  · rw [if_neg ht] at hsecret
    have hconcern : (Deed.removed t).concerned? ≠ some s := fun heq => ht (Option.some.inj heq)
    refine h.keep (manages_congr hsecret rfl) (lastConcern_cons_of_ne _ hconcern)
      (fun _ => Or.inl) fun hold => ?_
    exact Expects.enqueue (w := { w with floor := (w.floor.erase t).note (.removed t) }) hold _ _

/-- A change is handled. -/
theorem Attends.handled {w : World} {s : SecretRef} {k : Kind} {c : KindChange}
    {rest : List KindChange} (h : w.Attends s) (hlane : w.lane k = ⟨c :: rest, .looking []⟩) :
    (w.handle k c rest).Attends s := by
  let rs := (w.controller.react c).requests
  have hjournal : (w.handle k c rest).floor.journal =
      (rs.map Deed.asked).reverse ++ w.floor.journal := journal_asks w.floor rs
  obtain ⟨hshelf, hsettings⟩ := asks_unchanged w.floor rs
  have hsecret : (w.handle k c rest).floor.secret? s = w.floor.secret? s :=
    congrArg (fun shelf : Snapshot Secret => shelf.lookup s.place) hshelf
  refine h.keep (manages_congr hsecret hsettings) ?_ (fun _ => Or.inl) fun hold => ?_
  · rw [hjournal]
    refine lastConcern_append_of_unconcerned _ fun x hx => ?_
    obtain ⟨r, -, rfl⟩ := List.mem_map.1 (List.mem_reverse.1 hx)
    exact fun heq => by cases heq
  · obtain ⟨j, hj⟩ := hold
    by_cases hjk : j = k
    · subst hjk
      rw [hlane] at hj
      refine ⟨j, ?_⟩
      rw [show (w.handle j c rest).lane j = _ from lane_set_self _ _ _]
      -- the change that is handled may be the one that gives the secret up
      rcases hj with ⟨c', hc', hdrops⟩ | hlooking
      · rcases List.mem_cons.1 hc' with rfl | hrest
        · exact Or.inr (hdrops w.controller)
        · exact Or.inl ⟨c', hrest, hdrops⟩
      · cases hlooking
    · refine ⟨j, ?_⟩
      rw [show (w.handle k c rest).lane j = w.lane j from lane_set_ne _ _ hjk]
      exact hj

/-- A secret is looked at: if it is there and nobody points at it, its deletion is called for. -/
theorem Attends.looked {w : World} {s t : SecretRef} {k : Kind} {rest : List SecretRef}
    (h : w.Attends s) (hlane : (w.lane k).errand = .looking (t :: rest)) :
    (w.look k t rest).Attends s := by
  have hmanages : (w.look k t rest).Manages s ↔ w.Manages s := manages_congr rfl rfl
  by_cases ht : t = s
  · subst ht
    have hlast : lastConcern t (w.look k t rest).floor.journal = some (.looked t) :=
      lastConcern_cons_of_eq (x := .looked t) w.floor.journal rfl
    refine ⟨fun hwrote => (by cases hlast.symm.trans hwrote), fun hs => Or.inr ?_⟩
    -- the controller keeps what is pointed at and calls for the deletion of what is not
    by_cases hpoints : w.PointsAt t
    · exact Or.inl hpoints
    · refine Or.inr ⟨k, Or.inr ?_⟩
      rw [look, errand_setErrand, if_pos rfl, if_pos (reclaims_of_manages (hmanages.1 hs) hpoints)]
      exact Or.inl ⟨rfl, rfl⟩
  · have hconcern : (Deed.looked t).concerned? ≠ some s := fun heq => ht (Option.some.inj heq)
    refine h.keep hmanages (lastConcern_cons_of_ne _ hconcern) (fun _ => Or.inl) fun hold => ?_
    refine Expects.setErrand (w := { w with floor := w.floor.note (.looked t) }) hold fun hcovers => ?_
    have hmem : s ∈ rest := by
      rw [show (World.lane { w with floor := w.floor.note (.looked t) } k).errand = _ from hlane]
        at hcovers
      rcases List.mem_cons.1 hcovers with heq | hmem
      · exact absurd heq.symm ht
      · exact hmem
    split
    · exact Or.inr hmem
    · exact hmem

/-- The call for a deletion is served and does not fail. -/
theorem Attends.served {w : World} {s t : SecretRef} {k : Kind} {rest : List SecretRef}
    (h : w.Attends s) (hlane : (w.lane k).errand = .deleting t none rest) :
    (w.serve k t rest .done).Attends s := by
  have herased := h.erased t
  by_cases ht : t = s
  · subst ht
    refine ⟨fun hwrote => herased.written hwrote, fun hs => ?_⟩
    refine absurd hs (not_manages_of_absent ?_)
    exact (Floor.secret?_erase w.floor t t).trans (if_pos rfl)
  · refine herased.keep Iff.rfl rfl (fun _ => Or.inl) fun hold => ?_
    refine hold.setErrand fun hcovers => Or.inr ?_
    rw [withFloor, errand_enqueue, show (World.lane { w with
      floor := (w.floor.erase t).note (.removed t) } k).errand = _ from hlane] at hcovers
    rcases hcovers with ⟨heq, -⟩ | hmem
    · exact absurd heq ht
    · exact hmem

/-- The answer to the call for a deletion arrives. -/
theorem Attends.resumed {w : World} {s t : SecretRef} {k : Kind} {a : Except Error Unit}
    {rest : List SecretRef} (h : w.Attends s)
    (hlane : (w.lane k).errand = .deleting t (some a) rest) : (w.resume k t a rest).Attends s := by
  have hcovers : (w.lane k).errand.Covers s → (Errand.looking rest).Covers s := by
    rw [hlane]
    rintro (⟨-, hnone⟩ | hmem)
    · cases hnone
    · exact hmem
  cases a with
  | ok _ =>
      have hconcern : (Deed.released t).concerned? ≠ some s := fun heq => by cases heq
      refine h.keep (manages_congr rfl (Manager.release_settings _ _))
        (lastConcern_cons_of_ne _ hconcern) (fun _ => Or.inl) fun hold => ?_
      exact Expects.setErrand (w := { w with
        floor := (w.floor.setManager (w.floor.manager.release t)).note (.released t) }) hold hcovers
  | error e =>
      exact h.keep Iff.rfl rfl (fun _ => Or.inl) fun hold => hold.setErrand hcovers

theorem Attends.step {w w' : World} {e : WorldEvent} {s : SecretRef} (hkept : w.Kept)
    (h : w.Attends s) (hstep : w.step? e = some w') (hsucceeds : e.succeeds = true) :
    w'.Attends s := by
  cases turn_of_step? hstep with
  | worked inner step => exact h.worked hkept inner step
  | @put k o other news =>
      refine h.keep Iff.rfl rfl (fun hs hpoints => ?_) fun hold => ?_
      · by_cases hpoints' : (w.put k o).PointsAt s
        · exact Or.inl hpoints'
        · right
          exact expects_of_drops
            (drops_of_put hkept.keyed news (hkept.name_ne hs) hpoints hpoints')
      · exact Expects.enqueue (w := { w with kinds := _ }) hold k _
  | @dropped k key o other known =>
      refine h.keep Iff.rfl rfl (fun hs hpoints => ?_) fun hold => ?_
      · by_cases hpoints' : (w.drop k key o).PointsAt s
        · exact Or.inl hpoints'
        · right
          exact expects_of_drops
            (drops_of_drop hkept.keyed known (hkept.name_ne hs) hpoints hpoints')
      · exact Expects.enqueue (w := { w with kinds := _ }) hold k _
  | lost t => exact h.erased t
  | handled waiting => exact h.handled waiting
  | looked looking => exact h.looked looking
  | @served k t rest service deleting =>
      cases service with
      | done => exact h.served deleting
      | refused e => cases hsucceeds
      | lost e => cases hsucceeds
  | resumed deleting => exact h.resumed deleting

/-! ## The end -/

theorem attends_run? {w w' : World} {es : List WorldEvent} {s : SecretRef} (hkept : w.Kept)
    (h : w.Attends s) (hrun : w.run? es = some w') (hsucceed : ∀ e ∈ es, e.succeeds = true) :
    w'.Attends s := by
  induction es generalizing w with
  | nil =>
      cases hrun
      exact h
  | cons e es ih =>
      rw [run?_cons] at hrun
      obtain ⟨w₁, hfirst, hrest⟩ := Option.bind_eq_some_iff.1 hrun
      refine ih (hkept.step hfirst) (h.step hkept hfirst (hsucceed e List.mem_cons_self)) hrest ?_
      exact fun e' he' => hsucceed e' (List.mem_cons_of_mem _ he')

/-- A cluster without resources and without managed secrets. -/
theorem kept_start {settings : ManagerSettings} {max : Int}
    {listing : Except Error (List Secret)} {shelf : Snapshot Secret}
    (hnone : ∀ o ∈ shelf.objects, o.metadata.isManagedBy settings.controllerName = false) :
    (start settings max listing shelf).Kept where
  sound := Floor.sound_start settings max listing shelf
  named := Floor.within_start fun k o ho hmanaged => by
    rw [hnone o (Snapshot.mem_objects.2 ⟨k, ho⟩)] at hmanaged
    cases hmanaged
  keyed := by
    intro k
    rw [start, PerKind.get_ofFn]
    exact Snapshot.Keyed.empty

theorem attends_start {settings : ManagerSettings} {max : Int}
    {listing : Except Error (List Secret)} {shelf : Snapshot Secret}
    (hnone : ∀ o ∈ shelf.objects, o.metadata.isManagedBy settings.controllerName = false)
    (s : SecretRef) : (start settings max listing shelf).Attends s where
  written := fun h => by cases h
  attended := by
    rintro ⟨o, ho, hmanaged⟩
    obtain ⟨q, -, -, -, heq⟩ := Floor.restored_eq settings max listing
    change o.metadata.isManagedBy
      (Floor.restored settings max listing).settings.controllerName = true at hmanaged
    rw [heq, hnone o (Snapshot.mem_objects.2 ⟨s.place, ho⟩)] at hmanaged
    cases hmanaged

theorem not_expects_of_quiet {w : World} (h : w.IsQuiet) (s : SecretRef) : ¬ w.Expects s := by
  rintro ⟨k, hk⟩
  rw [h.2 k] at hk
  rcases hk with ⟨c, hc, -⟩ | hcovers
  · cases hc
  · cases hcovers

/-- A cluster that starts without managed secrets, in which no call of the store fails and which
has become quiet: a secret that no opted-in resource points at is managed, and so an orphan,
exactly if a worker has written it after the controller looked at it for the last time, and it
has not been deleted since. -/
theorem orphaned_iff {settings : ManagerSettings} {max : Int}
    {listing : Except Error (List Secret)} {shelf : Snapshot Secret} {es : List WorldEvent}
    {w : World} {s : SecretRef}
    (hnone : ∀ o ∈ shelf.objects, o.metadata.isManagedBy settings.controllerName = false)
    (hrun : (start settings max listing shelf).run? es = some w)
    (hsucceed : ∀ e ∈ es, e.succeeds = true) (hquiet : w.IsQuiet) (hunused : ¬ w.PointsAt s) :
    w.Manages s ↔ lastConcern s w.floor.journal = some (.wrote s) := by
  have hattends : w.Attends s :=
    attends_run? (kept_start hnone) (attends_start hnone s) hrun hsucceed
  constructor
  · intro hs
    rcases hattends.attended hs with hwrote | hpoints | hexpects
    · exact hwrote
    · exact absurd hpoints hunused
    · exact absurd hexpects (not_expects_of_quiet hquiet s)
  · exact hattends.written

/-- The route is deleted while the worker waits for the certificate. The controller looks at the
secret and finds none; then the certificate is issued and stored. -/
def deletedBeforeIssued : List WorldEvent :=
  [.put .route (routeFor "1" "a.com"), .handle .route,
    .work (.take 0), .work (.serve 0 .done), .work (.resume 0),
    .drop .route ⟨some "default", "web"⟩, .handle .route, .look .route,
    .work (.order 0 (.ok anyCertificate)), .work (.serve 0 .done), .work (.resume 0)]

theorem deletedBeforeIssued_runs :
    ∃ w, alone.run? deletedBeforeIssued = some w ∧ w.IsQuiet ∧ ¬ w.PointsAt sharedSecret ∧
      lastConcern sharedSecret w.floor.journal = some (.wrote sharedSecret) ∧
      w.Manages sharedSecret := by
  refine ⟨_, rfl, ⟨⟨rfl, ?_, rfl, rfl⟩, ?_⟩, ?_, rfl, ⟨_, rfl, rfl⟩⟩
  · intro p hp
    cases List.mem_singleton.1 hp
    rfl
  · intro k
    cases k with
    | _ => rfl
  · rw [← isReferenced_iff, Bool.not_eq_true]
    rfl

theorem orphaned_iff_deletedBeforeIssued :
    ∃ w, alone.run? deletedBeforeIssued = some w ∧ ¬ w.PointsAt sharedSecret ∧
      w.Manages sharedSecret := by
  obtain ⟨w, hrun, hquiet, hunused, hlast, -⟩ := deletedBeforeIssued_runs
  have hnone : ∀ o ∈ (Snapshot.empty : Snapshot Secret).objects, o.metadata.isManagedBy
      Wire.defaultControllerName = false := fun o ho => by cases ho
  exact ⟨w, hrun, hunused,
    (orphaned_iff hnone hrun (List.all_eq_true.1 rfl) hquiet hunused).2 hlast⟩

/-- It is not true that every managed secret is pointed at when the cluster has become quiet. -/
theorem orphans_can_stay :
    ¬ ∀ (settings : ManagerSettings) (max : Int) (listing : Except Error (List Secret))
      (shelf : Snapshot Secret) (es : List WorldEvent) (w : World),
      (∀ o ∈ shelf.objects, o.metadata.isManagedBy settings.controllerName = false) →
      (start settings max listing shelf).run? es = some w → (∀ e ∈ es, e.succeeds = true) →
      w.IsQuiet → ∀ s, w.Manages s → w.PointsAt s := by
  intro hall
  obtain ⟨w, hrun, hquiet, hunused, -, hmanages⟩ := deletedBeforeIssued_runs
  refine hunused (hall _ _ _ _ deletedBeforeIssued w ?_ hrun ?_ hquiet sharedSecret hmanages)
  · intro o ho
    cases ho
  · exact List.all_eq_true.1 rfl

end World

end IngressTls
