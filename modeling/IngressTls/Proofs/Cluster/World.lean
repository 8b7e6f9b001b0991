import IngressTls.Proofs.Manager.Recall
import IngressTls.Proofs.Manager.Turns
import IngressTls.Watch.Cache
import IngressTls.Watch.Kind

set_option autoImplicit false

/-! # The controller and the manager at work

A `World` is the floor of the manager together with the controller that puts demand to it. The
controller sees the cluster exactly as it is: its cache holds the objects of every kind and the
secrets of the floor. What changes waits in the lane of its kind, and each lane handles one
change after the other. A change asks for certificates at once; the secrets that it gives up are
then looked at one by one, and whoever calls for a deletion waits for the answer and releases the
secret only then. Meanwhile the other lanes, the workers and the renewal scan go on.

A secret that is gone, for whatever reason, is a change in the lane of the secrets.

Every step of the world is a run of its floor, so that what holds for all runs of the floor holds
for all runs of the world.

Main statements: `turn_of_step?`, `worldly_run?` and `floor_run?`.
-/

namespace IngressTls

/-- What a lane is doing. -/
inductive Errand where
  /-- It is to look at secrets that were given up; without any it can handle a change. -/
  | looking (names : List SecretRef)
  /-- It has called for the deletion of a secret and is to look at others afterwards. -/
  | deleting (secret : SecretRef) (answer : Option (Except Error Unit)) (rest : List SecretRef)

/-- Where the controller stands with a kind. -/
structure Lane where
  /-- The changes that have not been handled, in order. -/
  changes : List KindChange
  /-- What it is doing. -/
  errand : Errand

/-- The controller and the manager at work. -/
structure World where
  /-- The manager at work, with the secrets. -/
  floor : Floor
  /-- The objects of the other kinds. -/
  kinds : Snapshots
  /-- Where the controller stands with each kind. -/
  lanes : PerKind fun _ => Lane

/-- What happens next. -/
inductive WorldEvent where
  /-- Something happens inside the manager. -/
  | work (event : FloorEvent)
  /-- An object is written. -/
  | put (kind : Kind) (object : kind.Object)
  /-- The object under a key is deleted. -/
  | drop (kind : Kind) (key : ObjectKey)
  /-- A secret is deleted by somebody else. -/
  | lose (secret : SecretRef)
  /-- A change is handled. -/
  | handle (kind : Kind)
  /-- A secret that was given up is looked at. -/
  | look (kind : Kind)
  /-- The call for a deletion is served. -/
  | serve (kind : Kind) (service : Service)
  /-- The answer to the call for a deletion arrives. -/
  | resume (kind : Kind)

namespace Controller

/-! ## What a change asks for -/

theorem requests_reconcile {sync : List Request} {change : Change SecuredView} {r : Request}
    (h : r ∈ (reconcile sync change).requests) : r ∈ sync := by
  cases change with
  | added v => exact h
  | deleted v => cases h
  | updated old new =>
      rw [reconcile] at h
      split at h
      · cases h
      · exact h

/-- What a change asks for is asked for by the object that is there now. -/
theorem exists_mem_sync {α : Type} {sync : α → List Request} {current : Option α} {r : Request}
    (h : r ∈ (current.map sync).getD []) : ∃ o, r ∈ sync o := by
  cases current with
  | none => cases h
  | some o => exact ⟨o, h⟩

theorem request?_of_onIngress {c : Controller} {change : Change IngressView} {r : Request}
    (h : r ∈ (c.onIngress change).requests) : ∃ ns b, c.request? ns b = some r := by
  obtain ⟨v, hv⟩ := exists_mem_sync (requests_reconcile h)
  rw [syncIngress] at hv
  split at hv
  · obtain ⟨b, -, hb⟩ := List.mem_filterMap.1 hv
    exact ⟨v.info.ns, b, hb⟩
  · cases hv

theorem request?_of_onRoute {c : Controller} {change : Change RouteView} {r : Request}
    (h : r ∈ (c.onRoute change).requests) : ∃ ns b, c.request? ns b = some r := by
  obtain ⟨v, hv⟩ := exists_mem_sync (requests_reconcile h)
  rw [syncRoute] at hv
  split at hv
  · obtain ⟨b, -, hb⟩ := List.mem_filterMap.1 hv
    exact ⟨v.info.ns, b, hb⟩
  · cases hv

/-- Whatever changes, certificates are only asked for by TLS blocks. -/
theorem request?_of_react {c : Controller} {change : KindChange} {r : Request}
    (h : r ∈ (c.react change).requests) : ∃ ns b, c.request? ns b = some r := by
  obtain ⟨k, change⟩ := change
  cases k with
  | ingress => exact request?_of_onIngress h
  | legacyIngress => exact request?_of_onIngress h
  | route => exact request?_of_onRoute h
  | platformClass => cases h
  | ingressClass => cases h
  | legacyClass => cases h
  | secret =>
      cases change with
      | added s => cases h
      | updated old new => cases h
      | deleted s =>
          obtain ⟨b, -, hb⟩ := List.mem_filterMap.1 h
          exact ⟨_, b, hb⟩

/-- A request is for a secret with a name. -/
theorem named_of_react {c : Controller} {change : KindChange} {r : Request}
    (h : r ∈ (c.react change).requests) : r.target.name ≠ "" := by
  obtain ⟨ns, b, hb⟩ := request?_of_react h
  rw [request?] at hb
  split at hb
  · next hactionable =>
      cases (Option.ite_none_right_eq_some.1 hb).2
      rw [TlsBlock.isActionable, Bool.and_eq_true, decide_eq_true_iff] at hactionable
      exact hactionable.2
  · cases hb

end Controller

/-- Whether an event of the floor needs nobody from outside. -/
def FloorEvent.isInner : FloorEvent → Bool
  | take _ | serve _ _ | resume _ | order _ _ | ring _ | list | renew _ | stop => true
  | obtain _ | release _ | look _ | remove _ | put _ => false

/-- Whether no call of the store that is served fails, of a worker or of the controller. -/
def WorldEvent.succeeds : WorldEvent → Bool
  | work (.serve _ .done) | serve _ .done => true
  | work (.serve _ _) | serve _ _ => false
  | _ => true

/-- Whether a deed happens inside the manager. -/
def Deed.isInner : Deed → Bool
  | renewed _ | wrote _ | withdrew _ | failed _ => true
  | asked _ | released _ | looked _ | removed _ | placed _ => false

namespace World

/-- The lane of a kind. -/
def lane (w : World) (k : Kind) : Lane := w.lanes.get k

/-- A lane goes on with something else. -/
def setErrand (w : World) (k : Kind) (e : Errand) : World :=
  { w with lanes := w.lanes.set k ⟨(w.lane k).changes, e⟩ }

/-- Changes wait in a lane. -/
def enqueue (w : World) (k : Kind) (cs : List KindChange) : World :=
  { w with lanes := w.lanes.set k ⟨(w.lane k).changes ++ cs, (w.lane k).errand⟩ }

/-- The cluster as the controller sees it. -/
def cache (w : World) : ClusterCache := Snapshots.cache { w.kinds with secret := w.floor.shelf }

/-- The controller. -/
def controller (w : World) : Controller := ⟨w.floor.manager.settings.controllerName, w.cache⟩

/-- The secrets that are gone in a later state of the floor. -/
def vanished (f g : Floor) : List KindChange :=
  (f.shelf.objects.filter fun s => (g.shelf.lookup s.metadata.key).isNone).map fun s =>
    ⟨.secret, .deleted s⟩

/-- The floor has changed. -/
def withFloor (w : World) (g : Floor) : World :=
  ({ w with floor := g } : World).enqueue .secret (vanished w.floor g)

/-- The floor with a certificate asked for. -/
def ask (f : Floor) (r : Request) : Floor := (f.setManager (f.manager.obtain r)).note (.asked r)

/-- Whether a written object is a new version of the one that is known. -/
def isNews (w : World) (k : Kind) (o : k.Object) : Bool :=
  ((w.kinds.get k).find? (k.metadata o).key).all fun old =>
    (k.metadata old).resourceVersion.isNone ||
      (k.metadata old).resourceVersion ≠ (k.metadata o).resourceVersion

/-- An object is written. -/
def put (w : World) (k : Kind) (o : k.Object) : World :=
  let store := w.kinds.get k
  let key := fun o : k.Object => (k.metadata o).key
  ({ w with kinds := w.kinds.set k (store.insert (key o) o) } : World).enqueue k
    [⟨k, KindWatch.changeOf store key o⟩]

/-- An object is deleted. -/
def drop (w : World) (k : Kind) (key : ObjectKey) (o : k.Object) : World :=
  ({ w with kinds := w.kinds.set k ((w.kinds.get k).erase key) } : World).enqueue k
    [⟨k, .deleted o⟩]

/-- A change is handled: its certificates are asked for, and what it gives up is to be looked
at. -/
def handle (w : World) (k : Kind) (c : KindChange) (rest : List KindChange) : World :=
  let reaction := w.controller.react c
  { w with
    floor := reaction.requests.foldl ask w.floor
    lanes := w.lanes.set k ⟨rest, .looking reaction.givenUp⟩ }

/-- A secret that was given up is looked at. -/
def look (w : World) (k : Kind) (s : SecretRef) (rest : List SecretRef) : World :=
  ({ w with floor := w.floor.note (.looked s) } : World).setErrand k
    (if w.controller.reclaims s then .deleting s none rest else .looking rest)

/-- The call for a deletion is served. -/
def serve (w : World) (k : Kind) (s : SecretRef) (rest : List SecretRef) (service : Service) :
    World :=
  (if service.takesEffect then w.withFloor ((w.floor.erase s).note (.removed s)) else w).setErrand k
    (.deleting s (some (service.answer ())) rest)

/-- The answer to the call for a deletion arrives: the secret is released if it was deleted. -/
def resume (w : World) (k : Kind) (s : SecretRef) (a : Except Error Unit)
    (rest : List SecretRef) : World :=
  match a with
  | .ok _ =>
    ({ w with
      floor := (w.floor.setManager (w.floor.manager.release s)).note (.released s) } :
      World).setErrand k (.looking rest)
  | .error _ => w.setErrand k (.looking rest)

/-- What an event does, if it can happen. -/
def step? (w : World) : WorldEvent → Option World
  | .work e => if e.isInner then (w.floor.step? e).map w.withFloor else none
  | .put k o =>
    if k ≠ .secret ∧ (k.metadata o).name.isSome ∧ w.isNews k o then some (w.put k o) else none
  | .drop k key => if k = .secret then none else ((w.kinds.get k).lookup key).map (w.drop k key)
  | .lose s => some (w.withFloor ((w.floor.erase s).note (.removed s)))
  | .handle k =>
    match w.lane k with
    | ⟨c :: rest, .looking []⟩ => some (w.handle k c rest)
    | _ => none
  | .look k =>
    match (w.lane k).errand with
    | .looking (s :: rest) => some (w.look k s rest)
    | _ => none
  | .serve k service =>
    match (w.lane k).errand with
    | .deleting s none rest => some (w.serve k s rest service)
    | _ => none
  | .resume k =>
    match (w.lane k).errand with
    | .deleting s (some a) rest => some (w.resume k s a rest)
    | _ => none

/-- Events happen one after the other. -/
def run? (w : World) : List WorldEvent → Option World
  | [] => some w
  | e :: es => (w.step? e).bind fun w' => w'.run? es

/-- A cluster without resources, where the manager has just started. -/
def start (settings : ManagerSettings) (max : Int) (listing : Except Error (List Secret))
    (shelf : Snapshot Secret) : World where
  floor := Floor.start settings max listing shelf
  kinds := .ofFn fun _ => .empty
  lanes := .ofFn fun _ => ⟨[], .looking []⟩

/-- Nothing is queued, in flight or scheduled, and every change has been handled. -/
def IsQuiet (w : World) : Prop :=
  w.floor.IsQuiet ∧ ∀ k, w.lane k = ⟨[], .looking []⟩

theorem run?_cons (w : World) (e : WorldEvent) (es : List WorldEvent) :
    w.run? (e :: es) = (w.step? e).bind fun w' => w'.run? es := rfl

/-! ## Lanes -/

theorem lane_set_self (w : World) (k : Kind) (l : Lane) :
    ({ w with lanes := w.lanes.set k l } : World).lane k = l :=
  PerKind.get_set_self _ _ _

theorem lane_set_ne (w : World) {k j : Kind} (l : Lane) (h : j ≠ k) :
    ({ w with lanes := w.lanes.set k l } : World).lane j = w.lane j :=
  PerKind.get_set_ne _ _ h

theorem errand_enqueue (w : World) (k : Kind) (cs : List KindChange) (j : Kind) :
    ((w.enqueue k cs).lane j).errand = (w.lane j).errand := by
  by_cases h : j = k
  · subst h
    rw [enqueue, lane_set_self]
  · rw [enqueue, lane_set_ne w _ h]

theorem mem_changes_enqueue {w : World} {k : Kind} {cs : List KindChange} {j : Kind}
    {c : KindChange} :
    c ∈ ((w.enqueue k cs).lane j).changes ↔ c ∈ (w.lane j).changes ∨ j = k ∧ c ∈ cs := by
  by_cases h : j = k
  · subst h
    rw [enqueue, lane_set_self]
    simp
  · rw [enqueue, lane_set_ne w _ h]
    simp [h]

theorem changes_setErrand (w : World) (k : Kind) (e : Errand) (j : Kind) :
    ((w.setErrand k e).lane j).changes = (w.lane j).changes := by
  by_cases h : j = k
  · subst h
    rw [setErrand, lane_set_self]
  · rw [setErrand, lane_set_ne w _ h]

theorem errand_setErrand (w : World) (k : Kind) (e : Errand) (j : Kind) :
    ((w.setErrand k e).lane j).errand = if j = k then e else (w.lane j).errand := by
  split
  · next h =>
      subst h
      rw [setErrand, lane_set_self]
  · next h => rw [setErrand, lane_set_ne w _ h]

/-! ## All that an event can do -/

/-- What an event does to the world. -/
inductive Turn (w : World) : WorldEvent → World → Prop where
  | worked {e : FloorEvent} {g : Floor} (inner : e.isInner = true)
      (step : w.floor.step? e = some g) : Turn w (.work e) (w.withFloor g)
  | put {k : Kind} {o : k.Object} (other : k ≠ .secret) (news : w.isNews k o = true) :
      Turn w (.put k o) (w.put k o)
  | dropped {k : Kind} {key : ObjectKey} {o : k.Object} (other : k ≠ .secret)
      (known : (w.kinds.get k).lookup key = some o) : Turn w (.drop k key) (w.drop k key o)
  | lost (s : SecretRef) : Turn w (.lose s) (w.withFloor ((w.floor.erase s).note (.removed s)))
  | handled {k : Kind} {c : KindChange} {rest : List KindChange}
      (waiting : w.lane k = ⟨c :: rest, .looking []⟩) : Turn w (.handle k) (w.handle k c rest)
  | looked {k : Kind} {s : SecretRef} {rest : List SecretRef}
      (looking : (w.lane k).errand = .looking (s :: rest)) : Turn w (.look k) (w.look k s rest)
  | served {k : Kind} {s : SecretRef} {rest : List SecretRef} (service : Service)
      (deleting : (w.lane k).errand = .deleting s none rest) :
      Turn w (.serve k service) (w.serve k s rest service)
  | resumed {k : Kind} {s : SecretRef} {a : Except Error Unit} {rest : List SecretRef}
      (deleting : (w.lane k).errand = .deleting s (some a) rest) :
      Turn w (.resume k) (w.resume k s a rest)

/-- Every step is one of the turns. -/
theorem turn_of_step? {w w' : World} {e : WorldEvent} (h : w.step? e = some w') : Turn w e w' := by
  cases e with
  | work e =>
      rw [step?] at h
      split at h
      · next hinner =>
          obtain ⟨g, hg, rfl⟩ := Option.map_eq_some_iff.1 h
          exact .worked hinner hg
      · cases h
  | put k o =>
      rw [step?] at h
      split at h
      · next hguard =>
          cases h
          exact .put hguard.1 hguard.2.2
      · cases h
  | drop k key =>
      rw [step?] at h
      split at h
      · cases h
      · next hother =>
          obtain ⟨o, ho, rfl⟩ := Option.map_eq_some_iff.1 h
          exact .dropped hother ho
  | lose s =>
      cases h
      exact .lost s
  | handle k =>
      rw [step?] at h
      split at h
      · next c rest hlane =>
          cases h
          exact .handled hlane
      · cases h
  | look k =>
      rw [step?] at h
      split at h
      · next s rest herrand =>
          cases h
          exact .looked herrand
      · cases h
  | serve k service =>
      rw [step?] at h
      split at h
      · next s rest herrand =>
          cases h
          exact .served service herrand
      · cases h
  | resume k =>
      rw [step?] at h
      split at h
      · next s a rest herrand =>
          cases h
          exact .resumed herrand
      · cases h

/-! ## What is noted -/

theorem inner_notes (s : SecretRef) (service : Service) :
    ∀ x ∈ service.notes s, x.isInner = true := by
  intro x hx
  cases service with
  | done => cases hx
  | refused e => cases List.mem_singleton.1 hx; rfl
  | lost e => cases List.mem_singleton.1 hx; rfl

theorem journal_serve {f g : Floor} {i : Nat} {service : Service}
    (h : f.serve? i service = some g) :
    ∃ s d, g.journal = service.notes s ++ (d ++ f.journal) ∧ ∀ x ∈ d, x.isInner = true := by
  rw [Floor.serve?] at h
  split at h
  · next r hpost =>
      cases h
      exact ⟨r.target, [], rfl, fun x hx => by cases hx⟩
  · next r s hpost =>
      cases h
      split
      · exact ⟨r.target, [.wrote r.target], rfl, fun x hx => by cases List.mem_singleton.1 hx; rfl⟩
      · exact ⟨r.target, [], rfl, fun x hx => by cases hx⟩
  · next r hpost =>
      cases h
      split
      · exact ⟨r.target, [.withdrew r.target], rfl,
          fun x hx => by cases List.mem_singleton.1 hx; rfl⟩
      · exact ⟨r.target, [], rfl, fun x hx => by cases hx⟩
  · cases h

/-- Nothing is noted that does not happen inside the manager. -/
theorem inner_deeds {f g : Floor} {e : FloorEvent} {d : List Deed} (h : f.step? e = some g)
    (hinner : e.isInner = true) (hd : g.journal = d ++ f.journal) :
    ∀ x ∈ d, x.isInner = true := by
  have hd' : ∀ {d'}, g.journal = d' ++ f.journal → d = d' := fun heq =>
    (List.append_left_inj f.journal).1 (hd.symm.trans heq)
  have hsame : g.journal = f.journal → ∀ x ∈ d, x.isInner = true := by
    intro heq x hx
    have hnone : d = [] := hd' heq
    rw [hnone] at hx
    cases hx
  -- only a call that is served and a renewal are noted; the other events leave the journal
  cases e with
  | take i =>
      rw [Floor.step?] at h
      split at h
      · split at h
        · cases h
        · cases h
          exact hsame (Floor.journal_begin f i)
      · cases h
  | serve i service =>
      obtain ⟨s, d', heq, hinner'⟩ := journal_serve h
      rw [hd' (heq.trans (List.append_assoc _ _ _).symm)]
      intro x hx
      rcases List.mem_append.1 hx with hx | hx
      · exact inner_notes s service x hx
      · exact hinner' x hx
  | resume i =>
      rw [Floor.step?, Floor.resume?] at h
      split at h
      · cases h
        exact hsame (Floor.journal_advance _ _ _ _)
      · cases h
        exact hsame (Floor.journal_advance _ _ _ _)
      · cases h
        exact hsame (Floor.journal_advance _ _ _ _)
      · cases h
  | order i a =>
      rw [Floor.step?] at h
      split at h
      · cases h
        exact hsame (Floor.journal_advance _ _ _ _)
      · cases h
  | ring place =>
      rw [Floor.step?] at h
      obtain ⟨k, hk, rfl⟩ := Option.map_eq_some_iff.1 h
      exact hsame rfl
  | list =>
      rw [Floor.step?] at h
      split at h
      · cases h
        exact hsame rfl
      · cases h
  | renew now =>
      rw [Floor.step?] at h
      split at h
      · cases h
        rw [hd' rfl]
        intro x hx
        obtain ⟨b, -, rfl⟩ := List.mem_map.1 (List.mem_reverse.1 hx)
        rfl
      · cases h
  | stop =>
      cases h
      exact hsame rfl
  | obtain r => cases hinner
  | release s => cases hinner
  | look s => cases hinner
  | remove s => cases hinner
  | put s => cases hinner

/-- What can be noted in the world: nobody writes secrets from outside, and certificates are asked
for secrets with names. -/
def Worldly : Deed → Prop
  | .asked r => r.target.name ≠ ""
  | .placed _ => False
  | _ => True

theorem journal_asks (f : Floor) (rs : List Request) :
    (rs.foldl ask f).journal = (rs.map Deed.asked).reverse ++ f.journal := by
  induction rs generalizing f with
  | nil => rfl
  | cons r rs ih =>
      rw [List.foldl_cons, ih, List.map_cons, List.reverse_cons, List.append_assoc]
      rfl

/-- Asking changes neither the secrets nor the settings. -/
theorem asks_unchanged (f : Floor) (rs : List Request) :
    (rs.foldl ask f).shelf = f.shelf ∧
      (rs.foldl ask f).manager.settings = f.manager.settings := by
  induction rs generalizing f with
  | nil => exact ⟨rfl, rfl⟩
  | cons r rs ih => exact ih (ask f r)

theorem worldly_turn {w w' : World} {e : WorldEvent} (h : Turn w e w') :
    ∃ d, w'.floor.journal = d ++ w.floor.journal ∧ ∀ x ∈ d, Worldly x := by
  cases h with
  | @worked e g inner step =>
      obtain ⟨d, hd⟩ := Floor.journal_move (Floor.move_of_step? step)
      refine ⟨d, hd, fun x hx => ?_⟩
      -- the manager on its own neither demands nor places anything from outside
      have hinner := inner_deeds step inner hd x hx
      cases x with
      | asked r => cases hinner
      | placed s => cases hinner
      | _ => trivial
  | put other news => exact ⟨[], rfl, fun x hx => by cases hx⟩
  | dropped other known => exact ⟨[], rfl, fun x hx => by cases hx⟩
  | lost s => exact ⟨[.removed s], rfl, fun x hx => by cases List.mem_singleton.1 hx; trivial⟩
  | @handled k c rest waiting =>
      refine ⟨_, journal_asks w.floor (w.controller.react c).requests, fun x hx => ?_⟩
      obtain ⟨r, hr, rfl⟩ := List.mem_map.1 (List.mem_reverse.1 hx)
      exact Controller.named_of_react hr
  | @looked k s rest looking =>
      exact ⟨[.looked s], rfl, fun x hx => by cases List.mem_singleton.1 hx; trivial⟩
  | @served k s rest service deleting =>
      rw [serve]
      split
      · exact ⟨[.removed s], rfl, fun x hx => by cases List.mem_singleton.1 hx; trivial⟩
      · exact ⟨[], rfl, fun x hx => by cases hx⟩
  | @resumed k s a rest deleting =>
      cases a with
      | ok _ => exact ⟨[.released s], rfl, fun x hx => by cases List.mem_singleton.1 hx; trivial⟩
      | error e => exact ⟨[], rfl, fun x hx => by cases hx⟩

theorem worldly_run? {w w' : World} {es : List WorldEvent} (h : w.run? es = some w') :
    ∃ d, w'.floor.journal = d ++ w.floor.journal ∧ ∀ x ∈ d, Worldly x := by
  induction es generalizing w with
  | nil =>
      cases h
      exact ⟨[], rfl, fun x hx => by cases hx⟩
  | cons e es ih =>
      rw [run?_cons] at h
      obtain ⟨w₁, hfirst, hrest⟩ := Option.bind_eq_some_iff.1 h
      obtain ⟨d₁, h₁, hw₁⟩ := worldly_turn (turn_of_step? hfirst)
      obtain ⟨d₂, h₂, hw₂⟩ := ih hrest
      refine ⟨d₂ ++ d₁, by rw [h₂, h₁, List.append_assoc], fun x hx => ?_⟩
      rcases List.mem_append.1 hx with hx | hx
      · exact hw₂ x hx
      · exact hw₁ x hx

/-! ## The floor of the world -/

theorem floor_asks (f : Floor) (rs : List Request) :
    f.run? (rs.map .obtain) = some (rs.foldl ask f) := by
  induction rs generalizing f with
  | nil => rfl
  | cons r rs ih => exact ih (ask f r)

/-- What happens in the world is a run of its floor. -/
theorem floor_step? {w w' : World} {e : WorldEvent} (h : w.step? e = some w') :
    ∃ es, w.floor.run? es = some w'.floor := by
  -- to the floor the controller is somebody outside who asks, looks, deletes and releases
  cases turn_of_step? h with
  | @worked e g inner step => exact ⟨[e], by rw [Floor.run?_cons, step]; rfl⟩
  | put other news => exact ⟨[], rfl⟩
  | dropped other known => exact ⟨[], rfl⟩
  | lost s => exact ⟨[.remove s], rfl⟩
  | @handled k c rest waiting => exact ⟨_, floor_asks w.floor (w.controller.react c).requests⟩
  | @looked k s rest looking => exact ⟨[.look s], rfl⟩
  | @served k s rest service deleting =>
      rw [serve]
      split
      · exact ⟨[.remove s], rfl⟩
      · exact ⟨[], rfl⟩
  | @resumed k s a rest deleting =>
      cases a with
      | ok _ => exact ⟨[.release s], rfl⟩
      | error e => exact ⟨[], rfl⟩

theorem floor_run? {w w' : World} {es : List WorldEvent} (h : w.run? es = some w') :
    ∃ fs, w.floor.run? fs = some w'.floor := by
  induction es generalizing w with
  | nil =>
      cases h
      exact ⟨[], rfl⟩
  | cons e es ih =>
      rw [run?_cons] at h
      obtain ⟨w₁, hfirst, hrest⟩ := Option.bind_eq_some_iff.1 h
      obtain ⟨fs₁, h₁⟩ := floor_step? hfirst
      obtain ⟨fs₂, h₂⟩ := ih hrest
      exact ⟨fs₁ ++ fs₂, by rw [Floor.run?_append, h₁]; exact h₂⟩

/-! ## A small cluster -/

/-- A secret that a route names. -/
def sharedSecret : SecretRef := ⟨"default", "shared"⟩

/-- An opted-in route that names it for a host. -/
def routeFor (version host : String) : IngressRoute where
  metadata := { Metadata.empty with
    name := some "web"
    ns := some "default"
    resourceVersion := some version
    annotations := some (Table.ofList [(Wire.enableKey, "true")]) }
  spec := ⟨[], [], some ⟨some sharedSecret.name, [⟨host, []⟩]⟩⟩

/-- A certificate. -/
def anyCertificate : Certificate := ⟨[], [], [], default, default⟩

/-- A manager with one worker in a cluster without secrets. -/
def alone : World := start { ManagerSettings.standard with workers := 1 } 5 (.ok []) .empty

end World

end IngressTls
