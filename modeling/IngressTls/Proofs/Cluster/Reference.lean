import IngressTls.Proofs.Cluster.World
import IngressTls.Proofs.Snapshot

set_option autoImplicit false

/-! # Who points at a secret

A secret is pointed at by every opted-in resource of its namespace with a TLS block that names
it. What the controller looks up about it says the same (`isReferenced_iff`).

When the last resource stops to point at a secret, by its deletion or with a new version, the
change gives the secret up: whoever handles it looks at the secret.

Main statements: `isReferenced_iff`, `drops_of_put` and `drops_of_drop`.
-/

namespace IngressTls

/-- An object as a resource that names secrets; objects of other kinds name none. -/
def Kind.secured : (k : Kind) → k.Object → SecuredView
  | ingress, o => (IngressView.ofIngress o).secured
  | legacyIngress, o => (IngressView.ofLegacy o).secured
  | route, o => (RouteView.ofRoute o).secured
  | platformClass, o => ⟨.ofMetadata (platformClass.metadata o), []⟩
  | ingressClass, o => ⟨.ofMetadata (ingressClass.metadata o), []⟩
  | legacyClass, o => ⟨.ofMetadata (legacyClass.metadata o), []⟩
  | secret, o => ⟨.ofMetadata (secret.metadata o), []⟩

theorem Kind.secured_info (k : Kind) (o : k.Object) :
    (k.secured o).info = .ofMetadata (k.metadata o) := by
  cases k with
  | _ => rfl

/-- A resource has opted in and one of its TLS blocks names a secret. -/
def SecuredView.Names (v : SecuredView) (name : String) : Prop :=
  v.info.isOptedIn = true ∧ ∃ b ∈ v.blocks, b.secretName = name

theorem SecuredView.blocksFor_isEmpty {v : SecuredView} {name : String} :
    (v.blocksFor name).isEmpty = false ↔ ∃ b ∈ v.blocks, b.secretName = name := by
  rw [blocksFor, List.isEmpty_eq_false_iff_exists_mem]
  simp

/-! ## What the controller looks up -/

/-- A controller owns the secret at a place. -/
def ClusterCache.Owned (c : ClusterCache) (name : String) (s : SecretRef) : Prop :=
  ∃ v, c.secret s = some v ∧ v.isManagedBy name = true

/-- An opted-in resource of its namespace names a secret. -/
def ClusterCache.Refers (c : ClusterCache) (s : SecretRef) : Prop :=
  (∃ v ∈ c.ingresses s.ns, v.secured.Names s.name) ∨ ∃ v ∈ c.routes s.ns, v.secured.Names s.name

theorem SecuredView.names_iff (v : SecuredView) (name : String) :
    (v.info.isOptedIn && !(v.blocksFor name).isEmpty) = true ↔ v.Names name := by
  rw [Bool.and_eq_true, Bool.not_eq_true', blocksFor_isEmpty]
  rfl

theorem ClusterCache.isReferenced_iff_refers (c : ClusterCache) (s : SecretRef) :
    c.isReferenced s = true ↔ c.Refers s := by
  rw [isReferenced, Bool.or_eq_true, List.any_eq_true, List.any_eq_true]
  simp only [SecuredView.names_iff]
  rfl

/-- The secrets to be deleted are the owned ones that nobody refers to. -/
theorem Controller.reclaims_iff (c : Controller) (s : SecretRef) :
    c.reclaims s = true ↔ c.cache.Owned c.name s ∧ ¬ c.cache.Refers s := by
  rw [reclaims, Bool.and_eq_true, Option.any_eq_true, Bool.not_eq_true', ← Bool.not_eq_true,
    ClusterCache.isReferenced_iff_refers]
  rfl

/-! ## Versions of a resource -/

/-- Two states of a resource have one and the same version in the store. -/
def SecuredView.SameVersion (v w : SecuredView) : Prop :=
  ∃ version, v.info.resourceVersion = some version ∧ w.info.resourceVersion = some version

/-- A TLS block names a secret, whether or not the resource has opted in. -/
def SecuredView.Lists (v : SecuredView) (name : String) : Prop :=
  name ≠ "" ∧ ∃ b ∈ v.blocks, b.secretName = name

theorem SecuredView.sameVersion_iff (v w : SecuredView) :
    (v.info.resourceVersion.isSome && v.info.resourceVersion = w.info.resourceVersion) = true ↔
      v.SameVersion w := by
  rw [Bool.and_eq_true, decide_eq_true_iff, Option.isSome_iff_exists]
  constructor
  · rintro ⟨⟨version, hv⟩, hw⟩
    exact ⟨version, hv, hw.symm.trans hv⟩
  · rintro ⟨version, hv, hw⟩
    exact ⟨⟨version, hv⟩, hv.trans hw.symm⟩

theorem SecuredView.mem_secretNames {v : SecuredView} {name : String} :
    name ∈ v.secretNames.toList ↔ v.Lists name := by
  show name ∈ v.secretNames ↔ _
  rw [secretNames, NameSet.mem_ofList, List.mem_filter, List.mem_map, decide_eq_true_iff]
  exact And.comm

/-- What a version keeps is what it names, if it has opted in. -/
theorem SecuredView.has_kept {v : SecuredView} {name : String} (hname : name ≠ "") :
    (if v.info.isOptedIn then v.secretNames else .empty).has name = true ↔ v.Names name := by
  rw [NameSet.has, List.contains_iff_mem]
  split
  · next hopted =>
      rw [mem_secretNames]
      exact ⟨fun h => ⟨hopted, h.2⟩, fun h => ⟨hname, h.2⟩⟩
  · next hopted => exact ⟨fun h => absurd h List.not_mem_nil, fun h => absurd h.1 hopted⟩

/-! ## What a change gives up -/

/-- A change of a resource gives up a secret. -/
def Change.GivesUp (s : SecretRef) : Change SecuredView → Prop
  | added _ => False
  | deleted v => v.info.ns = s.ns ∧ v.Lists s.name
  | updated old new =>
    ¬ old.SameVersion new ∧ new.info.ns = s.ns ∧ old.Lists s.name ∧ ¬ new.Names s.name

/-- A change of an object gives up a secret. -/
def KindChange.GivesUp (c : KindChange) (s : SecretRef) : Prop :=
  (c.change.map c.kind.secured).GivesUp s

namespace Controller

theorem mem_places {ns : String} {names : NameSet} {s : SecretRef} :
    s ∈ names.toList.map (fun n => (⟨ns, n⟩ : SecretRef)) ↔ ns = s.ns ∧ s.name ∈ names.toList := by
  rw [List.mem_map]
  constructor
  · rintro ⟨name, hname, rfl⟩
    exact ⟨rfl, hname⟩
  · rintro ⟨rfl, hname⟩
    exact ⟨s.name, hname, rfl⟩

/-- A change gives up what the old version named and a new one does not. -/
theorem mem_givenUp_reconcile {sync : List Request} {change : Change SecuredView} {s : SecretRef} :
    s ∈ (reconcile sync change).givenUp ↔ change.GivesUp s := by
  cases change with
  | added v => exact ⟨fun h => absurd h List.not_mem_nil, False.elim⟩
  | deleted v => exact mem_places.trans (and_congr_right' SecuredView.mem_secretNames)
  | updated old new =>
      rw [reconcile]
      split
      · next hsame =>
          rw [SecuredView.sameVersion_iff] at hsame
          exact ⟨fun h => absurd h List.not_mem_nil, fun h => absurd hsame h.1⟩
      · next hnews =>
          rw [SecuredView.sameVersion_iff] at hnews
          rw [mem_places, NameSet.without, List.mem_filter, SecuredView.mem_secretNames,
            Bool.not_eq_true', ← Bool.not_eq_true]
          -- what the old version listed has a name, so that the new one keeps it if it names it
          constructor
          · rintro ⟨hns, hold, hkept⟩
            exact ⟨hnews, hns, hold, fun h => hkept ((SecuredView.has_kept hold.1).2 h)⟩
          · rintro ⟨-, hns, hold, hnew⟩
            exact ⟨hns, hold, fun h => hnew ((SecuredView.has_kept hold.1).1 h)⟩

theorem map_map {α β γ : Type} (f : α → β) (g : β → γ) (change : Change α) :
    (change.map f).map g = change.map fun o => g (f o) := by
  cases change with
  | added o => rfl
  | updated old new => rfl
  | deleted o => rfl

theorem mem_givenUp_onIngress {α : Type} (view : α → IngressView) {c : Controller}
    {change : Change α} {s : SecretRef} : s ∈ (c.onIngress (change.map view)).givenUp ↔
      (change.map fun o => (view o).secured).GivesUp s := by
  rw [onIngress, mem_givenUp_reconcile, map_map]

theorem mem_givenUp_onRoute {α : Type} (view : α → RouteView) {c : Controller}
    {change : Change α} {s : SecretRef} : s ∈ (c.onRoute (change.map view)).givenUp ↔
      (change.map fun o => (view o).secured).GivesUp s := by
  rw [onRoute, mem_givenUp_reconcile, map_map]

/-- Nothing without blocks gives anything up. -/
theorem not_givesUp_of_blockless {α : Type} {view : α → SecuredView}
    (hview : ∀ o, (view o).blocks = []) {change : Change α} {s : SecretRef} :
    ¬ (change.map view).GivesUp s := by
  have hlists : ∀ o, ¬ (view o).Lists s.name := by
    rintro o ⟨-, b, hb, -⟩
    rw [hview] at hb
    cases hb
  cases change with
  | added o => exact id
  | updated old new => exact fun h => hlists old h.2.2.1
  | deleted o => exact fun h => hlists o h.2

/-- Whatever the controller can look up, what a change gives up is a matter of the change. -/
theorem mem_givenUp_react {c : Controller} {change : KindChange} {s : SecretRef} :
    s ∈ (c.react change).givenUp ↔ change.GivesUp s := by
  obtain ⟨k, change⟩ := change
  cases k with
  | ingress => exact mem_givenUp_onIngress IngressView.ofIngress
  | legacyIngress => exact mem_givenUp_onIngress IngressView.ofLegacy
  | route => exact mem_givenUp_onRoute RouteView.ofRoute
  | secret =>
      refine iff_of_false ?_ (not_givesUp_of_blockless fun _ => rfl)
      cases change with
      | _ => exact List.not_mem_nil
  | _ => exact iff_of_false List.not_mem_nil (not_givesUp_of_blockless fun _ => rfl)

end Controller

namespace World

/-- An opted-in resource of its namespace points at a secret. -/
def PointsAt (w : World) (s : SecretRef) : Prop :=
  ∃ k, ∃ o ∈ (w.kinds.get k).objects,
    (k.metadata o).ns = some s.ns ∧ (k.secured o).Names s.name

/-- The views of the objects of a kind that are in a namespace. -/
theorem mem_views {α : Type} {snapshots : Snapshots} {k : Kind} {ns : String} {view : k.Object → α}
    {v : α} : v ∈ (snapshots.inNamespace k ns).map view ↔
      ∃ o ∈ (snapshots.get k).objects, (k.metadata o).ns = some ns ∧ view o = v := by
  constructor
  · intro hv
    obtain ⟨o, ho, hview⟩ := List.mem_map.1 hv
    obtain ⟨ho, hns⟩ := List.mem_filter.1 ho
    exact ⟨o, ho, of_decide_eq_true hns, hview⟩
  · rintro ⟨o, ho, hns, hview⟩
    exact List.mem_map.2 ⟨o, List.mem_filter.2 ⟨ho, decide_eq_true hns⟩, hview⟩

/-- One of the objects of a kind points at a secret. -/
theorem exists_inNamespace {α : Type} (snapshots : Snapshots) (k : Kind) (s : SecretRef)
    (view : k.Object → α) (secured : α → SecuredView)
    (hview : ∀ o, secured (view o) = k.secured o) :
    (∃ v ∈ (snapshots.inNamespace k s.ns).map view, (secured v).Names s.name) ↔
    ∃ o ∈ (snapshots.get k).objects,
      (k.metadata o).ns = some s.ns ∧ (k.secured o).Names s.name := by
  constructor
  · rintro ⟨v, hv, hnames⟩
    obtain ⟨o, ho, hns, rfl⟩ := mem_views.1 hv
    rw [hview] at hnames
    exact ⟨o, ho, hns, hnames⟩
  · rintro ⟨o, ho, hns, hnames⟩
    refine ⟨view o, mem_views.2 ⟨o, ho, hns, rfl⟩, ?_⟩
    rw [hview]
    exact hnames

/-- The controller sees a resource that refers to a secret exactly if one points at it. -/
theorem refers_iff (w : World) (s : SecretRef) : w.cache.Refers s ↔ w.PointsAt s := by
  let snapshots : Snapshots := { w.kinds with secret := w.floor.shelf }
  have hingress := exists_inNamespace snapshots .ingress s IngressView.ofIngress
    IngressView.secured fun _ => rfl
  have hlegacy := exists_inNamespace snapshots .legacyIngress s IngressView.ofLegacy
    IngressView.secured fun _ => rfl
  have hroute := exists_inNamespace snapshots .route s RouteView.ofRoute RouteView.secured
    fun _ => rfl
  constructor
  · rintro (⟨v, hv, hnames⟩ | hv)
    · rcases List.mem_append.1 hv with hv | hv
      · exact ⟨.ingress, hingress.1 ⟨v, hv, hnames⟩⟩
      · exact ⟨.legacyIngress, hlegacy.1 ⟨v, hv, hnames⟩⟩
    · exact ⟨.route, hroute.1 hv⟩
  · rintro ⟨k, o, ho, hns, hv⟩
    cases k with
    | ingress =>
        obtain ⟨v, hv, hnames⟩ := hingress.2 ⟨o, ho, hns, hv⟩
        exact Or.inl ⟨v, List.mem_append_left _ hv, hnames⟩
    | legacyIngress =>
        obtain ⟨v, hv, hnames⟩ := hlegacy.2 ⟨o, ho, hns, hv⟩
        exact Or.inl ⟨v, List.mem_append_right _ hv, hnames⟩
    | route => exact Or.inr (hroute.2 ⟨o, ho, hns, hv⟩)
    | _ =>
        obtain ⟨-, b, hb, -⟩ := hv
        cases hb

/-- The controller finds a secret referenced exactly if a resource points at it. -/
theorem isReferenced_iff (w : World) (s : SecretRef) :
    w.cache.isReferenced s = true ↔ w.PointsAt s :=
  (w.cache.isReferenced_iff_refers s).trans (w.refers_iff s)

/-! ## The last resource that points at a secret -/

/-- Every object stands under its own key. -/
def Keyed (w : World) : Prop :=
  ∀ k, (w.kinds.get k).Keyed fun o => (k.metadata o).key

/-- Whoever handles a change looks at a secret. -/
def Drops (c : KindChange) (s : SecretRef) : Prop :=
  ∀ controller : Controller, s ∈ (controller.react c).givenUp

theorem Keyed.put {w : World} (h : w.Keyed) (k : Kind) (o : k.Object) : (w.put k o).Keyed := by
  intro j
  show ((w.kinds.set k _).get j).Keyed _
  by_cases hj : j = k
  · subst hj
    rw [PerKind.get_set_self]
    exact (h j).insert o
  · rw [PerKind.get_set_ne _ _ hj]
    exact h j

theorem Keyed.drop {w : World} (h : w.Keyed) (k : Kind) (key : ObjectKey) (o : k.Object) :
    (w.drop k key o).Keyed := by
  intro j
  show ((w.kinds.set k _).get j).Keyed _
  by_cases hj : j = k
  · subst hj
    rw [PerKind.get_set_self]
    exact (h j).erase key
  · rw [PerKind.get_set_ne _ _ hj]
    exact h j

/-- A resource that is no longer there stood under the key that has changed. -/
theorem lookup_of_not_mem {w : World} {k j : Kind} {store : Snapshot k.Object} {key : ObjectKey}
    {o : j.Object} (hkeyed : w.Keyed) (ho : o ∈ (w.kinds.get j).objects)
    (hkept : ∀ key', key' ≠ key → store.lookup key' = (w.kinds.get k).lookup key')
    (hgone : o ∉ ((w.kinds.set k store).get j).objects) :
    ∃ h : j = k, (w.kinds.get k).lookup key = some (h ▸ o) ∧ (j.metadata o).key = key := by
  by_cases hjk : j = k
  · subst hjk
    refine ⟨rfl, ?_⟩
    rw [PerKind.get_set_self] at hgone
    obtain ⟨key', hkey'⟩ := Snapshot.mem_objects.1 ho
    -- under any other key it would still be there
    by_cases hk : key' = key
    · subst hk
      exact ⟨hkey', hkeyed j key' o hkey'⟩
    · exact absurd (Snapshot.mem_objects.2 ⟨key', (hkept key' hk).trans hkey'⟩) hgone
  · rw [PerKind.get_set_ne _ _ hjk] at hgone
    exact absurd ho hgone

theorem drops_of_put {w : World} {k : Kind} {o : k.Object} {s : SecretRef} (hkeyed : w.Keyed)
    (hnews : w.isNews k o = true) (hname : s.name ≠ "") (hpoints : w.PointsAt s)
    (hlost : ¬ (w.put k o).PointsAt s) :
    Drops ⟨k, KindWatch.changeOf (w.kinds.get k) (fun o => (k.metadata o).key) o⟩ s := by
  obtain ⟨j, old, hold, hns, hopted, hnames⟩ := hpoints
  let key := (k.metadata o).key
  -- the resource that pointed at the secret has been replaced
  have hgone : old ∉ ((w.kinds.set k ((w.kinds.get k).insert key o)).get j).objects :=
    fun hmem => hlost ⟨j, old, hmem, hns, hopted, hnames⟩
  obtain ⟨rfl, hlookup, hkey⟩ := lookup_of_not_mem hkeyed hold (fun key' hk => by
    rw [Snapshot.lookup_insert, if_neg hk]) hgone
  have hknown : (w.kinds.get j).find? key = some old := by
    rw [Snapshot.find?, hlookup]
    rfl
  -- the new version stands in the same namespace and does not point at the secret
  have hns' : (j.metadata o).ns = some s.ns := by
    rw [← hns]
    exact (congrArg ObjectKey.ns hkey).symm
  have hnew : ¬ (j.secured o).Names s.name := by
    refine fun hnames' => hlost ⟨j, o, Snapshot.mem_objects.2 ⟨key, ?_⟩, hns', hnames'⟩
    show ((w.kinds.set j _).get j).lookup key = some o
    rw [PerKind.get_set_self, Snapshot.lookup_insert, if_pos rfl]
  have hversion : ¬ (j.secured old).SameVersion (j.secured o) := by
    rintro ⟨version, hv, hw⟩
    rw [Kind.secured_info] at hv hw
    change (j.metadata old).resourceVersion = some version at hv
    change (j.metadata o).resourceVersion = some version at hw
    rw [isNews, hknown, Option.all_some, hv, hw] at hnews
    simp at hnews
  rw [KindWatch.changeOf, hknown]
  refine fun c => Controller.mem_givenUp_react.2 ⟨hversion, ?_, ⟨hname, hnames⟩, hnew⟩
  rw [Kind.secured_info]
  exact congrArg (fun ns : Option String => ns.getD "") hns'

theorem drops_of_drop {w : World} {k : Kind} {key : ObjectKey} {o : k.Object} {s : SecretRef}
    (hkeyed : w.Keyed) (hknown : (w.kinds.get k).lookup key = some o) (hname : s.name ≠ "")
    (hpoints : w.PointsAt s) (hlost : ¬ (w.drop k key o).PointsAt s) : Drops ⟨k, .deleted o⟩ s := by
  obtain ⟨j, o', ho', hns, hopted, hnames⟩ := hpoints
  have hgone : o' ∉ ((w.kinds.set k ((w.kinds.get k).erase key)).get j).objects :=
    fun hmem => hlost ⟨j, o', hmem, hns, hopted, hnames⟩
  obtain ⟨rfl, hlookup, -⟩ := lookup_of_not_mem hkeyed ho' (fun key' hk => by
    rw [Snapshot.lookup_erase, if_neg hk]) hgone
  cases hknown.symm.trans hlookup
  refine fun c => Controller.mem_givenUp_react.2 ⟨?_, hname, hnames⟩
  rw [Kind.secured_info]
  exact congrArg (fun ns : Option String => ns.getD "") hns

end World

end IngressTls
