import IngressTls.Proofs.Cluster.Reference
import IngressTls.Proofs.Manager.Abandonment

set_option autoImplicit false

/-! # Who demands a secret

A resource demands the secret that one of its TLS blocks names if the block asks for anything and
the controller heeds the resource: it has opted in and, unless it is a route, a supported
controller serves it. While the classes of ingresses stay as they are, so does who is heeded.

The controller asks for the certificate of a demanded secret when it learns of the resource or of
a new version of it, and when it learns that the secret was deleted. It does not ask if the secret
belongs to somebody else or holds the certificate already.

Main statements: `asks_of_news` and `asks_of_deletion`.
-/

namespace IngressTls

/-- Whether the objects of a kind are classes of ingresses. -/
def Kind.isClass : Kind → Bool
  | platformClass | ingressClass | legacyClass => true
  | ingress | legacyIngress | route | secret => false

/-- Whether the controller issues for the blocks of an object. -/
def ClusterCache.heeds (c : ClusterCache) : (k : Kind) → k.Object → Bool
  | .ingress, o => (IngressView.ofIngress o).info.isOptedIn && c.serves (.ofIngress o)
  | .legacyIngress, o => (IngressView.ofLegacy o).info.isOptedIn && c.serves (.ofLegacy o)
  | .route, o => (RouteView.ofRoute o).info.isOptedIn
  | .platformClass, _ | .ingressClass, _ | .legacyClass, _ | .secret, _ => false

/-- The blocks by which a resource names a secret are all for the same hosts. -/
def SecuredView.Uniform (v : SecuredView) (s : SecretRef) (D : DomainSet) : Prop :=
  v.info.ns = s.ns → ∀ b ∈ v.blocks, b.secretName = s.name → b.domains = D

instance (v : SecuredView) (s : SecretRef) (D : DomainSet) : Decidable (v.Uniform s D) :=
  inferInstanceAs (Decidable (_ → ∀ b ∈ v.blocks, _ → _))

/-- A change brings an object that is not just the version that was known. -/
def KindChange.Brings (k : Kind) (o : k.Object) (c : KindChange) : Prop :=
  c = ⟨k, .added o⟩ ∨ ∃ old, c = ⟨k, .updated old o⟩ ∧
    ((k.metadata old).resourceVersion.isSome &&
      (k.metadata old).resourceVersion = (k.metadata o).resourceVersion) = false

namespace Controller

variable {c : Controller} {s : SecretRef} {D : DomainSet} {r : Request}

/-! ## What a change asks for -/

theorem request?_eq_some {ns : String} {b : TlsBlock} (h : c.request? ns b = some r) :
    r = ⟨b.domains, ns, b.secretName⟩ := by
  rw [request?] at h
  split at h
  · exact (Option.some.inj (Option.ite_none_right_eq_some.1 h).2).symm
  · cases h

/-- A block asks for a secret that is not there. -/
theorem request?_of_absent {ns : String} {b : TlsBlock} (hactionable : b.isActionable = true)
    (h : c.cache.secret ⟨ns, b.secretName⟩ = none) :
    c.request? ns b = some ⟨b.domains, ns, b.secretName⟩ := by
  simp [request?, hactionable, h]

/-- A block asks for a managed secret that is for other hosts. -/
theorem request?_of_stale {ns : String} {b : TlsBlock} {v : SecretView}
    (hactionable : b.isActionable = true) (h : c.cache.secret ⟨ns, b.secretName⟩ = some v)
    (hmanaged : v.isManagedBy c.name = true) (hdomains : v.domains ≠ some b.domains) :
    c.request? ns b = some ⟨b.domains, ns, b.secretName⟩ := by
  simp [request?, hactionable, h, hmanaged, hdomains]

theorem mem_requestsOf {ns : String} {bs : List TlsBlock} :
    r ∈ c.requestsOf ns bs ↔ ∃ b ∈ bs, c.request? ns b = some r :=
  List.mem_filterMap

/-- What the controller asks for when it learns of an object. -/
def sync (c : Controller) (k : Kind) (o : k.Object) : List Request :=
  if c.cache.heeds k o then c.requestsOf (k.secured o).info.ns (k.secured o).blocks else []

theorem current_map {α β : Type} (f : α → β) (change : Change α) :
    current (change.map f) = (current change).map f := by
  cases change with
  | added o => rfl
  | updated old new => rfl
  | deleted o => rfl

theorem requests_onIngress {α : Type} (view : α → IngressView) (change : Change α) :
    (c.onIngress (change.map view)).requests =
      (reconcile (((current change).map fun o => c.syncIngress (view o)).getD [])
        (change.map fun o => (view o).secured)).requests := by
  rw [onIngress, current_map, Option.map_map, map_map]
  rfl

theorem requests_onRoute {α : Type} (view : α → RouteView) (change : Change α) :
    (c.onRoute (change.map view)).requests =
      (reconcile (((current change).map fun o => c.syncRoute (view o)).getD [])
        (change.map fun o => (view o).secured)).requests := by
  rw [onRoute, current_map, Option.map_map, map_map]
  rfl

/-- What asks for nothing asks for nothing when it changes. -/
theorem requests_of_nothing {α : Type} (view : α → SecuredView) (change : Change α) :
    (reconcile (((current change).map fun _ => ([] : List Request)).getD [])
      (change.map view)).requests = [] := by
  refine List.eq_nil_iff_forall_not_mem.2 fun r hr => ?_
  obtain ⟨o, ho⟩ := exists_mem_sync (requests_reconcile hr)
  cases ho

/-- What a change of a resource asks for is a matter of the object that is there now. -/
theorem requests_react {k : Kind} (hk : k ≠ .secret) (change : Change k.Object) :
    (c.react ⟨k, change⟩).requests =
      (reconcile (((current change).map (c.sync k)).getD []) (change.map k.secured)).requests := by
  cases k with
  | ingress => exact requests_onIngress IngressView.ofIngress change
  | legacyIngress => exact requests_onIngress IngressView.ofLegacy change
  | route => exact requests_onRoute RouteView.ofRoute change
  | platformClass => exact (requests_of_nothing _ change).symm
  | ingressClass => exact (requests_of_nothing _ change).symm
  | legacyClass => exact (requests_of_nothing _ change).symm
  | secret => exact absurd rfl hk

/-- An object that is new, or a new version, asks for its certificates. -/
theorem requests_of_brings {k : Kind} {o : k.Object} {change : KindChange} (hk : k ≠ .secret)
    (h : change.Brings k o) : (c.react change).requests = c.sync k o := by
  rcases h with rfl | ⟨old, rfl, hversion⟩
  · exact requests_react hk _
  · have hnew : ((k.secured old).info.resourceVersion.isSome &&
        (k.secured old).info.resourceVersion = (k.secured o).info.resourceVersion) = false := by
      rw [Kind.secured_info, Kind.secured_info]
      exact hversion
    rw [requests_react hk]
    show (reconcile (c.sync k o) (.updated (k.secured old) (k.secured o))).requests = _
    rw [reconcile, if_neg (by rw [hnew]; exact Bool.false_ne_true)]

theorem domains_of_sync {k : Kind} {o : k.Object} (huniform : (k.secured o).Uniform s D)
    (hr : r ∈ c.sync k o) (htarget : r.target = s) : r.domains = D := by
  rw [sync] at hr
  split at hr
  · obtain ⟨b, hb, hrequest⟩ := mem_requestsOf.1 hr
    cases request?_eq_some hrequest
    subst htarget
    exact huniform rfl b hb rfl
  · cases hr

end Controller

namespace World

variable {w w' : World} {s : SecretRef} {D : DomainSet} {k : Kind} {o : k.Object}

/-! ## Demand -/

/-- A resource demands a secret. -/
structure Demands (w : World) (s : SecretRef) (k : Kind) (o : k.Object) : Prop where
  /-- It is there. -/
  live : o ∈ (w.kinds.get k).objects
  /-- It is in the namespace of the secret. -/
  ns : (k.metadata o).ns = some s.ns
  /-- The controller issues for its blocks. -/
  heeded : w.cache.heeds k o = true
  /-- One of its blocks names the secret and asks for a certificate. -/
  block : ∃ b ∈ (k.secured o).blocks, b.secretName = s.name ∧ b.isActionable = true

theorem serves_congr {c c' : ClusterCache} (hclass : c'.ingressClass = c.ingressClass)
    (hdefault : c'.defaultClass = c.defaultClass) (v : IngressView) : c'.serves v = c.serves v := by
  rw [ClusterCache.serves, ClusterCache.serves, ClusterCache.controllerOf?,
    ClusterCache.controllerOf?, hclass, hdefault]

/-- Who is heeded is a matter of the classes. -/
theorem heeds_congr (h : ∀ j, j.isClass = true → w'.kinds.get j = w.kinds.get j)
    (o : k.Object) : w'.cache.heeds k o = w.cache.heeds k o := by
  have hplatform : w'.kinds.platformClass = w.kinds.platformClass := h .platformClass rfl
  have hingress : w'.kinds.ingressClass = w.kinds.ingressClass := h .ingressClass rfl
  have hlegacy : w'.kinds.legacyClass = w.kinds.legacyClass := h .legacyClass rfl
  have hclass : w'.cache.ingressClass = w.cache.ingressClass := by
    simp only [cache, Snapshots.cache, hplatform, hingress, hlegacy]
  have hdefault : w'.cache.defaultClass = w.cache.defaultClass := by
    simp only [cache, Snapshots.cache, Snapshots.classes, hplatform, hingress, hlegacy]
  have hserves := serves_congr hclass hdefault
  cases k with
  | ingress =>
      show (_ && w'.cache.serves (.ofIngress o)) = (_ && w.cache.serves (.ofIngress o))
      rw [hserves]
  | legacyIngress =>
      show (_ && w'.cache.serves (.ofLegacy o)) = (_ && w.cache.serves (.ofLegacy o))
      rw [hserves]
  | _ => rfl

theorem Demands.ne_secret (h : w.Demands s k o) : k ≠ .secret := by
  rintro rfl
  cases h.heeded

/-- The namespace of a resource as the controller sees it. -/
theorem Demands.info_ns (h : w.Demands s k o) : (k.secured o).info.ns = s.ns := by
  rw [Kind.secured_info]
  exact congrArg (fun ns : Option String => ns.getD "") h.ns

/-- A block of a heeded resource asks for its certificate unless the secret holds it already, or
belongs to somebody else. -/
theorem asks_or_there (hfiled : w.floor.Filed) {b : TlsBlock} (hname : b.secretName = s.name)
    (hactionable : b.isActionable = true) :
    w.controller.request? s.ns b = some ⟨b.domains, s⟩ ∨ w.floor.Meets s b.domains ∨
      w.floor.Foreign s := by
  have hcache : w.controller.cache.secret s = (w.floor.secret? s).map SecretView.ofSecret :=
    congrArg (Option.map SecretView.ofSecret) (hfiled.find?_eq s)
  obtain ⟨ns, name⟩ := s
  subst hname
  -- the three ways in which the controller can find the secret
  cases hsecret : w.floor.secret? ⟨ns, b.secretName⟩ with
  | none =>
      rw [hsecret] at hcache
      exact Or.inl (Controller.request?_of_absent hactionable hcache)
  | some o =>
      rw [hsecret] at hcache
      cases hmanaged : o.metadata.isManagedBy w.floor.manager.settings.controllerName with
      | false =>
          refine Or.inr (Or.inr ?_)
          rw [Floor.Foreign, hsecret, Manager.isForeign, Option.any_some, hmanaged]
          rfl
      | true =>
          by_cases hdomains : (SecretView.ofSecret o).domains = some b.domains
          · exact Or.inr (Or.inl ⟨o, hsecret, hmanaged, hdomains⟩)
          · exact Or.inl (Controller.request?_of_stale hactionable hcache hmanaged hdomains)

/-- News of a demanding resource makes the controller ask for the secret, unless it holds the
certificate already or belongs to somebody else. -/
theorem asks_of_news {c : KindChange} (hfiled : w.floor.Filed) (h : w.Demands s k o)
    (huniform : (k.secured o).Uniform s D) (hbrings : c.Brings k o) :
    ⟨D, s⟩ ∈ (w.controller.react c).requests ∨ w.floor.Meets s D ∨ w.floor.Foreign s := by
  obtain ⟨b, hb, hname, hactionable⟩ := h.block
  have hD := huniform h.info_ns b hb hname
  subst hD
  refine (asks_or_there hfiled hname hactionable).imp_left fun hrequest => ?_
  have hheeded : w.controller.cache.heeds k o = true := h.heeded
  rw [Controller.requests_of_brings h.ne_secret hbrings, Controller.sync, if_pos hheeded,
    h.info_ns]
  exact Controller.mem_requestsOf.2 ⟨b, hb, hrequest⟩

/-- The blocks by which the heeded objects of a kind name a secret. -/
theorem mem_blocksOf {α : Type} (snapshots : Snapshots) (k : Kind) (s : SecretRef)
    (view : k.Object → α) (secured : α → SecuredView) (heeds : α → Bool)
    (hview : ∀ o, secured (view o) = k.secured o) (b : TlsBlock) :
    (∃ v ∈ (((snapshots.inNamespace k s.ns).map view).filter heeds).map secured,
      b ∈ v.blocksFor s.name) ↔
    ∃ o ∈ (snapshots.get k).objects, (k.metadata o).ns = some s.ns ∧ heeds (view o) = true ∧
      b ∈ (k.secured o).blocks ∧ b.secretName = s.name := by
  constructor
  · rintro ⟨v, hv, hb⟩
    obtain ⟨a, ha, rfl⟩ := List.mem_map.1 hv
    obtain ⟨ha, hheeds⟩ := List.mem_filter.1 ha
    obtain ⟨o, ho, hns, rfl⟩ := mem_views.1 ha
    rw [SecuredView.blocksFor, List.mem_filter, decide_eq_true_iff, hview] at hb
    exact ⟨o, ho, hns, hheeds, hb⟩
  · rintro ⟨o, ho, hns, hheeds, hb⟩
    refine ⟨k.secured o, List.mem_map.2 ⟨view o, List.mem_filter.2 ⟨?_, hheeds⟩, hview o⟩, ?_⟩
    · exact mem_views.2 ⟨o, ho, hns, rfl⟩
    · rw [SecuredView.blocksFor, List.mem_filter, decide_eq_true_iff]
      exact hb

/-- When a secret is deleted, the controller asks for it for the blocks of all heeded resources that
name it. -/
theorem mem_secretDeleted {r : Request} :
    r ∈ w.controller.secretDeleted s ↔ ∃ k, ∃ o ∈ (w.kinds.get k).objects,
      (k.metadata o).ns = some s.ns ∧ w.cache.heeds k o = true ∧
      ∃ b ∈ (k.secured o).blocks, b.secretName = s.name ∧
        w.controller.request? s.ns b = some r := by
  let snapshots : Snapshots := { w.kinds with secret := w.floor.shelf }
  let serves := fun v : IngressView => v.info.isOptedIn && w.cache.serves v
  let optedIn := fun v : RouteView => v.info.isOptedIn
  let ingresses := (snapshots.inNamespace .ingress s.ns).map IngressView.ofIngress
  let legacies := (snapshots.inNamespace .legacyIngress s.ns).map IngressView.ofLegacy
  let routes := (snapshots.inNamespace .route s.ns).map RouteView.ofRoute
  have hingress := mem_blocksOf snapshots .ingress s IngressView.ofIngress IngressView.secured
    serves fun _ => rfl
  have hlegacy := mem_blocksOf snapshots .legacyIngress s IngressView.ofLegacy IngressView.secured
    serves fun _ => rfl
  have hroute := mem_blocksOf snapshots .route s RouteView.ofRoute RouteView.secured optedIn
    fun _ => rfl
  have hdeleted : w.controller.secretDeleted s = w.controller.requestsOf s.ns
      ((((ingresses.filter serves).map IngressView.secured ++
        (legacies.filter serves).map IngressView.secured) ++
        (routes.filter optedIn).map RouteView.secured).flatMap fun v => v.blocksFor s.name) := by
    rw [← List.map_append, ← List.filter_append]
    rfl
  rw [hdeleted, Controller.mem_requestsOf]
  constructor
  · rintro ⟨b, hb, hrequest⟩
    obtain ⟨v, hv, hb⟩ := List.mem_flatMap.1 hb
    rcases List.mem_append.1 hv with hv | hv
    · rcases List.mem_append.1 hv with hv | hv
      · obtain ⟨o, ho, hns, hheeded, hb, hname⟩ := (hingress b).1 ⟨v, hv, hb⟩
        exact ⟨.ingress, o, ho, hns, hheeded, b, hb, hname, hrequest⟩
      · obtain ⟨o, ho, hns, hheeded, hb, hname⟩ := (hlegacy b).1 ⟨v, hv, hb⟩
        exact ⟨.legacyIngress, o, ho, hns, hheeded, b, hb, hname, hrequest⟩
    · obtain ⟨o, ho, hns, hheeded, hb, hname⟩ := (hroute b).1 ⟨v, hv, hb⟩
      exact ⟨.route, o, ho, hns, hheeded, b, hb, hname, hrequest⟩
  · rintro ⟨k, o, ho, hns, hheeded, b, hb, hname, hrequest⟩
    refine ⟨b, List.mem_flatMap.2 ?_, hrequest⟩
    simp only [List.mem_append]
    cases k with
    | ingress =>
        obtain ⟨v, hv, hb⟩ := (hingress b).2 ⟨o, ho, hns, hheeded, hb, hname⟩
        exact ⟨v, Or.inl (Or.inl hv), hb⟩
    | legacyIngress =>
        obtain ⟨v, hv, hb⟩ := (hlegacy b).2 ⟨o, ho, hns, hheeded, hb, hname⟩
        exact ⟨v, Or.inl (Or.inr hv), hb⟩
    | route =>
        obtain ⟨v, hv, hb⟩ := (hroute b).2 ⟨o, ho, hns, hheeded, hb, hname⟩
        exact ⟨v, Or.inr hv, hb⟩
    | _ =>
        -- classes and secrets are not heeded
        cases hheeded

/-- The deletion of a secret makes the controller ask for it while a resource demands it, unless it
is there again. -/
theorem asks_of_deletion {sec : Secret} (hfiled : w.floor.Filed) (h : w.Demands s k o)
    (huniform : (k.secured o).Uniform s D) (hsec : sec.ref = s) :
    ⟨D, s⟩ ∈ (w.controller.react ⟨.secret, .deleted sec⟩).requests ∨ w.floor.Meets s D ∨
      w.floor.Foreign s := by
  obtain ⟨b, hb, hname, hactionable⟩ := h.block
  have hD := huniform h.info_ns b hb hname
  subst hD
  refine (asks_or_there hfiled hname hactionable).imp_left fun hrequest => ?_
  show _ ∈ w.controller.secretDeleted sec.ref
  rw [hsec]
  exact mem_secretDeleted.2 ⟨k, o, h.live, h.ns, h.heeded, b, hb, hname, hrequest⟩

/-- As long as all resources name a secret for the same hosts, every change asks for these hosts. -/
theorem domains_of_react {c : KindChange} {r : Request}
    (hstock : ∀ k, ∀ o ∈ (w.kinds.get k).objects, (k.secured o).Uniform s D)
    (hchange : ∀ o, Controller.current c.change = some o → (c.kind.secured o).Uniform s D)
    (hr : r ∈ (w.controller.react c).requests) (htarget : r.target = s) : r.domains = D := by
  obtain ⟨k, change⟩ := c
  by_cases hk : k = .secret
  · -- a secret that is deleted asks for what the resources name, and not for its own hosts
    subst hk
    cases change with
    | added sec => cases hr
    | updated old new => cases hr
    | deleted sec =>
        obtain ⟨k, o, ho, hns, -, b, hb, -, hrequest⟩ := mem_secretDeleted.1 hr
        cases Controller.request?_eq_some hrequest
        subst htarget
        have hinfo : (k.secured o).info.ns = (SecretView.ofSecret sec).ref.ns := by
          rw [Kind.secured_info, ResourceMeta.ofMetadata, Metadata.nsOrEmpty, hns]
          rfl
        exact hstock k o ho hinfo b hb rfl
  · rw [Controller.requests_react hk] at hr
    have hsync := Controller.requests_reconcile hr
    cases hcurrent : Controller.current change with
    | none =>
        rw [hcurrent] at hsync
        cases hsync
    | some o =>
        rw [hcurrent] at hsync
        exact Controller.domains_of_sync (hchange o hcurrent) hsync htarget

end World

end IngressTls
