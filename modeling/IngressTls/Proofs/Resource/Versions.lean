import IngressTls.Proofs.Cluster.Asked
import IngressTls.Proofs.Json.Members

set_option autoImplicit false

/-! # Two versions of an ingress

The same ingress can be read in two versions. They treat what is missing differently: in the one
nearly everything may be null, in the other lists may be missing but not null, and the metadata and
the specification must be there. Where both versions can be read, they are seen as the same ingress.

So it makes no difference in which version a server shows an ingress. The controller decides alike
whichever version a change comes in, and whichever versions the ingresses that it looks up are in.
Only the order in which it asks for a deleted secret again is that of the versions.

Main statement: `IngressVersion.same_decisions`.
-/

namespace IngressTls

open Json (Agree asObject_eq_some_iff eq_of_asRecord_object)

/-! ## Readers of both versions -/

theorem texts?_null : Json.texts? .null = none := rfl

/-- Both versions read the hosts and the secret of a TLS entry alike. -/
theorem agree_entry : Agree (fun e e' => e.hosts.getD [] = e'.hosts ∧ e.secretName = e'.secretName)
    Ingress.entry? LegacyTlsEntry.ofJson? := by
  intro v e e' he he'
  obtain ⟨j, hj, he⟩ := Option.bind_eq_some_iff.1 he
  obtain ⟨hosts, hhosts, he⟩ := Option.bind_eq_some_iff.1 he
  obtain ⟨secretName, hsecret, he⟩ := Option.bind_eq_some_iff.1 he
  cases he
  obtain ⟨j', hj', he'⟩ := Option.bind_eq_some_iff.1 he'
  obtain ⟨hosts', hhosts', he'⟩ := Option.bind_eq_some_iff.1 he'
  obtain ⟨secretName', hsecret', he'⟩ := Option.bind_eq_some_iff.1 he'
  cases he'
  obtain ⟨ms, rfl, rfl⟩ := asObject_eq_some_iff.1 hj
  cases eq_of_asRecord_object hj'
  have hsame : Agree (· = ·) Json.texts? Json.texts? := by
    intro v x y hx hy
    exact Option.some.inj (hx.symm.trans hy)
  refine ⟨?_, Option.some.inj (hsecret.symm.trans hsecret')⟩
  rcases hsame.optional_defaulted texts?_null rfl hhosts hhosts' with ⟨rfl, rfl⟩ | ⟨x, rfl, hx⟩
  · rfl
  · exact hx

/-- The TLS blocks of two lists of entries are the same. -/
theorem blocks_of_agree {es : List IngressTlsEntry} {es' : List LegacyTlsEntry}
    (h : List.Forall₂ (fun e e' => e.hosts.getD [] = e'.hosts ∧ e.secretName = e'.secretName)
      es es') :
    es.map (fun e => TlsBlock.ofHosts (e.hosts.getD []) e.secretName) =
      es'.map fun e => TlsBlock.ofHosts e.hosts e.secretName := by
  induction h with
  | nil => rfl
  | cons he _ ih => rw [List.map_cons, List.map_cons, he.1, he.2, ih]

/-- Both versions read the class and the TLS blocks of a specification alike. -/
theorem agree_spec : Agree (fun s (s' : LegacyIngressSpec) => s.1 = s'.className ∧
      s.2.map (fun e => TlsBlock.ofHosts (e.hosts.getD []) e.secretName) =
        s'.tls.map fun e => TlsBlock.ofHosts e.hosts e.secretName)
    Ingress.spec? LegacyIngressSpec.ofJson? := by
  intro v s s' hs hs'
  obtain ⟨j, hj, hs⟩ := Option.bind_eq_some_iff.1 hs
  obtain ⟨className, hclass, hs⟩ := Option.bind_eq_some_iff.1 hs
  obtain ⟨tls, htls, hs⟩ := Option.bind_eq_some_iff.1 hs
  obtain ⟨unused, -, hs⟩ := Option.bind_eq_some_iff.1 hs
  cases hs
  obtain ⟨j', hj', hs'⟩ := Option.bind_eq_some_iff.1 hs'
  obtain ⟨className', hclass', hs'⟩ := Option.bind_eq_some_iff.1 hs'
  obtain ⟨tls', htls', hs'⟩ := Option.bind_eq_some_iff.1 hs'
  cases hs'
  obtain ⟨ms, rfl, rfl⟩ := asObject_eq_some_iff.1 hj
  cases eq_of_asRecord_object hj'
  refine ⟨Option.some.inj (hclass.symm.trans hclass'), ?_⟩
  rcases agree_entry.listOf.optional_defaulted rfl rfl htls htls' with ⟨rfl, rfl⟩ | ⟨es, rfl, hes⟩
  · rfl
  · exact blocks_of_agree hes

/-- Two documents with the same metadata and the same specification, one of them read in each
version, are the same ingress. -/
theorem same_ingress {ms ms' : List (String × Json)}
    (hmetadata : (Json.object ms).occurrences "metadata" =
      (Json.object ms').occurrences "metadata")
    (hspec : (Json.object ms).occurrences "spec" = (Json.object ms').occurrences "spec")
    {i : Ingress} {l : LegacyIngress} (hi : Ingress.ofJson? (.object ms) = some i)
    (hl : LegacyIngress.ofJson? (.object ms') = some l) :
    i.metadata = l.metadata ∧ IngressView.ofIngress i = IngressView.ofLegacy l := by
  obtain ⟨-, hi⟩ := Option.ite_none_right_eq_some.1 hi
  obtain ⟨metadata, hm, hi⟩ := Option.bind_eq_some_iff.1 hi
  obtain ⟨spec, hs, hi⟩ := Option.bind_eq_some_iff.1 hi
  obtain ⟨status, -, hi⟩ := Option.bind_eq_some_iff.1 hi
  cases hi
  obtain ⟨j', hj', hl⟩ := Option.bind_eq_some_iff.1 hl
  obtain ⟨metadata', hm', hl⟩ := Option.bind_eq_some_iff.1 hl
  obtain ⟨spec', hs', hl⟩ := Option.bind_eq_some_iff.1 hl
  cases hl
  cases eq_of_asRecord_object hj'
  have hsame : Agree (· = ·) Metadata.ofJson? Metadata.ofJson? := by
    intro v x y hx hy
    exact Option.some.inj (hx.symm.trans hy)
  obtain ⟨m, rfl, rfl⟩ := hsame.optional_required rfl hmetadata hm hm'
  obtain ⟨⟨className, tls⟩, rfl, hclass, htls⟩ := agree_spec.optional_required rfl hspec hs hs'
  refine ⟨rfl, ?_⟩
  rw [IngressView.ofIngress, IngressView.ofLegacy, IngressView.mk.injEq]
  exact ⟨rfl, hclass, htls⟩

/-! ## Ingresses as they are shown -/

/-- The versions in which a server shows an ingress. -/
inductive IngressVersion where
  | v1 | v1beta1
  deriving DecidableEq, Repr

namespace IngressVersion

/-- The kind of the ingresses of a version. -/
def kind : IngressVersion → Kind
  | v1 => .ingress
  | v1beta1 => .legacyIngress

/-- The view of an ingress of a version. -/
def view : (v : IngressVersion) → v.kind.Object → IngressView
  | v1 => IngressView.ofIngress
  | v1beta1 => IngressView.ofLegacy

/-- An ingress with some members, as it is shown in a version. -/
def document (v : IngressVersion) (members : List (String × Json)) : Json :=
  .object (("apiVersion", .string v.kind.served.apiVersion) ::
    ("kind", .string v.kind.served.kind) :: members)

/-- Reads an ingress with some members in a version. -/
def read? (v : IngressVersion) (members : List (String × Json)) : Option v.kind.Object :=
  v.kind.object? (v.document members)

/-- Reads a change of ingresses in a version. -/
def readChange? (v : IngressVersion) :
    Change (List (String × Json)) → Option (Change v.kind.Object)
  | .added members => (v.read? members).map .added
  | .updated old new => (v.read? old).bind fun o => (v.read? new).map (.updated o)
  | .deleted members => (v.read? members).map .deleted

variable {v v' : IngressVersion} {members : List (String × Json)} {o : v.kind.Object}
  {o' : v'.kind.Object}

/-- Whichever versions an ingress is read in, it is the same ingress. -/
theorem same_of_read (h : v.read? members = some o) (h' : v'.read? members = some o') :
    v.kind.metadata o = v'.kind.metadata o' ∧ v.view o = v'.view o' := by
  have hmetadata : (v1.document members).occurrences "metadata" =
      (v1beta1.document members).occurrences "metadata" := rfl
  have hspec : (v1.document members).occurrences "spec" =
      (v1beta1.document members).occurrences "spec" := rfl
  cases v with
  | v1 =>
      cases v' with
      | v1 =>
          cases h.symm.trans h'
          exact ⟨rfl, rfl⟩
      | v1beta1 => exact same_ingress hmetadata hspec h h'
  | v1beta1 =>
      cases v' with
      | v1 =>
          obtain ⟨hsame, hview⟩ := same_ingress hmetadata hspec h' h
          exact ⟨hsame.symm, hview.symm⟩
      | v1beta1 =>
          cases h.symm.trans h'
          exact ⟨rfl, rfl⟩

theorem same_of_readChange {change : Change (List (String × Json))} {c : Change v.kind.Object}
    {c' : Change v'.kind.Object} (h : v.readChange? change = some c)
    (h' : v'.readChange? change = some c') : c.map v.view = c'.map v'.view := by
  cases change with
  | added members =>
      obtain ⟨o, ho, rfl⟩ := Option.map_eq_some_iff.1 h
      obtain ⟨o', ho', rfl⟩ := Option.map_eq_some_iff.1 h'
      exact congrArg Change.added (same_of_read ho ho').2
  | deleted members =>
      obtain ⟨o, ho, rfl⟩ := Option.map_eq_some_iff.1 h
      obtain ⟨o', ho', rfl⟩ := Option.map_eq_some_iff.1 h'
      exact congrArg Change.deleted (same_of_read ho ho').2
  | updated old new =>
      obtain ⟨p, hp, h⟩ := Option.bind_eq_some_iff.1 h
      obtain ⟨o, ho, rfl⟩ := Option.map_eq_some_iff.1 h
      obtain ⟨p', hp', h'⟩ := Option.bind_eq_some_iff.1 h'
      obtain ⟨o', ho', rfl⟩ := Option.map_eq_some_iff.1 h'
      exact congrArg₂ Change.updated (same_of_read hp hp').2 (same_of_read ho ho').2

/-- What is looked up about an ingress: its namespace and its view. -/
def filed (v : IngressVersion) (o : v.kind.Object) : Option String × IngressView :=
  ((v.kind.metadata o).ns, v.view o)

/-- What is looked up about an ingress with some members, whichever version can be read. -/
def seen (members : List (String × Json)) : Option (Option String × IngressView) :=
  ((v1.read? members).map v1.filed).or ((v1beta1.read? members).map v1beta1.filed)

theorem seen_of_read (h : v.read? members = some o) : seen members = some (v.filed o) := by
  rw [seen]
  cases hv1 : v1.read? members with
  | some i =>
      obtain ⟨hmetadata, hview⟩ := same_of_read hv1 h
      rw [Option.map_some, Option.some_or, filed, filed, hmetadata, hview]
  | none =>
      cases v with
      | v1 => cases hv1.symm.trans h
      | v1beta1 => rw [h, Option.map_none, Option.none_or, Option.map_some]

theorem map_seen_of_mapM {all : List (List (String × Json))} {os : List v.kind.Object}
    (h : all.mapM v.read? = some os) : all.map seen = (os.map v.filed).map some := by
  have hread := Json.forall₂_of_mapM h
  clear h
  induction hread with
  | nil => rfl
  | cons ho _ ih => rw [List.map_cons, List.map_cons, List.map_cons, seen_of_read ho, ih]

end IngressVersion

/-! ## What is looked up -/

namespace Snapshots

variable {s t : Snapshots} {ingresses : List (List (String × Json))}

/-- The snapshots hold ingresses with some members, each of them in one of the two versions. -/
def Shows (s : Snapshots) (ingresses : List (List (String × Json))) : Prop :=
  ∃ newer older, ingresses.Perm (newer ++ older) ∧
    newer.mapM IngressVersion.v1.read? = some (s.get IngressVersion.v1.kind).objects ∧
    older.mapM IngressVersion.v1beta1.read? = some (s.get IngressVersion.v1beta1.kind).objects

/-- What is looked up about the ingresses of the snapshots. -/
def filed (s : Snapshots) : List (Option String × IngressView) :=
  (s.get IngressVersion.v1.kind).objects.map IngressVersion.v1.filed ++
    (s.get IngressVersion.v1beta1.kind).objects.map IngressVersion.v1beta1.filed

theorem ingresses_cache (s : Snapshots) (ns : String) :
    s.cache.ingresses ns = (s.filed.filter fun p => p.1 = some ns).map Prod.snd := by
  rw [filed, List.filter_append, List.map_append, List.filter_map, List.filter_map, List.map_map,
    List.map_map]
  rfl

/-- Whichever versions the ingresses are shown in, the same ingresses are found. -/
theorem ingresses_perm (hs : s.Shows ingresses) (ht : t.Shows ingresses) (ns : String) :
    (s.cache.ingresses ns).Perm (t.cache.ingresses ns) := by
  have hseen {s : Snapshots} (h : s.Shows ingresses) :
      (ingresses.map IngressVersion.seen).Perm (s.filed.map some) := by
    obtain ⟨newer, older, hperm, hnewer, holder⟩ := h
    rw [filed, List.map_append, ← IngressVersion.map_seen_of_mapM hnewer,
      ← IngressVersion.map_seen_of_mapM holder, ← List.map_append]
    exact hperm.map _
  have hfiled : s.filed.Perm t.filed :=
    (List.map_perm_map_iff (Option.some_injective _)).1 ((hseen hs).symm.trans (hseen ht))
  rw [ingresses_cache, ingresses_cache]
  exact (hfiled.filter _).map _

end Snapshots

/-- Two caches find the same, but for the order of ingresses. -/
structure ClusterCache.Alike (c d : ClusterCache) : Prop where
  /-- The ingresses of a namespace. -/
  ingresses : ∀ ns, (c.ingresses ns).Perm (d.ingresses ns)
  /-- The routes. -/
  routes : c.routes = d.routes
  /-- The classes by their names. -/
  ingressClass : c.ingressClass = d.ingressClass
  /-- The default class. -/
  defaultClass : c.defaultClass = d.defaultClass
  /-- The secrets. -/
  secret : c.secret = d.secret

theorem Snapshots.alike_cache {s t : Snapshots} {ingresses : List (List (String × Json))}
    (hs : s.Shows ingresses) (ht : t.Shows ingresses)
    (hothers : ∀ k, k ≠ .ingress → k ≠ .legacyIngress → s.get k = t.get k) :
    s.cache.Alike t.cache := by
  have hroute : s.route = t.route := hothers .route (by decide) (by decide)
  have hplatform : s.platformClass = t.platformClass :=
    hothers .platformClass (by decide) (by decide)
  have hclass : s.ingressClass = t.ingressClass := hothers .ingressClass (by decide) (by decide)
  have hlegacy : s.legacyClass = t.legacyClass := hothers .legacyClass (by decide) (by decide)
  have hsecret : s.secret = t.secret := hothers .secret (by decide) (by decide)
  refine ⟨ingresses_perm hs ht, ?_, ?_, ?_, ?_⟩
  · funext ns
    show (s.route.objects.filter _).map _ = (t.route.objects.filter _).map _
    rw [hroute]
  · simp only [cache, hplatform, hclass, hlegacy]
  · simp only [cache, classes, hplatform, hclass, hlegacy]
  · simp only [cache, hsecret]

namespace Controller

variable {c d : ClusterCache} {name : String}

/-! ## What is decided -/

theorem serves_of_alike (h : c.Alike d) (v : IngressView) : c.serves v = d.serves v := by
  simp only [ClusterCache.serves, ClusterCache.controllerOf?, h.ingressClass, h.defaultClass]

theorem requestsOf_of_alike (h : c.Alike d) :
    (⟨name, c⟩ : Controller).requestsOf = (⟨name, d⟩ : Controller).requestsOf := by
  funext ns bs
  refine List.filterMap_congr fun b _ => ?_
  simp only [request?, h.secret]

theorem onIngress_of_alike (h : c.Alike d) (change : Change IngressView) :
    (⟨name, c⟩ : Controller).onIngress change = (⟨name, d⟩ : Controller).onIngress change := by
  have hsync : (⟨name, c⟩ : Controller).syncIngress = (⟨name, d⟩ : Controller).syncIngress := by
    funext v
    simp only [syncIngress, serves_of_alike h, requestsOf_of_alike h]
  simp only [onIngress, hsync]

theorem onRoute_of_alike (h : c.Alike d) (change : Change RouteView) :
    (⟨name, c⟩ : Controller).onRoute change = (⟨name, d⟩ : Controller).onRoute change := by
  have hsync : (⟨name, c⟩ : Controller).syncRoute = (⟨name, d⟩ : Controller).syncRoute := by
    funext v
    simp only [syncRoute, requestsOf_of_alike h]
  simp only [onRoute, hsync]

/-- Nothing but the order of the requests depends on the order of the ingresses. -/
theorem secretDeleted_of_alike (h : c.Alike d) (r : SecretRef) :
    ((⟨name, c⟩ : Controller).secretDeleted r).Perm ((⟨name, d⟩ : Controller).secretDeleted r) := by
  simp only [secretDeleted, serves_of_alike h, requestsOf_of_alike h, h.routes]
  refine List.Perm.filterMap _ (List.Perm.flatMap_right _ ?_)
  exact ((((h.ingresses r.ns).filter _).map _).append_right _)

theorem reclaims_of_alike (h : c.Alike d) (r : SecretRef) :
    (⟨name, c⟩ : Controller).reclaims r = (⟨name, d⟩ : Controller).reclaims r := by
  rw [Bool.eq_iff_iff, reclaims_iff, reclaims_iff]
  simp only [ClusterCache.Owned, ClusterCache.Refers, h.secret, h.routes,
    (h.ingresses r.ns).mem_iff]

theorem react_of_alike (h : c.Alike d) (change : KindChange) (hkind : change.kind ≠ .secret) :
    (⟨name, c⟩ : Controller).react change = (⟨name, d⟩ : Controller).react change := by
  obtain ⟨k, change⟩ := change
  cases k with
  | ingress => exact onIngress_of_alike h _
  | legacyIngress => exact onIngress_of_alike h _
  | route => exact onRoute_of_alike h _
  | secret => exact absurd rfl hkind
  | _ => rfl

theorem react_ingressVersion (c : Controller) (v : IngressVersion) (change : Change v.kind.Object) :
    c.react ⟨v.kind, change⟩ = c.onIngress (change.map v.view) := by
  cases v with
  | v1 => rfl
  | v1beta1 => rfl

end Controller

namespace Rehearsal

variable {c d : ClusterCache} {name : String}

theorem callsOf_of_react (h : c.Alike d) (failures : List Bool) {change change' : KindChange}
    (hreact : (⟨name, c⟩ : Controller).react change = (⟨name, d⟩ : Controller).react change') :
    callsOf ⟨name, c⟩ failures change = callsOf ⟨name, d⟩ failures change' := by
  rw [callsOf_eq, callsOf_eq, hreact, funext (Controller.reclaims_of_alike h)]

theorem callsOf_perm (h : c.Alike d) (failures : List Bool) (change : KindChange) :
    (callsOf ⟨name, c⟩ failures change).Perm (callsOf ⟨name, d⟩ failures change) := by
  by_cases hkind : change.kind = .secret
  · obtain ⟨k, change⟩ := change
    cases hkind
    cases change with
    | added s => exact .refl _
    | updated old new => exact .refl _
    | deleted s =>
        rw [callsOf_eq, callsOf_eq]
        exact ((Controller.secretDeleted_of_alike h s.ref).map _).append_right _
  · rw [callsOf_of_react h failures (Controller.react_of_alike h change hkind)]

end Rehearsal

namespace IngressVersion

/-- A document that can be read in both versions is seen as the same ingress. It makes no difference
to the controller in which version it learns of a change of an ingress, nor in which version each of
the ingresses of the cluster is shown: it makes the same calls. If a secret was deleted, the order
in which it asks for it may be another one. -/
theorem same_decisions :
    (∀ (j : Json) (i : Ingress) (l : LegacyIngress), Ingress.ofJson? j = some i →
      LegacyIngress.ofJson? j = some l → IngressView.ofIngress i = IngressView.ofLegacy l) ∧
    ∀ (s t : Snapshots) (ingresses : List (List (String × Json))),
      s.Shows ingresses → t.Shows ingresses →
      (∀ k, k ≠ .ingress → k ≠ .legacyIngress → s.get k = t.get k) →
      ∀ (name : String) (failures : List Bool),
        (∀ (v v' : IngressVersion) (change : Change (List (String × Json)))
          (c : Change v.kind.Object) (c' : Change v'.kind.Object),
          v.readChange? change = some c → v'.readChange? change = some c' →
          Rehearsal.callsOf ⟨name, s.cache⟩ failures ⟨v.kind, c⟩ =
            Rehearsal.callsOf ⟨name, t.cache⟩ failures ⟨v'.kind, c'⟩) ∧
        ∀ change : KindChange,
          (Rehearsal.callsOf ⟨name, s.cache⟩ failures change).Perm
            (Rehearsal.callsOf ⟨name, t.cache⟩ failures change) ∧
          (change.kind ≠ .secret → Rehearsal.callsOf ⟨name, s.cache⟩ failures change =
            Rehearsal.callsOf ⟨name, t.cache⟩ failures change) := by
  refine ⟨fun j i l hi hl => ?_, fun s t ingresses hs ht hothers name failures => ?_⟩
  · obtain ⟨j', hj, -⟩ := Option.bind_eq_some_iff.1 hi
    obtain ⟨ms, rfl, -⟩ := asObject_eq_some_iff.1 hj
    exact (same_ingress rfl rfl hi hl).2
  · have halike := Snapshots.alike_cache hs ht hothers
    refine ⟨fun v v' change c c' hc hc' => ?_, fun change =>
      ⟨Rehearsal.callsOf_perm halike failures change, fun hkind =>
        Rehearsal.callsOf_of_react halike failures (Controller.react_of_alike halike change hkind)⟩⟩
    refine Rehearsal.callsOf_of_react halike failures ?_
    rw [Controller.react_ingressVersion, Controller.react_ingressVersion,
      same_of_readChange hc hc', Controller.onIngress_of_alike halike]

/-- The members of an opted-in ingress of a known class. Its class is null, one of its TLS entries
names a secret, and the other one is empty. -/
def mixedMembers : List (String × Json) :=
  [("metadata", .object
      [("name", .string "web"), ("namespace", .string "default"), ("labels", .null),
        ("annotations", .object
          [(Wire.enableKey, .string "true"), (Wire.legacyClassKey, .string "nginx")])]),
    ("spec", .object
      [("ingressClassName", .null), ("rules", .null), ("unknown", .bool true),
        ("tls", .array
          [.object [("hosts", .strings ["B.com", "a.com"]), ("secretName", .string "shared")],
            .object [("secretName", .null)]])])]

/-- What it is read as in version `v1`. -/
def mixedIngress : Ingress := (Ingress.ofJson? (v1.document mixedMembers)).getD default

/-- What it is read as in version `v1beta1`. -/
def mixedLegacyIngress : LegacyIngress :=
  (LegacyIngress.ofJson? (v1beta1.document mixedMembers)).getD default

/-- The snapshots that hold only one ingress, in a version. -/
def aloneIn (v : IngressVersion) (o : v.kind.Object) : Snapshots :=
  (PerKind.ofFn fun _ => .empty).set v.kind (Snapshot.empty.insert ⟨some "default", "web"⟩ o)

/-- When the secret of the ingress is deleted, the controller asks for it in either version. -/
theorem same_decisions_mixed :
    v1.read? mixedMembers = some mixedIngress ∧
    v1beta1.read? mixedMembers = some mixedLegacyIngress ∧
    (Rehearsal.callsOf ⟨"certpilot", (aloneIn v1 mixedIngress).cache⟩ []
      Rehearsal.sharedDeleted).filterMap Rehearsal.HandlerCall.request? =
        [.ofHosts ["a.com", "b.com"] World.sharedSecret] ∧
    (Rehearsal.callsOf ⟨"certpilot", (aloneIn v1 mixedIngress).cache⟩ []
      Rehearsal.sharedDeleted).Perm
      (Rehearsal.callsOf ⟨"certpilot", (aloneIn v1beta1 mixedLegacyIngress).cache⟩ []
        Rehearsal.sharedDeleted) := by
  have hv1 : v1.read? mixedMembers = some mixedIngress := rfl
  have hv1beta1 : v1beta1.read? mixedMembers = some mixedLegacyIngress := rfl
  refine ⟨hv1, hv1beta1, by decide +kernel, ?_⟩
  obtain ⟨-, hcalls⟩ := same_decisions
  refine ((hcalls _ _ [mixedMembers] ⟨[mixedMembers], [], .refl _, rfl, rfl⟩
    ⟨[], [mixedMembers], .refl _, rfl, rfl⟩ (fun k hk hk' => ?_) _ _).2 _).1
  cases k with
  | ingress => exact absurd rfl hk
  | legacyIngress => exact absurd rfl hk'
  | _ => rfl

end IngressVersion

end IngressTls
