import IngressTls.Proofs.Cluster.Calls

set_option autoImplicit false

/-! # What is asked for

A TLS block wants a certificate if it names hosts and a secret, and the secret is not there or is
the controller's own but for other hosts. The controller asks for what the blocks of a resource
want when it learns of the resource or of a new version of it, provided that it heeds the
resource; and for what the blocks of all heeded resources want that name a secret, when it learns
that the secret was deleted. Nothing else makes it ask, and none of its calls is about a secret
that the cache shows as somebody else's.

Main statement: `asks_exactly`.
-/

namespace IngressTls

/-- The blocks by which heeded resources name a secret: those of the ingresses, then those of the
routes. -/
def ClusterCache.demandsFor (c : ClusterCache) (s : SecretRef) : List TlsBlock :=
  ((c.ingresses s.ns).filter fun v => v.info.isOptedIn && c.serves v).flatMap
      (fun v => v.tls.filter fun b => b.secretName = s.name) ++
    ((c.routes s.ns).filter fun v => v.info.isOptedIn).flatMap
      fun v => v.tls.toList.filter fun b => b.secretName = s.name

namespace Controller

variable {c : Controller} {ns : String} {b : TlsBlock}

/-- A block wants a certificate. -/
structure Wants (c : Controller) (ns : String) (b : TlsBlock) : Prop where
  /-- It is for some hosts. -/
  hosts : b.domains.hosts ≠ []
  /-- It names a secret. -/
  name : b.secretName ≠ ""
  /-- The secret is not there, or the controller owns it and it is for other hosts. -/
  unmet : c.cache.secret ⟨ns, b.secretName⟩ = none ∨ ∃ v,
    c.cache.secret ⟨ns, b.secretName⟩ = some v ∧ v.isManagedBy c.name = true ∧
      v.domains ≠ some b.domains

theorem isActionable_iff : b.isActionable = true ↔ b.domains.hosts ≠ [] ∧ b.secretName ≠ "" := by
  rw [TlsBlock.isActionable, Bool.and_eq_true, decide_eq_true_iff, DomainSet.isEmpty,
    Bool.not_eq_true', List.isEmpty_eq_false_iff]

theorem wants_of_request? {r : Request} (h : c.request? ns b = some r) : c.Wants ns b := by
  rw [request?] at h
  split at h
  · next hactionable =>
      obtain ⟨hhosts, hname⟩ := isActionable_iff.1 hactionable
      have hunmet := (Option.ite_none_right_eq_some.1 h).1
      refine ⟨hhosts, hname, ?_⟩
      cases hsecret : c.cache.secret ⟨ns, b.secretName⟩ with
      | none => exact Or.inl rfl
      | some v =>
          rw [hsecret] at hunmet
          obtain ⟨hmanaged, hdomains⟩ := Bool.and_eq_true_iff.1 hunmet
          exact Or.inr ⟨v, rfl, hmanaged, of_decide_eq_true hdomains⟩
  · cases h

/-- A block makes the controller ask exactly if it wants a certificate. -/
theorem request?_isSome_iff : (c.request? ns b).isSome = true ↔ c.Wants ns b := by
  constructor
  · intro h
    obtain ⟨r, hr⟩ := Option.isSome_iff_exists.1 h
    exact wants_of_request? hr
  · rintro ⟨hhosts, hname, hnone | ⟨v, hv, hmanaged, hdomains⟩⟩
    · rw [request?_of_absent (isActionable_iff.2 ⟨hhosts, hname⟩) hnone]
      rfl
    · rw [request?_of_stale (isActionable_iff.2 ⟨hhosts, hname⟩) hv hmanaged hdomains]
      rfl

instance (c : Controller) (ns : String) (b : TlsBlock) : Decidable (c.Wants ns b) :=
  decidable_of_iff _ request?_isSome_iff

/-- What a list of blocks of a namespace wants, in their order. -/
def wanted (c : Controller) (ns : String) (bs : List TlsBlock) : List Request :=
  (bs.filter fun b => c.Wants ns b).map fun b => ⟨b.domains, ns, b.secretName⟩

theorem request?_eq (c : Controller) (ns : String) (b : TlsBlock) :
    c.request? ns b = if c.Wants ns b then some ⟨b.domains, ns, b.secretName⟩ else none := by
  cases hr : c.request? ns b with
  | none =>
      refine (if_neg fun h => ?_).symm
      rw [← request?_isSome_iff, hr] at h
      cases h
  | some r => rw [if_pos (wants_of_request? hr), request?_eq_some hr]

theorem requestsOf_eq (c : Controller) (ns : String) (bs : List TlsBlock) :
    c.requestsOf ns bs = c.wanted ns bs := by
  rw [requestsOf, wanted, ← List.filterMap_eq_map, List.filterMap_filter]
  refine List.filterMap_congr fun b _ => ?_
  rw [request?_eq]
  simp

theorem secretDeleted_eq (c : Controller) (s : SecretRef) :
    c.secretDeleted s = c.wanted s.ns (c.cache.demandsFor s) := by
  rw [← requestsOf_eq, secretDeleted, ClusterCache.demandsFor, List.flatMap_append,
    List.flatMap_map, List.flatMap_map]
  rfl

theorem sync_eq (c : Controller) {k : Kind} {o : k.Object} (h : c.cache.heeds k o = true) :
    c.sync k o = c.wanted (k.secured o).info.ns (k.secured o).blocks := by
  rw [sync, if_pos h, requestsOf_eq]

/-- A change of a resource that brings no heeded object asks for nothing. -/
theorem requests_of_unheeded {k : Kind} (hk : k ≠ .secret) {change : Change k.Object}
    (h : ∀ o, KindChange.Brings k o ⟨k, change⟩ → c.cache.heeds k o = false) :
    (c.react ⟨k, change⟩).requests = [] := by
  -- what is brought is not heeded, and a change that brings nothing has nothing to ask for
  have hsync {o : k.Object} (ho : KindChange.Brings k o ⟨k, change⟩) :
      (c.react ⟨k, change⟩).requests = [] := by
    rw [requests_of_brings hk ho, sync, if_neg (by rw [h o ho]; exact Bool.false_ne_true)]
  cases change with
  | added o => exact hsync (Or.inl rfl)
  | deleted o => rw [requests_react hk]; rfl
  | updated old new =>
      by_cases hsame : (k.secured old).SameVersion (k.secured new)
      · rw [requests_react hk]
        show (reconcile _ (.updated (k.secured old) (k.secured new))).requests = []
        rw [reconcile, if_pos ((SecuredView.sameVersion_iff _ _).2 hsame)]
        rfl
      · refine hsync (Or.inr ⟨old, rfl, ?_⟩)
        rw [← SecuredView.sameVersion_iff, Kind.secured_info, Kind.secured_info,
          Bool.not_eq_true] at hsame
        exact hsame

/-- The controller does not ask for a secret that it sees and does not own. -/
theorem managed_of_request? {r : Request} {v : SecretView} (h : c.request? ns b = some r)
    (hv : c.cache.secret r.target = some v) : v.isManagedBy c.name = true := by
  rw [request?_eq_some h] at hv
  rcases (wants_of_request? h).unmet with hnone | ⟨w, hw, hmanaged, -⟩
  · cases hnone.symm.trans hv
  · cases hw.symm.trans hv
    exact hmanaged

end Controller

namespace Rehearsal

/-- No call is about a secret that the controller sees and does not own. -/
theorem managed_of_mem_callsOf {c : Controller} {failures : List Bool} {change : KindChange}
    {call : HandlerCall} {v : SecretView} (hcall : call ∈ callsOf c failures change)
    (hv : c.cache.secret call.target = some v) : v.isManagedBy c.name = true := by
  rw [callsOf_eq] at hcall
  rcases List.mem_append.1 hcall with hasked | hdeletion
  · obtain ⟨r, hr, rfl⟩ := List.mem_map.1 hasked
    obtain ⟨ns, b, hb⟩ := Controller.request?_of_react hr
    exact Controller.managed_of_request? hb hv
  · obtain ⟨s, hs, htarget⟩ := mem_deletionsOf hdeletion
    obtain ⟨⟨w, hw, hmanaged⟩, -⟩ := (c.reclaims_iff s).1 (List.mem_filter.1 hs).2
    have hvw : v = w := by
      rcases htarget with rfl | rfl
      · exact Option.some.inj (hv.symm.trans hw)
      · exact Option.some.inj (hv.symm.trans hw)
    rw [hvw]
    exact hmanaged

/-- The certificates that a change makes the controller ask for, in order: what the blocks of a
heeded resource want that is new or has a new version; what the blocks of heeded resources want
that name a deleted secret; and nothing else. No call is about somebody else's secret. -/
theorem asks_exactly (c : Controller) (failures : List Bool) (change : KindChange) :
    (∀ k o, change.Brings k o → c.cache.heeds k o = true →
      (callsOf c failures change).filterMap HandlerCall.request? =
        c.wanted (k.secured o).info.ns (k.secured o).blocks) ∧
    (∀ secret, change = ⟨.secret, .deleted secret⟩ →
      (callsOf c failures change).filterMap HandlerCall.request? =
        c.wanted secret.ref.ns (c.cache.demandsFor secret.ref)) ∧
    ((∀ k o, change.Brings k o → c.cache.heeds k o = false) →
      (∀ secret, change ≠ ⟨.secret, .deleted secret⟩) →
      (callsOf c failures change).filterMap HandlerCall.request? = []) ∧
    ∀ call ∈ callsOf c failures change, ∀ v, c.cache.secret call.target = some v →
      v.isManagedBy c.name = true := by
  rw [request?_callsOf]
  refine ⟨fun k o hbrings hheeds => ?_, ?_, fun hunheeded hkept => ?_,
    fun call hcall v hv => managed_of_mem_callsOf hcall hv⟩
  · -- a secret is not heeded, so that the object is a resource
    have hk : k ≠ .secret := by
      rintro rfl
      cases hheeds
    rw [Controller.requests_of_brings hk hbrings, c.sync_eq hheeds]
  · rintro secret rfl
    exact c.secretDeleted_eq secret.ref
  · obtain ⟨k, change⟩ := change
    by_cases hk : k = .secret
    · subst hk
      cases change with
      | added secret => rfl
      | updated old new => rfl
      | deleted secret => exact absurd rfl (hkept secret)
    · exact Controller.requests_of_unheeded hk (hunheeded k)

/-! ## An ingress and a route that share a secret -/

/-- A controller that sees an ingress and a route which name the secret `shared`, a secret of its
own for other hosts, and one of somebody else. -/
def sharing : Controller where
  name := "certpilot"
  cache := .ofContents {
    ingresses := [.ofIngress (ingressFor "1" ["other", "shared"])]
    routes := [.ofRoute (World.routeFor "1" "b.com")]
    classes := []
    secrets := [⟨⟨"default", "stale"⟩, some "certpilot", some (.ofHosts ["b.com"])⟩,
      ⟨⟨"default", "users"⟩, none, none⟩] }

/-- The deletion of the secret that both name. -/
def sharedDeleted : KindChange :=
  ⟨.secret, .deleted (managedSecret (.ofHosts [] World.sharedSecret) World.anyCertificate
    "certpilot")⟩

/-- A new version of the ingress asks for a secret that is stale and for one that is not there, and
not for somebody else's. When the shared secret is deleted, the ingress asks before the route. The
deletion of an ingress makes nobody ask. -/
theorem asks_exactly_sharing :
    (callsOf sharing [] ⟨.ingress, .updated (ingressFor "1" [])
      (ingressFor "2" ["users", "stale", "", "new"])⟩).filterMap HandlerCall.request? =
        [.ofHosts ["a.com"] ⟨"default", "stale"⟩, .ofHosts ["a.com"] ⟨"default", "new"⟩] ∧
    (callsOf sharing [] sharedDeleted).filterMap HandlerCall.request? =
        [.ofHosts ["a.com"] World.sharedSecret, .ofHosts ["b.com"] World.sharedSecret] ∧
    (callsOf sharing [] ⟨.ingress, .deleted (ingressFor "1" ["new"])⟩).filterMap
      HandlerCall.request? = [] := by
  have hupdated := (asks_exactly sharing [] ⟨.ingress, .updated (ingressFor "1" [])
    (ingressFor "2" ["users", "stale", "", "new"])⟩).1 .ingress _ (Or.inr ⟨_, rfl, by decide⟩)
    (by decide +kernel)
  have hdeleted := (asks_exactly sharing [] sharedDeleted).2.1 _ rfl
  have hgone := (asks_exactly sharing [] ⟨.ingress, .deleted (ingressFor "1" ["new"])⟩).2.2.1 (by
    rintro k o (h | ⟨old, h, -⟩)
    · cases h
    · cases h) (by
    intro secret h
    cases h)
  exact ⟨hupdated.trans (by decide +kernel), hdeleted.trans (by decide +kernel), hgone⟩

end Rehearsal

end IngressTls
