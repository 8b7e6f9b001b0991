import IngressTls.Proofs.Cluster.Demanders

set_option autoImplicit false

/-! # What satisfies a demand

When the certificate that a TLS block asked for has been stored, the controller finds the secret
with the hosts that are recorded on it, and compares them with the hosts of the block. They are the
same, and the block asks for nothing more, unless one of its hosts holds a comma: such a host is
read back as several, and so every version of the resource asks for the certificate again.

The server checks the hosts of an ingress, but nobody checks the domains of a route.

Main statement: `Controller.stored_satisfies_iff`.
-/

namespace IngressTls

namespace Controller

variable {c : Controller} {cache : ClusterCache} {ns : String} {b : TlsBlock} {r : Request}
  {certificate : Certificate}

theorem isActionable_of_request? (h : c.request? ns b = some r) : b.isActionable = true := by
  by_contra hnot
  rw [request?, if_neg hnot] at h
  cases h

/-- What a block asks for when the controller finds the secret that was stored for it. -/
theorem request?_of_shown (hactionable : b.isActionable = true)
    (hshown : c.cache.secret ⟨ns, b.secretName⟩ = some (.ofSecret
      (managedSecret ⟨b.domains, ns, b.secretName⟩ certificate c.name))) :
    c.request? ns b = if ∀ host ∈ b.domains.hosts, ',' ∉ host.toList then none
      else some ⟨b.domains, ns, b.secretName⟩ := by
  have howner : (SecretView.ofSecret
      (managedSecret ⟨b.domains, ns, b.secretName⟩ certificate c.name)).isManagedBy c.name =
        true :=
    isManagedBy_managedSecret ⟨b.domains, ns, b.secretName⟩ certificate c.name
  split
  · next hcommas =>
      -- the recorded hosts are those of the block
      have hdomains := domains_managedSecret ⟨b.domains, ns, b.secretName⟩ certificate c.name
      rw [DomainSet.ofJoined_joined hcommas] at hdomains
      simp [request?, hactionable, hshown, hdomains]
  · next hcommas =>
      refine request?_of_stale hactionable hshown howner fun hdomains => hcommas ?_
      rw [domains_managedSecret, Option.some.injEq] at hdomains
      exact DomainSet.ofJoined_joined_iff.1 hdomains

/-- **What satisfies a demand.** A TLS block of a resource has asked for a certificate, the
certificate has been stored, and the controller finds the secret as it was written. Then the block
asks for nothing more exactly if none of its hosts holds a comma. Otherwise it asks for the very
same certificate again, and so does every further version of the resource that the controller
heeds. -/
theorem stored_satisfies_iff {k : Kind} {o : k.Object} (hblock : b ∈ (k.secured o).blocks)
    (hasked : c.request? (k.secured o).info.ns b = some r)
    (hstored : cache.secret r.target =
      some (.ofSecret (managedSecret r certificate c.name))) :
    (({ c with cache } : Controller).request? (k.secured o).info.ns b = none ↔
      ∀ host ∈ b.domains.hosts, ',' ∉ host.toList) ∧
    ((∃ host ∈ b.domains.hosts, ',' ∈ host.toList) →
      ({ c with cache } : Controller).request? (k.secured o).info.ns b = some r ∧
      ∀ change : KindChange, change.Brings k o → cache.heeds k o = true →
        r ∈ (({ c with cache } : Controller).react change).requests) := by
  have hactionable := isActionable_of_request? hasked
  cases request?_eq_some hasked
  have hagain := request?_of_shown (c := { c with cache }) hactionable hstored
  constructor
  · rw [hagain, ite_eq_left_iff]
    exact ⟨fun h => by_contra fun hnot => Option.some_ne_none _ (h hnot), fun h hnot => absurd h hnot⟩
  · rintro ⟨host, hhost, hcomma⟩
    rw [if_neg fun hcommas => hcommas host hhost hcomma] at hagain
    refine ⟨hagain, fun change hbrings hheeded => ?_⟩
    have hk : k ≠ .secret := by
      rintro rfl
      cases hblock
    rw [requests_of_brings hk hbrings, sync, if_pos hheeded]
    exact mem_requestsOf.2 ⟨b, hblock, hagain⟩

/-! ## A route for one host, and for one that holds a comma -/

/-- The controller of a cluster whose cache shows some secrets and nothing else. -/
def showing (secrets : List SecretView) : Controller :=
  ⟨"certpilot", .ofContents ⟨[], [], [], secrets⟩⟩

/-- The request for the secret that a route names for a host. -/
def routeRequest (host : String) : Request := .ofHosts [host] World.sharedSecret

/-- What the cache shows of the secret that was stored for it. -/
def routeSecret (host : String) : SecretView :=
  .ofSecret (managedSecret (routeRequest host) World.anyCertificate "certpilot")

theorem secret_showing (host : String) :
    (showing [routeSecret host]).cache.secret World.sharedSecret = some (routeSecret host) := by
  have hplace : decide ((routeSecret host).ref = World.sharedSecret) = true := decide_eq_true rfl
  show [routeSecret host].find? (fun v => decide (v.ref = World.sharedSecret)) = _
  exact List.find?_cons_of_pos hplace

/-- The certificate of a route whose domain is in capitals and between blanks satisfies it. The one
of a route whose domain holds a comma does not, and the next version of the route asks for it
again. -/
theorem stored_satisfies_iff_routes :
    (showing []).request? "default" (.ofHosts [" A.COM "] (some "shared")) =
      some (routeRequest " A.COM ") ∧
    (showing [routeSecret " A.COM "]).request? "default" (.ofHosts [" A.COM "] (some "shared")) =
      none ∧
    (showing []).request? "default" (.ofHosts ["a.com,b.com"] (some "shared")) =
      some (routeRequest "a.com,b.com") ∧
    routeRequest "a.com,b.com" ∈ ((showing [routeSecret "a.com,b.com"]).react ⟨.route,
      .updated (World.routeFor "1" "a.com,b.com") (World.routeFor "2" "a.com,b.com")⟩).requests := by
  have hasked (host : String) (h : (TlsBlock.ofHosts [host] (some "shared")).isActionable = true) :
      (showing []).request? "default" (.ofHosts [host] (some "shared")) =
        some (routeRequest host) :=
    request?_of_absent h rfl
  have hcapitals := hasked " A.COM " (by decide +kernel)
  have hcomma := hasked "a.com,b.com" (by decide +kernel)
  refine ⟨hcapitals, ?_, hcomma, ?_⟩
  · have hblock : TlsBlock.ofHosts [" A.COM "] (some "shared") ∈
        (Kind.secured .route (World.routeFor "1" " A.COM ")).blocks := by decide +kernel
    exact (stored_satisfies_iff hblock hcapitals (secret_showing _)).1.2 (by decide +kernel)
  · have hblock : TlsBlock.ofHosts ["a.com,b.com"] (some "shared") ∈
        (Kind.secured .route (World.routeFor "2" "a.com,b.com")).blocks := by decide +kernel
    have hagain := (stored_satisfies_iff hblock hcomma (secret_showing _)).2 (by decide +kernel)
    exact hagain.2 _ (Or.inr ⟨_, rfl, rfl⟩) rfl

/-- It is not true that the certificate which a block asked for satisfies it: a domain of a route
that holds a comma is read back as two. -/
theorem stored_can_be_stale :
    ¬ ∀ (c : Controller) (cache : ClusterCache) (k : Kind) (o : k.Object) (b : TlsBlock)
      (r : Request) (certificate : Certificate), b ∈ (k.secured o).blocks →
      b.isActionable = true →
      c.request? (k.secured o).info.ns b = some r →
      cache.secret r.target = some (.ofSecret (managedSecret r certificate c.name)) →
      ({ c with cache } : Controller).request? (k.secured o).info.ns b = none := by
  intro h
  let b := TlsBlock.ofHosts ["a.com,b.com"] (some "shared")
  have hactionable : b.isActionable = true := rfl
  have hshown : (showing [routeSecret "a.com,b.com"]).cache.secret ⟨"default", b.secretName⟩ =
      some (.ofSecret (managedSecret ⟨b.domains, "default", b.secretName⟩ World.anyCertificate
        "certpilot")) := secret_showing "a.com,b.com"
  have hnone := h (showing []) (showing [routeSecret "a.com,b.com"]).cache .route
    (World.routeFor "1" "a.com,b.com") b (routeRequest "a.com,b.com") World.anyCertificate
    (List.mem_singleton_self b) hactionable (request?_of_absent hactionable rfl) hshown
  have hagain := request?_of_shown hactionable hshown
  rw [if_neg (by decide +kernel)] at hagain
  exact Option.some_ne_none _ (hagain.symm.trans hnone)

end Controller

end IngressTls
