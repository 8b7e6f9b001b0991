import IngressTls.Change
import IngressTls.ClusterCache

set_option autoImplicit false

/-! # Demand and reclamation

What a change in the cluster asks for. A resource that is new or changed asks for the
certificates of its TLS blocks, unless their secrets already hold them or belong to
somebody else. A resource that is gone, or names fewer secrets than before, gives up the
secrets that no other resource names; a managed secret that is deleted while resources name
it is asked for again.
-/

namespace IngressTls

/-- What a change asks for: certificates to obtain, then secrets to be reclaimed. -/
structure Reaction where
  /-- The requests, in order. -/
  requests : List Request
  /-- The secrets that the resource has given up, in order. -/
  givenUp : List SecretRef
  deriving DecidableEq

/-- A change that asks for nothing. -/
def Reaction.nothing : Reaction := ⟨[], []⟩

/-- The controller: its name, and what it can look up. -/
structure Controller where
  /-- The ownership label of its secrets. -/
  name : String
  /-- The state of the cluster. -/
  cache : ClusterCache

namespace Controller

/-! ## Demand -/

/-- The request that a TLS block gives rise to, if it asks for anything, its secret is not
somebody else's and does not hold the hosts already. -/
def request? (c : Controller) (ns : String) (b : TlsBlock) : Option Request :=
  if b.isActionable then
    let target : SecretRef := ⟨ns, b.secretName⟩
    let unmet := match c.cache.secret target with
      | none => true
      | some s => s.isManagedBy c.name && s.domains ≠ some b.domains
    if unmet then some ⟨b.domains, target⟩ else none
  else none

/-- The requests of a list of blocks. -/
def requestsOf (c : Controller) (ns : String) (bs : List TlsBlock) : List Request :=
  bs.filterMap (c.request? ns)

/-- The requests of an ingress: it must have opted in and be served by a supported
controller. -/
def syncIngress (c : Controller) (v : IngressView) : List Request :=
  if v.info.isOptedIn && c.cache.serves v then c.requestsOf v.info.ns v.tls else []

/-- The requests of a route, which must have opted in. -/
def syncRoute (c : Controller) (v : RouteView) : List Request :=
  if v.info.isOptedIn then c.requestsOf v.info.ns v.tls.toList else []

/-- The requests for a secret that was deleted: those of all resources that name it. -/
def secretDeleted (c : Controller) (s : SecretRef) : List Request :=
  let ingresses := (c.cache.ingresses s.ns).filter fun v => v.info.isOptedIn && c.cache.serves v
  let routes := (c.cache.routes s.ns).filter fun v => v.info.isOptedIn
  let blocks := (ingresses.map IngressView.secured ++ routes.map RouteView.secured).flatMap
    fun v => v.blocksFor s.name
  c.requestsOf s.ns blocks

/-! ## Changes -/

/-- The reaction to the change of a resource that names secrets. A new version that the
store holds to be the same one asks for nothing. -/
def reconcile (sync : List Request) (change : Change SecuredView) : Reaction :=
  let places := fun (v : SecuredView) (names : NameSet) =>
    names.toList.map fun n => (⟨v.info.ns, n⟩ : SecretRef)
  match change with
  | .added _ => ⟨sync, []⟩
  | .deleted v => ⟨[], places v v.secretNames⟩
  | .updated old new =>
    if old.info.resourceVersion.isSome && old.info.resourceVersion = new.info.resourceVersion then
      .nothing
    else
      let kept := if new.info.isOptedIn then new.secretNames else .empty
      ⟨sync, places new (old.secretNames.without kept)⟩

/-- What a change says about the object that is there now. -/
def current {α : Type} : Change α → Option α
  | .added o => some o
  | .updated _ new => some new
  | .deleted _ => none

/-- The reaction to the change of an ingress. -/
def onIngress (c : Controller) (change : Change IngressView) : Reaction :=
  reconcile (((current change).map c.syncIngress).getD []) (change.map IngressView.secured)

/-- The reaction to the change of a route. -/
def onRoute (c : Controller) (change : Change RouteView) : Reaction :=
  reconcile (((current change).map c.syncRoute).getD []) (change.map RouteView.secured)

/-- The reaction to the change of a secret. -/
def onSecret (c : Controller) (change : Change SecretView) : Reaction :=
  match change with
  | .deleted s => ⟨c.secretDeleted s.ref, []⟩
  | _ => .nothing

/-! ## Reclamation -/

/-- Whether a secret that was given up is to be deleted: it exists, is managed, and no
resource names it any more. -/
def reclaims (c : Controller) (s : SecretRef) : Bool :=
  (c.cache.secret s).any (fun v => v.isManagedBy c.name) && !c.cache.isReferenced s

/-- The next secret to delete among those given up, with the ones after it. -/
def nextReclaimed? (c : Controller) : List SecretRef → Option (SecretRef × List SecretRef)
  | [] => none
  | s :: rest => if c.reclaims s then some (s, rest) else c.nextReclaimed? rest

end Controller

end IngressTls
