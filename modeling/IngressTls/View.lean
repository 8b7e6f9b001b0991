import IngressTls.Bookkeeping
import IngressTls.HostRule
import IngressTls.Resource.IngressClass
import IngressTls.Resource.Route

set_option autoImplicit false

/-! # Views of resources

What the controller knows of a resource, whichever type and version it comes from: who it
is, which secrets its TLS blocks name and for which hosts, the controller of a class, the
owner of a secret.
-/

namespace IngressTls

/-- A set of hosts to be covered by the certificate in one secret. -/
structure TlsBlock where
  /-- The hosts. -/
  domains : DomainSet
  /-- The name of the secret; empty if none is named. -/
  secretName : String
  deriving DecidableEq

namespace TlsBlock

/-- The block for a collection of hosts. -/
def ofHosts (hosts : List String) (secretName : Option String) : TlsBlock :=
  ⟨DomainSet.ofHosts hosts, secretName.getD ""⟩

/-- Whether the block asks for anything. -/
def isActionable (b : TlsBlock) : Bool := !b.domains.isEmpty && b.secretName ≠ ""

end TlsBlock

/-- Who a resource is. -/
structure ResourceMeta where
  /-- The namespace, or the empty text. -/
  ns : String
  /-- The name. -/
  name : String
  /-- The version in the store. -/
  resourceVersion : Option String
  /-- The annotations. -/
  annotations : Table String

namespace ResourceMeta

/-- Who the object with some metadata is. -/
def ofMetadata (m : Metadata) : ResourceMeta :=
  ⟨m.nsOrEmpty, m.displayName, m.resourceVersion, m.annotations.getD .empty⟩

/-- Whether the resource asks for certificates. -/
def isOptedIn (m : ResourceMeta) : Bool := Wire.isOptedIn m.annotations.find?

end ResourceMeta

/-- A resource that names secrets for its hosts. -/
structure SecuredView where
  /-- Who it is. -/
  info : ResourceMeta
  /-- Its TLS blocks. -/
  blocks : List TlsBlock

namespace SecuredView

/-- The names of the secrets of its blocks. -/
def secretNames (v : SecuredView) : NameSet :=
  NameSet.ofList ((v.blocks.map TlsBlock.secretName).filter (· ≠ ""))

/-- Its blocks that name a given secret. -/
def blocksFor (v : SecuredView) (secretName : String) : List TlsBlock :=
  v.blocks.filter fun b => b.secretName = secretName

end SecuredView

/-- An ingress of either version. -/
structure IngressView where
  /-- Who it is. -/
  info : ResourceMeta
  /-- The class that its specification names. -/
  className : Option String
  /-- Its TLS blocks. -/
  tls : List TlsBlock

namespace IngressView

/-- The class that its annotation names. -/
def legacyClass? (v : IngressView) : Option String :=
  v.info.annotations.find? Wire.legacyClassKey

/-- The class that counts: the one of the specification, else the one of the annotation; an
empty name is no class. -/
def effectiveClass? (v : IngressView) : Option String :=
  (v.className.or v.legacyClass?).filter (· ≠ "")

/-- The ingress as a resource that names secrets. -/
def secured (v : IngressView) : SecuredView := ⟨v.info, v.tls⟩

/-- The view of an ingress of version `v1`. -/
def ofIngress (i : Ingress) : IngressView :=
  ⟨.ofMetadata i.metadata, i.className,
    i.tls.map fun e => .ofHosts (e.hosts.getD []) e.secretName⟩

/-- The view of an ingress of version `v1beta1`. -/
def ofLegacy (i : LegacyIngress) : IngressView :=
  ⟨.ofMetadata i.metadata, i.spec.className,
    i.spec.tls.map fun e => .ofHosts e.hosts e.secretName⟩

end IngressView

/-- A route. -/
structure RouteView where
  /-- Who it is. -/
  info : ResourceMeta
  /-- Its TLS block, if it has a TLS section. -/
  tls : Option TlsBlock

namespace RouteView

/-- The route as a resource that names secrets. -/
def secured (v : RouteView) : SecuredView := ⟨v.info, v.tls.toList⟩

/-- The hosts of a TLS section: its domains, or the hosts of the match rules if all domains
are blank. -/
def hostsOf (spec : RouteSpec) (tls : RouteTls) : List String :=
  let explicit := tls.domains.flatMap fun d => d.main :: d.sans
  if explicit.all fun h => (Text.trimChars h.toList).isEmpty then
    spec.routes.flatMap fun r => HostRule.parse r.matchRule
  else explicit

/-- The view of a route. -/
def ofRoute (r : IngressRoute) : RouteView :=
  ⟨.ofMetadata r.metadata,
    r.spec.tls.map fun tls => .ofHosts (hostsOf r.spec tls) tls.secretName⟩

end RouteView

/-- The type that a class comes from. -/
inductive ClassSource where
  /-- The platform's own type. -/
  | platform
  /-- The networking type of version `v1`. -/
  | v1
  /-- The networking type of version `v1beta1`. -/
  | v1beta1
  deriving DecidableEq, Repr

/-- An ingress class. -/
structure ClassView where
  /-- The name. -/
  name : String
  /-- The controller that implements it. -/
  controller : String
  /-- Whether it serves ingresses without a class. -/
  isDefault : Bool
  /-- The type it comes from. -/
  source : ClassSource
  deriving DecidableEq, Repr

namespace ClassView

/-- Whether an object is annotated as the default class. -/
def isDefaultClass (m : Metadata) : Bool :=
  m.annotated? Wire.defaultClassKey = some "true"

/-- The view of a platform class. -/
def ofPlatform (c : PlatformClass) : ClassView :=
  ⟨c.metadata.displayName, c.spec.controller, isDefaultClass c.metadata, .platform⟩

/-- The view of a class of version `v1`. -/
def ofClass (c : IngressClass) : ClassView :=
  ⟨c.metadata.displayName, c.controller.getD "", isDefaultClass c.metadata, .v1⟩

/-- The view of a class of version `v1beta1`. -/
def ofLegacy (c : LegacyClass) : ClassView :=
  ⟨c.metadata.displayName, c.spec.controller, isDefaultClass c.metadata, .v1beta1⟩

end ClassView

/-- A secret. -/
structure SecretView where
  /-- The place of the secret. -/
  ref : SecretRef
  /-- The controller that its label names. -/
  managedBy : Option String
  /-- The hosts that its annotation records. -/
  domains : Option DomainSet
  deriving DecidableEq

namespace SecretView

/-- Whether a controller owns the secret. -/
def isManagedBy (v : SecretView) (controllerName : String) : Bool :=
  v.managedBy = some controllerName

/-- The view of a secret. -/
def ofSecret (s : Secret) : SecretView :=
  ⟨s.ref, s.metadata.label? Wire.managedByLabel,
    (s.metadata.annotated? Wire.domainsKey).map DomainSet.ofJoined⟩

end SecretView

end IngressTls
