import IngressTls.Error
import IngressTls.NameSet
import IngressTls.Text.Split
import IngressTls.Text.Uri

set_option autoImplicit false

/-! # The served API surface

Which of the watched kinds a cluster serves. Where both versions of a networking kind are
served, the newer one is used and the older one counts as not served.

Discovery asks the API server for its groups, then for each version of each group, then for
the core versions. It fails at the first of these requests that is refused, or that cannot be
made because the name of a group or a version cannot stand in a path, or at which the server
lists nothing.
-/

namespace IngressTls

/-- A kind in a version of an API group. -/
structure ServedKind where
  /-- The API group. -/
  group : String
  /-- The version. -/
  version : String
  /-- The kind. -/
  kind : String
  deriving DecidableEq, Repr

/-- The kinds to watch, as far as a cluster serves them. -/
structure Surface where
  /-- Ingresses of version `v1`. -/
  ingress : Bool
  /-- Ingresses of version `v1beta1`, where `v1` is not served. -/
  legacyIngress : Bool
  /-- Ingress classes of version `v1`. -/
  ingressClass : Bool
  /-- Ingress classes of version `v1beta1`, where `v1` is not served. -/
  legacyClass : Bool
  /-- Routes. -/
  route : Bool
  /-- Platform classes. -/
  platformClass : Bool
  deriving DecidableEq, Repr

namespace Surface

/-- The API group of ingresses and their classes. -/
def networkingGroup : String := "networking.k8s.io"

/-- The API group of routes. -/
def routeGroup : String := "traefik.containo.us"

/-- The API group of platform classes. -/
def platformGroup : String := "certpilot.dev"

/-- The surface of a cluster that serves given kinds. -/
def ofServed (served : ServedKind → Bool) : Surface :=
  let ingress := served ⟨networkingGroup, "v1", "Ingress"⟩
  let ingressClass := served ⟨networkingGroup, "v1", "IngressClass"⟩
  { ingress
    legacyIngress := !ingress && served ⟨networkingGroup, "v1beta1", "Ingress"⟩
    ingressClass
    legacyClass := !ingressClass && served ⟨networkingGroup, "v1beta1", "IngressClass"⟩
    route := served ⟨routeGroup, "v1alpha1", "IngressRoute"⟩
    platformClass := served ⟨platformGroup, "v1alpha1", "IngressClass"⟩ }

/-- What discovery asks for, in order: groups by name, their versions as they are listed. -/
def discoveryTargets (served : List ServedKind) : List String :=
  let groups := (NameSet.ofList (served.map ServedKind.group)).toList
  let versions := fun group =>
    ((served.filter fun s => s.group = group).map ServedKind.version).eraseDups
  "/apis" :: groups.flatMap (fun g => (versions g).map fun v => s!"/apis/{g}/{v}") ++
    ["/api", "/api/v1"]

/-- Whether the server lists anything at a path: its groups, a version of a group, where neither
name holds a slash, or the core versions. -/
def isListed (path : String) : Bool :=
  match (Text.splitAt '/' path.toList).map String.ofList with
  | ["", "apis", _, _] => true
  | _ => ["/apis", "/api", "/api/v1"].contains path

/-- Asks for a target. `refuses` says how the server refuses a path; what it answers at a path
where it lists nothing cannot be read. -/
def ask (refuses : String → Option ApiStatus) (target : String) : Except Error Unit :=
  let path := Text.pathPart target
  if (Text.uriFault? target.toUTF8.toList).isSome then .error (.api .badRequest)
  else match refuses path with
  | some status => .error (.api (.refused status))
  | none => if isListed path then .ok () else .error (.api .unreadable)

/-- Discovers the surface of a cluster. -/
def discover (served : List ServedKind) (refuses : String → Option ApiStatus) :
    Except Error Surface := do
  (discoveryTargets served).forM (ask refuses)
  return ofServed served.contains

end Surface

end IngressTls
