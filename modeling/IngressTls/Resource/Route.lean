import IngressTls.Resource.Ingress

set_option autoImplicit false

/-! # Ingress routes

The route type of the Traefik proxy, as far as it says which hosts to secure: the match
rules and the TLS section.
-/

namespace IngressTls

/-- A domain with its alternative names. -/
structure RouteDomain where
  /-- The main domain. -/
  main : String
  /-- The alternative names. -/
  sans : List String
  deriving DecidableEq, Repr

/-- The TLS section of a route. -/
structure RouteTls where
  /-- The secret to store the certificate in. -/
  secretName : Option String
  /-- The domains to cover; if there are none, the hosts of the match rules count. -/
  domains : List RouteDomain
  deriving DecidableEq, Repr

/-- A routing rule. -/
structure RouteRule where
  /-- The match rule. -/
  matchRule : String
  /-- The kind of the rule. -/
  kind : Option String
  deriving DecidableEq, Repr

/-- The specification of a route. -/
structure RouteSpec where
  /-- The entry points the rules are attached to. -/
  entryPoints : List String
  /-- The rules. -/
  routes : List RouteRule
  /-- The TLS section. -/
  tls : Option RouteTls
  deriving DecidableEq, Repr, Inhabited

/-- A route. -/
structure IngressRoute where
  /-- The metadata. -/
  metadata : Metadata
  /-- The specification. -/
  spec : RouteSpec
  deriving Inhabited

namespace RouteDomain

/-- Reads a domain. -/
def ofJson? (j : Json) : Option RouteDomain := do
  let j ← j.asRecord ["main", "sans"]
  let main ← j.defaulted "main" Json.string? ""
  let sans ← j.defaulted "sans" Json.texts? []
  return ⟨main, sans⟩

/-- Writes a domain. -/
def toJson (d : RouteDomain) : Json :=
  Json.record [Json.always "main" (.string d.main), Json.nonempty "sans" .string d.sans]

end RouteDomain

namespace RouteTls

/-- Reads a TLS section. -/
def ofJson? (j : Json) : Option RouteTls := do
  let j ← j.asRecord ["secretName", "domains"]
  let secretName ← j.optional "secretName" Json.string?
  let domains ← j.defaulted "domains" (Json.listOf? RouteDomain.ofJson?) []
  return ⟨secretName, domains⟩

/-- Writes a TLS section. -/
def toJson (t : RouteTls) : Json :=
  Json.record
    [Json.present "secretName" .string t.secretName,
     Json.nonempty "domains" RouteDomain.toJson t.domains]

end RouteTls

namespace RouteRule

/-- Reads a rule. -/
def ofJson? (j : Json) : Option RouteRule := do
  let j ← j.asRecord ["match", "kind"]
  let matchRule ← j.required "match" Json.string?
  let kind ← j.optional "kind" Json.string?
  return ⟨matchRule, kind⟩

/-- Writes a rule. -/
def toJson (r : RouteRule) : Json :=
  Json.record [Json.always "match" (.string r.matchRule), Json.present "kind" .string r.kind]

end RouteRule

namespace RouteSpec

/-- Reads a specification. -/
def ofJson? (j : Json) : Option RouteSpec := do
  let j ← j.asRecord ["entryPoints", "routes", "tls"]
  let entryPoints ← j.defaulted "entryPoints" Json.texts? []
  let routes ← j.defaulted "routes" (Json.listOf? RouteRule.ofJson?) []
  let tls ← j.optional "tls" RouteTls.ofJson?
  return ⟨entryPoints, routes, tls⟩

/-- Writes a specification. -/
def toJson (s : RouteSpec) : Json :=
  Json.record
    [Json.nonempty "entryPoints" .string s.entryPoints,
     Json.always "routes" (.array (s.routes.map RouteRule.toJson)),
     Json.present "tls" RouteTls.toJson s.tls]

end RouteSpec

namespace IngressRoute

/-- Reads a route. -/
def ofJson? (j : Json) : Option IngressRoute := do
  let j ← j.asRecord ["metadata", "spec"]
  let metadata ← j.required "metadata" Metadata.ofJson?
  let spec ← j.required "spec" RouteSpec.ofJson?
  return ⟨metadata, spec⟩

/-- Writes a route. -/
def toJson (r : IngressRoute) : Json :=
  resourceJson "traefik.containo.us/v1alpha1" "IngressRoute" r.metadata.toJson r.spec.toJson

end IngressRoute

end IngressTls
