import IngressTls.Resource.Secret

set_option autoImplicit false

/-! # Ingresses

The two versions of the ingress type. Of the built-in version `v1` every member may be
missing or null, and the members not used here are checked against their shapes. The older
version `v1beta1` keeps only the class name and the TLS entries; its `spec` and `metadata`
must be there, and its lists may be missing but not null.
-/

namespace IngressTls

/-- A TLS entry of an ingress. -/
structure IngressTlsEntry where
  /-- The hosts to cover; not given is not the same as given and empty. -/
  hosts : Option (List String)
  /-- The secret to store the certificate in. -/
  secretName : Option String
  deriving DecidableEq, Repr

/-- An ingress of version `v1`. -/
structure Ingress where
  /-- The metadata. -/
  metadata : Metadata
  /-- The name of the ingress class. -/
  className : Option String
  /-- The TLS entries. -/
  tls : List IngressTlsEntry
  deriving Inhabited

namespace Ingress

/-- The shape of a port of a backend service. -/
def portShape : Shape := .record [("name", .text), ("number", .integer .int32)]

/-- The shape of a backend. -/
def backendShape : Shape :=
  .record
    [("resource", .record [("apiGroup", .text), ("kind", .text), ("name", .text)]),
     ("service", .record [("name", .text), ("port", portShape)])]

/-- The shape of a rule. -/
def ruleShape : Shape :=
  .record
    [("host", .text),
     ("http", .record
       [("paths", .list (.record
         [("backend", backendShape), ("path", .text), ("pathType", .text)]))])]

/-- The shapes of the members of the specification that are not used here. -/
def unusedSpecShapes : List (String × Shape) :=
  [("defaultBackend", backendShape), ("rules", .list ruleShape)]

/-- The shape of the status. -/
def statusShape : Shape :=
  .record
    [("loadBalancer", .record
      [("ingress", .list (.record
        [("hostname", .text), ("ip", .text),
         ("ports", .list (.record
           [("error", .text), ("port", .integer .int32), ("protocol", .text)]))]))])]

/-- Reads a TLS entry. -/
def entry? (j : Json) : Option IngressTlsEntry := do
  let j ← j.asObject
  let hosts ← j.optional "hosts" Json.texts?
  let secretName ← j.optional "secretName" Json.string?
  return ⟨hosts, secretName⟩

/-- Reads the class name and the TLS entries of a specification. -/
def spec? (j : Json) : Option (Option String × List IngressTlsEntry) := do
  let j ← j.asObject
  let className ← j.optional "ingressClassName" Json.string?
  let tls ← j.optional "tls" (Json.listOf? entry?)
  let _ ← Shape.readMembers unusedSpecShapes j
  return (className, tls.getD [])

/-- Reads an ingress. -/
def ofJson? (j : Json) : Option Ingress := do
  let j ← j.asObject
  if isOfKind "networking.k8s.io/v1" "Ingress" j then
    let metadata ← j.optional "metadata" Metadata.ofJson?
    let spec ← j.optional "spec" spec?
    let _ ← Shape.readMembers [("status", statusShape)] j
    let (className, tls) := spec.getD (none, [])
    return ⟨metadata.getD .empty, className, tls⟩
  else none

end Ingress

/-- A TLS entry of a legacy ingress. -/
structure LegacyTlsEntry where
  /-- The hosts to cover. -/
  hosts : List String
  /-- The secret to store the certificate in. -/
  secretName : Option String
  deriving DecidableEq, Repr

/-- The specification of a legacy ingress. -/
structure LegacyIngressSpec where
  /-- The name of the ingress class. -/
  className : Option String
  /-- The TLS entries. -/
  tls : List LegacyTlsEntry
  deriving DecidableEq, Repr, Inhabited

/-- An ingress of version `v1beta1`. -/
structure LegacyIngress where
  /-- The metadata. -/
  metadata : Metadata
  /-- The specification. -/
  spec : LegacyIngressSpec
  deriving Inhabited

/-- A resource with the API version and kind of its type, its metadata and its
specification. -/
def resourceJson (apiVersion kind : String) (metadata spec : Json) : Json :=
  .object
    [("apiVersion", .string apiVersion), ("kind", .string kind), ("metadata", metadata),
     ("spec", spec)]

namespace LegacyTlsEntry

/-- Reads a TLS entry. -/
def ofJson? (j : Json) : Option LegacyTlsEntry := do
  let j ← j.asRecord ["hosts", "secretName"]
  let hosts ← j.defaulted "hosts" Json.texts? []
  let secretName ← j.optional "secretName" Json.string?
  return ⟨hosts, secretName⟩

/-- Writes a TLS entry. -/
def toJson (e : LegacyTlsEntry) : Json :=
  Json.record
    [Json.nonempty "hosts" .string e.hosts, Json.present "secretName" .string e.secretName]

end LegacyTlsEntry

namespace LegacyIngressSpec

/-- Reads a specification. -/
def ofJson? (j : Json) : Option LegacyIngressSpec := do
  let j ← j.asRecord ["ingressClassName", "tls"]
  let className ← j.optional "ingressClassName" Json.string?
  let tls ← j.defaulted "tls" (Json.listOf? LegacyTlsEntry.ofJson?) []
  return ⟨className, tls⟩

/-- Writes a specification. -/
def toJson (s : LegacyIngressSpec) : Json :=
  Json.record
    [Json.present "ingressClassName" .string s.className,
     Json.nonempty "tls" LegacyTlsEntry.toJson s.tls]

end LegacyIngressSpec

namespace LegacyIngress

/-- Reads a legacy ingress. -/
def ofJson? (j : Json) : Option LegacyIngress := do
  let j ← j.asRecord ["metadata", "spec"]
  let metadata ← j.required "metadata" Metadata.ofJson?
  let spec ← j.required "spec" LegacyIngressSpec.ofJson?
  return ⟨metadata, spec⟩

/-- Writes a legacy ingress. -/
def toJson (i : LegacyIngress) : Json :=
  resourceJson "networking.k8s.io/v1beta1" "Ingress" i.metadata.toJson i.spec.toJson

end LegacyIngress

end IngressTls
