import IngressTls.Json.Printer
import IngressTls.Json.Yaml
import IngressTls.Surface

set_option autoImplicit false

/-! # Resource definitions

The manifests with which the types of this program are made known to a cluster: names and
scope of each type, and the schema of its specification.
-/

namespace IngressTls

/-- What a schema says about a value besides its type. -/
structure SchemaNote where
  /-- What the value means. -/
  description : Option String
  /-- Whether null may stand for it. -/
  nullable : Bool
  /-- What stands for it if it is missing. -/
  default : Option Json

/-- A schema. -/
inductive Schema where
  /-- A text. -/
  | text (note : SchemaNote)
  /-- A list. -/
  | list (note : SchemaNote) (item : Schema)
  /-- An object with named members, some of them required. -/
  | object (note : SchemaNote) (members : List (String × Schema)) (required : List String)

namespace Schema

/-- A note that only describes. -/
def describes (description : String) : SchemaNote := ⟨some description, false, none⟩

/-- A note about a value that may be null. -/
def mayBeNull (description : String) : SchemaNote := ⟨some description, true, none⟩

/-- A note about a value with a default. -/
def orElse (description : String) (default : Json) : SchemaNote :=
  ⟨some description, false, some default⟩

/-- No note. -/
def bare : SchemaNote := ⟨none, false, none⟩

/-- The members that write a note. -/
def noteMembers (n : SchemaNote) : List (Option (String × Json)) :=
  [n.description.map fun d => ("description", Json.string d),
   if n.nullable then some ("nullable", Json.bool true) else none,
   n.default.map fun d => ("default", d)]

mutual

/-- A schema as a value. -/
def toJson : Schema → Json
  | text note => .object ((noteMembers note ++ [some ("type", Json.string "string")]).filterMap id)
  | list note item =>
    .object ((noteMembers note ++
      [some ("type", Json.string "array"), some ("items", toJson item)]).filterMap id)
  | object note members required =>
    .object ((noteMembers note ++
      [some ("type", Json.string "object"), some ("properties", .object (membersJson members)),
       if required.isEmpty then none else some ("required", Json.strings required)]).filterMap id)

/-- The schemas of the members of an object. -/
def membersJson : List (String × Schema) → List (String × Json)
  | [] => []
  | (name, s) :: rest => (name, toJson s) :: membersJson rest

end

end Schema

/-- A column that a listing shows. -/
structure PrinterColumn where
  /-- The heading. -/
  name : String
  /-- The type of its values. -/
  type : String
  /-- Where the value is found. -/
  jsonPath : String

/-- The definition of a resource type. -/
structure ResourceDefinition where
  /-- The API group. -/
  group : String
  /-- The version. -/
  version : String
  /-- The kind. -/
  kind : String
  /-- The name of the type in the schema. -/
  title : String
  /-- The name of many. -/
  plural : String
  /-- Short names. -/
  shortNames : List String
  /-- Whether objects live in namespaces. -/
  namespaced : Bool
  /-- The columns of a listing. -/
  columns : List PrinterColumn
  /-- The schema of the specification. -/
  spec : Schema

namespace ResourceDefinition

/-- The schema of a whole object. -/
def objectSchema (d : ResourceDefinition) : Json :=
  .object
    [("description", .string s!"Auto-generated derived type for {d.title}Spec via \x60CustomResource\x60"),
     ("properties", .object [("spec", d.spec.toJson)]),
     ("required", Json.strings ["spec"]),
     ("title", .string d.title),
     ("type", .string "object")]

/-- The manifest of a definition. -/
def manifest (d : ResourceDefinition) : Json :=
  let column := fun c : PrinterColumn => Json.object
    [("jsonPath", .string c.jsonPath), ("name", .string c.name), ("type", .string c.type)]
  .object
    [("apiVersion", .string "apiextensions.k8s.io/v1"),
     ("kind", .string "CustomResourceDefinition"),
     ("metadata", .object [("name", .string s!"{d.plural}.{d.group}")]),
     ("spec", .object
       [("group", .string d.group),
        ("names", .object
          [("categories", .array []),
           ("kind", .string d.kind),
           ("plural", .string d.plural),
           ("shortNames", Json.strings d.shortNames),
           ("singular", .string d.kind.toLower)]),
        ("scope", .string (if d.namespaced then "Namespaced" else "Cluster")),
        ("versions", .array [.object
          [("additionalPrinterColumns", .array (d.columns.map column)),
           ("name", .string d.version),
           ("schema", .object [("openAPIV3Schema", d.objectSchema)]),
           ("served", .bool true),
           ("storage", .bool true),
           ("subresources", .object [])]])])]

/-- The manifest as YAML, with the members of every object in the order of their names. -/
def manifestYaml (d : ResourceDefinition) : String := d.manifest.sorted.yaml

open Schema

/-- The definition of platform classes. -/
def platformClass : ResourceDefinition where
  group := Surface.platformGroup
  version := "v1alpha1"
  kind := "IngressClass"
  title := "PlatformIngressClass"
  plural := "ingressclasses"
  shortNames := ["pic"]
  namespaced := false
  columns :=
    [⟨"Controller", "string", ".spec.controller"⟩,
     ⟨"Age", "date", ".metadata.creationTimestamp"⟩]
  spec := .object (describes "Specification of a platform IngressClass")
    [("controller", .text (describes
      "Controller implementing this class, e.g. `traefik.io/ingress-controller`"))]
    ["controller"]

/-- The definition of classes of version `v1beta1`. -/
def legacyClass : ResourceDefinition where
  group := Surface.networkingGroup
  version := "v1beta1"
  kind := "IngressClass"
  title := "IngressClassV1Beta1"
  plural := "ingressclasses"
  shortNames := []
  namespaced := false
  columns := []
  spec := .object (describes "Specification of a v1beta1 IngressClass")
    [("controller", .text (orElse "Controller implementing this class" (.string "")))]
    []

/-- The definition of ingresses of version `v1beta1`. -/
def legacyIngress : ResourceDefinition where
  group := Surface.networkingGroup
  version := "v1beta1"
  kind := "Ingress"
  title := "IngressV1Beta1"
  plural := "ingresses"
  shortNames := []
  namespaced := true
  columns := []
  spec := .object (describes "Specification of a v1beta1 Ingress")
    [("ingressClassName", .text (mayBeNull "Name of the IngressClass")),
     ("tls", .list (describes "TLS configuration")
       (.object (describes "TLS entry of a v1beta1 Ingress")
         [("hosts", .list (describes "Hosts covered by the certificate") (.text bare)),
          ("secretName", .text (mayBeNull "Secret holding the certificate"))]
         []))]
    []

/-- The definition of routes. -/
def route : ResourceDefinition where
  group := Surface.routeGroup
  version := "v1alpha1"
  kind := "IngressRoute"
  title := "IngressRoute"
  plural := "ingressroutes"
  shortNames := []
  namespaced := true
  columns := []
  spec := .object (describes "Specification of a Traefik IngressRoute")
    [("entryPoints", .list (describes "Entry points the routes are attached to") (.text bare)),
     ("routes", .list (orElse "Routing rules" (.array []))
       (.object (describes "A single routing rule")
         [("kind", .text (mayBeNull "Rule kind, usually `Rule`")),
          ("match", .text (describes
            "Match expression, e.g. ``Host(`a.example.com`) && PathPrefix(`/api`)``"))]
         ["match"])),
     ("tls", .object (mayBeNull "TLS configuration")
       [("domains", .list
          (describes "Explicit certificate domains; when empty, hosts come from the match rules")
          (.object (describes "Main domain plus subject alternative names")
            [("main", .text (orElse "Main domain" (.string ""))),
             ("sans", .list (describes "Subject alternative names") (.text bare))]
            [])),
        ("secretName", .text (mayBeNull "Secret holding the certificate"))]
       [])]
    []

end ResourceDefinition

end IngressTls
