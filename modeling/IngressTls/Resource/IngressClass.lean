import IngressTls.Resource.Ingress

set_option autoImplicit false

/-! # Ingress classes

The three types that say which controller implements a class: the platform's own, and the
two versions of the networking type.
-/

namespace IngressTls

/-- An ingress class of version `v1`. -/
structure IngressClass where
  /-- The metadata. -/
  metadata : Metadata
  /-- The controller that implements the class. -/
  controller : Option String
  deriving Inhabited

namespace IngressClass

/-- The shape of a reference to parameters. -/
def parametersShape : Shape :=
  .record
    [("apiGroup", .text), ("kind", .text), ("name", .text), ("namespace", .text),
     ("scope", .text)]

/-- Reads the controller of a specification. -/
def spec? (j : Json) : Option (Option String) := do
  let j ← j.asObject
  let controller ← j.optional "controller" Json.string?
  let _ ← Shape.readMembers [("parameters", parametersShape)] j
  return controller

/-- Reads an ingress class. -/
def ofJson? (j : Json) : Option IngressClass := do
  let j ← j.asObject
  if isOfKind "networking.k8s.io/v1" "IngressClass" j then
    let metadata ← j.optional "metadata" Metadata.ofJson?
    let controller ← j.optional "spec" spec?
    return ⟨metadata.getD .empty, controller.getD none⟩
  else none

end IngressClass

/-- The specification of a class that only names its controller. -/
structure ClassSpec where
  /-- The controller that implements the class. -/
  controller : String
  deriving DecidableEq, Repr, Inhabited

/-- Writes a specification. -/
def ClassSpec.toJson (s : ClassSpec) : Json := .object [("controller", .string s.controller)]

/-- An ingress class defined by the platform. -/
structure PlatformClass where
  /-- The metadata. -/
  metadata : Metadata
  /-- The specification. -/
  spec : ClassSpec
  deriving Inhabited

namespace PlatformClass

/-- Reads a specification, which must name a controller. -/
def spec? (j : Json) : Option ClassSpec := do
  let j ← j.asRecord ["controller"]
  return ⟨← j.required "controller" Json.string?⟩

/-- Reads a platform class. -/
def ofJson? (j : Json) : Option PlatformClass := do
  let j ← j.asRecord ["metadata", "spec"]
  let metadata ← j.required "metadata" Metadata.ofJson?
  let spec ← j.required "spec" spec?
  return ⟨metadata, spec⟩

/-- Writes a platform class. -/
def toJson (c : PlatformClass) : Json :=
  resourceJson "certpilot.dev/v1alpha1" "IngressClass" c.metadata.toJson c.spec.toJson

end PlatformClass

/-- An ingress class of version `v1beta1`. -/
structure LegacyClass where
  /-- The metadata. -/
  metadata : Metadata
  /-- The specification. -/
  spec : ClassSpec
  deriving Inhabited

namespace LegacyClass

/-- Reads a specification; no controller is the same as an empty name. -/
def spec? (j : Json) : Option ClassSpec := do
  let j ← j.asRecord ["controller"]
  return ⟨← j.defaulted "controller" Json.string? ""⟩

/-- Reads a legacy class. -/
def ofJson? (j : Json) : Option LegacyClass := do
  let j ← j.asRecord ["metadata", "spec"]
  let metadata ← j.required "metadata" Metadata.ofJson?
  let spec ← j.required "spec" spec?
  return ⟨metadata, spec⟩

/-- Writes a legacy class. -/
def toJson (c : LegacyClass) : Json :=
  resourceJson "networking.k8s.io/v1beta1" "IngressClass" c.metadata.toJson c.spec.toJson

end LegacyClass

end IngressTls
