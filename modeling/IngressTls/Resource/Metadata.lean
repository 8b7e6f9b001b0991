import IngressTls.Json.Decode
import IngressTls.Resource.Shape
import IngressTls.Table

set_option autoImplicit false

/-! # Metadata of resources

What every Kubernetes object says about itself. The members that decide anything here have
fields of their own; the others are checked and kept in normal form, so that an object can
be written back.
-/

namespace IngressTls

/-- A map from names to texts, read from the members of an object. -/
def textMap? (j : Json) : Option (Table String) :=
  match j with
  | .object ms =>
    (ms.mapM fun m : String × Json => m.2.string?.map fun s => (m.1, s)).map Table.ofList
  | _ => none

/-- A map from names to texts, as an object. -/
def textMapJson (t : Table String) : Json := .object (t.entries.map fun e => (e.1, .string e.2))

/-- The metadata of an object. -/
structure Metadata where
  /-- The name. -/
  name : Option String
  /-- What the server makes a name from if there is none. -/
  generateName : Option String
  /-- The namespace. -/
  ns : Option String
  /-- The version of the object in the store. -/
  resourceVersion : Option String
  /-- The labels. -/
  labels : Option (Table String)
  /-- The annotations. -/
  annotations : Option (Table String)
  /-- The other members, in normal form. -/
  others : List (String × Json)
  deriving Inhabited

namespace Metadata

/-- Metadata without any member. -/
def empty : Metadata := ⟨none, none, none, none, none, none, []⟩

/-- The shape of an entry about the manager of some fields. -/
def managedFieldShape : Shape :=
  .record
    [("apiVersion", .text), ("fieldsType", .text), ("fieldsV1", .anything), ("manager", .text),
     ("operation", .text), ("subresource", .text), ("time", .time)]

/-- The shape of a reference to an owner. -/
def ownerShape : Shape :=
  .record
    [("apiVersion", .plainText), ("blockOwnerDeletion", .flag), ("controller", .flag),
     ("kind", .plainText), ("name", .plainText), ("uid", .plainText)]

/-- The shapes of the members without a field of their own. -/
def otherShapes : List (String × Shape) :=
  [("creationTimestamp", .time), ("deletionGracePeriodSeconds", .integer .int64),
   ("deletionTimestamp", .time), ("finalizers", .list .text), ("generation", .integer .int64),
   ("managedFields", .list managedFieldShape), ("ownerReferences", .list ownerShape),
   ("selfLink", .text), ("uid", .text)]

/-- Reads metadata. -/
def ofJson? (j : Json) : Option Metadata := do
  let j ← j.asObject
  let name ← j.optional "name" Json.string?
  let generateName ← j.optional "generateName" Json.string?
  let ns ← j.optional "namespace" Json.string?
  let resourceVersion ← j.optional "resourceVersion" Json.string?
  let labels ← j.optional "labels" textMap?
  let annotations ← j.optional "annotations" textMap?
  let others ← Shape.readMembers otherShapes j
  return ⟨name, generateName, ns, resourceVersion, labels, annotations, others⟩

/-- Writes metadata. -/
def toJson (m : Metadata) : Json :=
  .object
    ([Json.present "name" .string m.name,
      Json.present "generateName" .string m.generateName,
      Json.present "namespace" .string m.ns,
      Json.present "resourceVersion" .string m.resourceVersion,
      Json.present "labels" textMapJson m.labels,
      Json.present "annotations" textMapJson m.annotations].filterMap id ++ m.others)

/-- The name an object goes by: its name, else what the name is made from, else nothing. -/
def displayName (m : Metadata) : String := (m.name.or m.generateName).getD ""

/-- The namespace an object is filed under. -/
def nsOrEmpty (m : Metadata) : String := m.ns.getD ""

/-- The value of a label. -/
def label? (m : Metadata) (k : String) : Option String := m.labels.bind (·.find? k)

/-- The value of an annotation. -/
def annotated? (m : Metadata) (k : String) : Option String := m.annotations.bind (·.find? k)

end Metadata

end IngressTls
