import IngressTls.Certificate
import IngressTls.Resource.Metadata
import IngressTls.Text.Base64

set_option autoImplicit false

/-! # Secrets

The built-in type that holds a certificate and its key. Its data is base64 in JSON and
bytes here.
-/

namespace IngressTls

/-- A secret. -/
structure Secret where
  /-- The metadata. -/
  metadata : Metadata
  /-- The payload. -/
  data : Option (Table (List UInt8))
  /-- What the payload is. -/
  type : Option String
  /-- The other members, in normal form. -/
  others : List (String × Json)
  deriving Inhabited

/-- Whether an object is of an API version and kind; both may be missing. -/
def isOfKind (apiVersion kind : String) (j : Json) : Bool :=
  (j.occurrences "apiVersion").all (fun v => v.string? = some apiVersion) &&
    (j.occurrences "kind").all fun v => v.string? = some kind

namespace Secret

/-- The shapes of the members without a field of their own. -/
def otherShapes : List (String × Shape) := [("immutable", .flag), ("stringData", .map .text)]

/-- Reads bytes in base64; null stands for no bytes. -/
def bytes? (j : Json) : Option (List UInt8) :=
  if j.isNull then some [] else j.string?.bind fun s => (Text.Base64.decode s).toOption

/-- Reads the payload. -/
def data? (j : Json) : Option (Table (List UInt8)) :=
  match j with
  | .object ms =>
    (ms.mapM fun m : String × Json => (bytes? m.2).map fun b => (m.1, b)).map Table.ofList
  | _ => none

/-- Reads a secret. -/
def ofJson? (j : Json) : Option Secret := do
  let j ← j.asObject
  if isOfKind "v1" "Secret" j then
    let metadata ← j.optional "metadata" Metadata.ofJson?
    let data ← j.optional "data" data?
    let type ← j.optional "type" Json.string?
    let others ← Shape.readMembers otherShapes j
    return ⟨metadata.getD .empty, data, type, others⟩
  else none

/-- Writes the payload. -/
def dataJson (t : Table (List UInt8)) : Json :=
  .object (t.entries.map fun e => (e.1, .string (Text.Base64.encode e.2)))

/-- Writes a secret. -/
def toJson (s : Secret) : Json :=
  .object
    ([Json.always "apiVersion" (.string "v1"),
      Json.always "kind" (.string "Secret"),
      Json.always "metadata" s.metadata.toJson,
      Json.present "data" dataJson s.data,
      Json.present "type" .string s.type].filterMap id ++ s.others)

/-- The place of the secret. -/
def ref (s : Secret) : SecretRef := ⟨s.metadata.nsOrEmpty, s.metadata.displayName⟩

end Secret

end IngressTls
