import IngressTls.Json.Decode
import IngressTls.Instant.Rfc3339
import IngressTls.Text.Integer

set_option autoImplicit false

/-! # Shapes of Kubernetes values

The schema of the built-in resource types, as far as it decides which documents are
accepted. Every member of a record may be missing or null, members the record does not know
are ignored, and no item of a list and no value of a map may be null. Of a member that is
repeated every occurrence must be right, and the last one counts.

`Shape.read` checks a value against a shape and gives it in normal form: without unknown
members and nulls, and with times in universal time.
-/

namespace IngressTls

/-- The shape of a value. -/
inductive Shape where
  /-- A text. -/
  | text
  /-- A text that is written even when it is missing, as the empty text. -/
  | plainText
  /-- A truth value. -/
  | flag
  /-- An integer of a range. -/
  | integer (range : Text.IntRange)
  /-- A time. -/
  | time
  /-- Any value. -/
  | anything
  /-- A list of values of one shape. -/
  | list (item : Shape)
  /-- A map from names to values of one shape. -/
  | map (value : Shape)
  /-- A record of named members. -/
  | record (members : List (String × Shape))

namespace Shape

/-- What stands for a member that is missing or null. -/
def absent : Shape → Option Json
  | plainText => some (.string "")
  | _ => none

mutual

/-- The normal form of a value of the shape, if it is one. -/
def read : Shape → Json → Option Json
  | text, .string s => some (.string s)
  | plainText, .string s => some (.string s)
  | flag, .bool b => some (.bool b)
  | integer range, .number d =>
    if d.integral && range.has d.mantissa then some (.number d) else none
  | time, .string s => (Instant.ofRfc3339? s).map fun t => .string t.toRfc3339
  | anything, v => if v.isWhole then some v else none
  | list item, .array xs => (xs.mapM fun x => read item x).map .array
  | map value, .object ms =>
    (ms.mapM fun m => (read value m.2).map fun v => (m.1, v)).map .object
  | record members, .object ms => (readMembers members (.object ms)).map .object
  | _, _ => none

/-- The normal forms of the members of a record, one after the other. -/
def readMembers : List (String × Shape) → Json → Option (List (String × Json))
  | [], _ => some []
  | (name, shape) :: rest, j =>
    match j.last? name (Json.nullOr fun v => read shape v), readMembers rest j with
    | some v, some ms => some (((v.bind id).or shape.absent).toList.map (name, ·) ++ ms)
    | _, _ => none

end

end Shape

end IngressTls
