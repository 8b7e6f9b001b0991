import IngressTls.Json.Value

set_option autoImplicit false

/-! # Reading typed values out of JSON

Readers of the parts of a record. A member may be required, may be missing or null, or may
be missing but not null, in which case a default stands for it. If a member is repeated, every
occurrence must be readable, and the last one counts. A record may also be written as the list
of its members in a fixed order; then, and where such a record is written as an object, a
member that is repeated is refused.
-/

namespace IngressTls.Json

/-- A record by name: an object as it is, a list by giving its items the names in order. -/
def asRecord (names : List String) : Json → Option Json
  | .object ms =>
    if names.all fun n => (ms.filter fun m => m.1 = n).length ≤ 1 then some (.object ms) else none
  | .array xs => if xs.length ≤ names.length then some (.object (names.zip xs)) else none
  | _ => none

/-- An object as it is. -/
def asObject : Json → Option Json
  | .object ms => some (.object ms)
  | _ => none

variable {α : Type}

/-- What the last occurrence of a member is read as, if all its occurrences can be read. -/
def last? (name : String) (read : Json → Option α) (j : Json) : Option (Option α) :=
  ((j.occurrences name).mapM read).map List.getLast?

/-- A value that may be null. -/
def nullOr (read : Json → Option α) (j : Json) : Option (Option α) :=
  if j.isNull then some none else (read j).map some

/-- A member that must be there. -/
def required (name : String) (read : Json → Option α) (j : Json) : Option α :=
  (j.last? name read).bind id

/-- A member that may be missing or null. -/
def optional (name : String) (read : Json → Option α) (j : Json) : Option (Option α) :=
  (j.last? name (nullOr read)).map fun v => v.bind id

/-- A member that may be missing but not null. -/
def defaulted (name : String) (read : Json → Option α) (default : α) (j : Json) : Option α :=
  (j.last? name read).map fun v => v.getD default

/-- A list of values. -/
def listOf? (read : Json → Option α) (j : Json) : Option (List α) := j.items?.bind (·.mapM read)

/-- A list of texts. -/
def texts? (j : Json) : Option (List String) := listOf? string? j

/-- The floating-point number nearest to a JSON number. -/
def float? : Json → Option Float
  | .number d =>
    let size := Float.ofScientific d.mantissa.natAbs (d.exponent < 0) d.exponent.natAbs
    some (if d.mantissa < 0 then -size else size)
  | _ => none

/-- The members of an object that are there, in order. -/
def record (members : List (Option (String × Json))) : Json := .object (members.filterMap id)

/-- A member that is always written. -/
def always (name : String) (v : Json) : Option (String × Json) := some (name, v)

/-- A member that is written if its value is there. -/
def present (name : String) (write : α → Json) (v : Option α) : Option (String × Json) :=
  v.map fun v => (name, write v)

/-- A list member that is written unless it is empty. -/
def nonempty (name : String) (write : α → Json) (vs : List α) : Option (String × Json) :=
  if vs.isEmpty then none else some (name, .array (vs.map write))

end IngressTls.Json
