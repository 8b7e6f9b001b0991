set_option autoImplicit false

/-! # JSON values

The values of the JSON data format. A number keeps its decimal digits exactly, together
with whether it was written as an integer: `1` and `1.0` are different numbers to a reader
that asks for an integer. An object keeps its members in the order they were written, a
repeated name included, so that a reader can decide what a repeated name means. What has the
form of a value but cannot be read as one is kept as such: where a value is passed over it may
stand, and every reader that looks at it fails.
-/

namespace IngressTls

/-- A decimal number `mantissa * 10 ^ exponent`. -/
structure Decimal where
  /-- The digits with their sign. -/
  mantissa : Int
  /-- The power of ten. -/
  exponent : Int
  /-- Whether the number was written without a fraction and without an exponent. -/
  integral : Bool
  deriving Repr, DecidableEq

/-- A JSON value. -/
inductive Json where
  | null
  | bool (b : Bool)
  | number (d : Decimal)
  | string (s : String)
  | array (items : List Json)
  | object (members : List (String × Json))
  /-- Something written in the form of a value that cannot be read. -/
  | unreadable
  deriving Repr, Inhabited

namespace Json

/-- An integer as a JSON number. -/
def int (n : Int) : Json := .number ⟨n, 0, true⟩

/-- A natural number as a JSON number. -/
def nat (n : Nat) : Json := int n

/-- A text, or null. -/
def stringOrNull : Option String → Json
  | none => .null
  | some s => .string s

/-- A list of texts. -/
def strings (ss : List String) : Json := .array (ss.map .string)

/-- The member of an object under a name; the last one if the name is repeated. -/
def member? (name : String) : Json → Option Json
  | .object ms => (ms.reverse.lookup name)
  | _ => none

/-- All members of an object under a name, in order. -/
def occurrences (name : String) : Json → List Json
  | .object ms => (ms.filter fun m => m.1 = name).map Prod.snd
  | _ => []

/-- The member of an object under a name, an absent one as null. -/
def field (j : Json) (name : String) : Json := (j.member? name).getD .null

/-- The text of a JSON string. -/
def string? : Json → Option String
  | .string s => some s
  | _ => none

/-- The integer of a JSON number written as an integer. -/
def int? : Json → Option Int
  | .number d => if d.integral then some d.mantissa else none
  | _ => none

/-- The truth value of a JSON boolean. -/
def bool? : Json → Option Bool
  | .bool b => some b
  | _ => none

/-- The items of a JSON array. -/
def items? : Json → Option (List Json)
  | .array xs => some xs
  | _ => none

/-- The members of a JSON object. -/
def members? : Json → Option (List (String × Json))
  | .object ms => some ms
  | _ => none

/-- Whether a value is null. -/
def isNull : Json → Bool
  | .null => true
  | _ => false

mutual

/-- Whether a value can be read as a whole, with all that it holds. -/
def isWhole : Json → Bool
  | .array xs => areWhole xs
  | .object ms => haveWhole ms
  | .unreadable => false
  | _ => true

/-- Whether all items of an array can be read as a whole. -/
def areWhole : List Json → Bool
  | [] => true
  | x :: xs => isWhole x && areWhole xs

/-- Whether the values of all members of an object can be read as a whole. -/
def haveWhole : List (String × Json) → Bool
  | [] => true
  | (_, v) :: ms => isWhole v && haveWhole ms

end

end Json

end IngressTls
