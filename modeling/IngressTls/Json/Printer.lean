import IngressTls.Json.Value

set_option autoImplicit false

/-! # Writing JSON

The compact form of a value: no white space, members in the order they are held. In a text
only the quote, the backslash and the control characters are escaped. What cannot be read is
written as null.
-/

namespace IngressTls.Json

/-- The lower-case hexadecimal digit of a number below 16. -/
def lowerHexDigit (n : Nat) : Char := "0123456789abcdef".toList.getD n '0'

/-- One character of a text as it is written between the quotes. -/
def charText (c : Char) : List Char :=
  if c = '"' then ['\\', '"']
  else if c = '\\' then ['\\', '\\']
  else if c = '\n' then ['\\', 'n']
  else if c = '\r' then ['\\', 'r']
  else if c = '\t' then ['\\', 't']
  else if c.toNat = 8 then ['\\', 'b']
  else if c.toNat = 12 then ['\\', 'f']
  else if c.toNat < 0x20 then
    ['\\', 'u', '0', '0', lowerHexDigit (c.toNat / 16), lowerHexDigit (c.toNat % 16)]
  else [c]

/-- A text between quotes. -/
def stringText (s : String) : String :=
  String.ofList ('"' :: (s.toList.flatMap charText ++ ['"']))

/-- A number. -/
def decimalText (d : Decimal) : String :=
  if d.exponent = 0 then toString d.mantissa
  else s!"{d.mantissa}e{d.exponent}"

/-- The texts with commas between them. -/
def commaJoined (ss : List String) : String := ",".intercalate ss

mutual

/-- The compact form of a value. -/
def compact : Json → String
  | .null | .unreadable => "null"
  | .bool true => "true"
  | .bool false => "false"
  | .number d => decimalText d
  | .string s => stringText s
  | .array xs => "[" ++ commaJoined (compactItems xs) ++ "]"
  | .object ms => "\x7b" ++ commaJoined (compactMembers ms) ++ "\x7d"

/-- The compact forms of the items of an array. -/
def compactItems : List Json → List String
  | [] => []
  | x :: xs => compact x :: compactItems xs

/-- The compact forms of the members of an object. -/
def compactMembers : List (String × Json) → List String
  | [] => []
  | (k, v) :: ms => (stringText k ++ ":" ++ compact v) :: compactMembers ms

end

/-- The members in the order of their names, each name once with its last value. -/
def sortMembers (ms : List (String × Json)) : List (String × Json) :=
  let names := (ms.map Prod.fst).mergeSort (fun a b => a ≤ b)
  let unique := names.eraseDups
  unique.filterMap fun n => (ms.reverse.lookup n).map fun v => (n, v)

mutual

/-- The value with the members of every object in the order of their names. -/
def sorted : Json → Json
  | .array xs => .array (sortedItems xs)
  | .object ms => .object (sortMembers (sortedMembers ms))
  | v => v

/-- The items of an array, each sorted. -/
def sortedItems : List Json → List Json
  | [] => []
  | x :: xs => sorted x :: sortedItems xs

/-- The values of the members of an object, each sorted. -/
def sortedMembers : List (String × Json) → List (String × Json)
  | [] => []
  | (k, v) :: ms => (k, sorted v) :: sortedMembers ms

end

end IngressTls.Json
