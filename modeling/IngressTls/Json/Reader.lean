import IngressTls.Json.Value
import IngressTls.Text.Integer

set_option autoImplicit false

/-! # Reading JSON

The reader of the JSON grammar: one value, with white space around it. Numbers have no
leading zeros; a text holds no control characters. Three things are written as the grammar
allows and are kept as unreadable: a text in which half of a surrogate pair stands alone, and
an object with such a name; a number that is too large for a floating-point number; and an
array or object behind 127 levels of nesting.

Every function takes the characters that are left and returns those after what it read.
-/

namespace IngressTls.Json

/-- The white space of the JSON grammar. -/
def isSpace (c : Char) : Bool := c = ' ' || c = '\n' || c = '\t' || c = '\r'

/-- The characters after leading white space. -/
def skipSpace (cs : List Char) : List Char := cs.dropWhile isSpace

/-- The code unit of four hexadecimal digits. -/
def codeUnit? (a b c d : Char) : Option Nat := do
  let w ← Text.hexValue? a
  let x ← Text.hexValue? b
  let y ← Text.hexValue? c
  let z ← Text.hexValue? d
  return ((w * 16 + x) * 16 + y) * 16 + z

/-- The character of an escape with a single letter. -/
def escaped? (c : Char) : Option Char :=
  if c = '"' || c = '\\' || c = '/' then some c
  else if c = 'b' then some '\x08'
  else if c = 'f' then some '\x0c'
  else if c = 'n' then some '\n'
  else if c = 'r' then some '\r'
  else if c = 't' then some '\t'
  else none

/-- A part of a text: a character, or a code unit of sixteen bits. -/
inductive TextPart where
  | char (c : Char)
  | unit (u : Nat)

/-- Reads the parts of a text up to its closing quote; `acc` holds those read, last first. -/
def readParts (acc : List TextPart) : List Char → Option (List TextPart × List Char)
  | [] => none
  | '\\' :: 'u' :: a :: b :: c :: d :: rest =>
    match codeUnit? a b c d with
    | some u => readParts (.unit u :: acc) rest
    | none => none
  | '\\' :: c :: rest =>
    match escaped? c with
    | some e => readParts (.char e :: acc) rest
    | none => none
  | c :: rest =>
    if c = '"' then some (acc.reverse, rest)
    else if c.toNat < 0x20 then none
    else readParts (.char c :: acc) rest

/-- Whether a code unit is the first half of a surrogate pair. -/
def isFirstHalf (u : Nat) : Bool := 0xd800 ≤ u && u ≤ 0xdbff

/-- Whether a code unit is the second half of a surrogate pair. -/
def isSecondHalf (u : Nat) : Bool := 0xdc00 ≤ u && u ≤ 0xdfff

/-- The characters that parts stand for, unless half of a surrogate pair stands alone; `acc`
holds those in front, last first. -/
def joinParts? (acc : List Char) : List TextPart → Option (List Char)
  | [] => some acc.reverse
  | .char c :: rest => joinParts? (c :: acc) rest
  | .unit h :: .unit l :: rest =>
    if isFirstHalf h then
      if isSecondHalf l then
        joinParts? (Char.ofNat (0x10000 + (h - 0xd800) * 0x400 + (l - 0xdc00)) :: acc) rest
      else none
    else if isSecondHalf h then none
    else joinParts? (Char.ofNat h :: acc) (.unit l :: rest)
  | .unit u :: rest =>
    if isFirstHalf u || isSecondHalf u then none else joinParts? (Char.ofNat u :: acc) rest

/-- Reads a text up to its closing quote; the text is missing if it is unreadable. -/
def readText (cs : List Char) : Option (Option String × List Char) :=
  (readParts [] cs).map fun (parts, rest) => ((joinParts? [] parts).map String.ofList, rest)

/-- The number that a list of decimal digits denotes. -/
def ofDigits (ds : List Char) : Nat := ds.foldl (fun n d => n * 10 + (d.toNat - 48)) 0

/-- Reads an exponent with its sign, after the letter `e`. -/
def readExponent (cs : List Char) : Option (Int × List Char) :=
  let (sign, cs) : Int × List Char := match cs with
    | '-' :: rest => (-1, rest)
    | '+' :: rest => (1, rest)
    | _ => (1, cs)
  let ds := cs.takeWhile Char.isDigit
  if ds.isEmpty then none else some (sign * ofDigits ds, cs.dropWhile Char.isDigit)

/-- The number of the leading digits that fit into 64 bits, and how many digits are left. -/
def leadingDigits : (value : Nat) → List Char → Nat × Nat
  | value, [] => (value, 0)
  | value, d :: ds =>
    let next := value * 10 + (d.toNat - 48)
    if next < UInt64.size then leadingDigits next ds else (value, ds.length + 1)

/-- Whether digits times a power of ten are too large for a floating-point number. They are
looked at as the digits that fit into 64 bits times a larger power of ten. -/
def isTooLarge (digits : List Char) (exponent : Int) : Bool :=
  let (value, left) := leadingDigits 0 digits
  let scale := exponent + left
  value ≠ 0 && 0 ≤ scale &&
    (308 < scale ||
      (Float.ofNat value * Float.ofScientific 1 false scale.toNat).isInf)

/-- The number of some digits, unless it is too large. -/
def numberOf (digits : List Char) (d : Decimal) : Json :=
  if isTooLarge digits d.exponent then .unreadable else .number d

/-- Reads a number. A zero with a minus sign is no integer. -/
def readNumber (cs : List Char) : Option (Json × List Char) :=
  let (sign, cs) : Int × List Char := match cs with
    | '-' :: rest => (-1, rest)
    | _ => (1, cs)
  let whole := cs.takeWhile Char.isDigit
  let cs := cs.dropWhile Char.isDigit
  if whole.isEmpty || (whole.head? = some '0' && 1 < whole.length) then none
  else
    let fraction := match cs with
      | '.' :: rest => some (rest.takeWhile Char.isDigit)
      | _ => none
    let cs := match cs with
      | '.' :: rest => rest.dropWhile Char.isDigit
      | _ => cs
    if fraction = some [] then none
    else
      let ds := whole ++ fraction.getD []
      let digits := ofDigits ds
      let integral := fraction.isNone && !(sign = -1 && digits = 0)
      let scale : Int := (fraction.getD []).length
      match cs with
      | e :: rest =>
        if e = 'e' || e = 'E' then
          (readExponent rest).map fun (x, after) =>
            (numberOf ds ⟨sign * digits, x - scale, false⟩, after)
        else some (numberOf ds ⟨sign * digits, -scale, integral⟩, cs)
      | [] => some (numberOf ds ⟨sign * digits, -scale, integral⟩, [])

/-- Reads a fixed word. -/
def readWord (word : List Char) (value : Json) (cs : List Char) : Option (Json × List Char) :=
  if word.isPrefixOf cs then some (value, cs.drop word.length) else none

/-- A text, or what is kept of an unreadable one. -/
def ofText : Option String → Json
  | some s => .string s
  | none => .unreadable

/-- A list of members, the last one first, as an object; it is missing if a name is unreadable. -/
def ofMembers : Option (List (String × Json)) → Json
  | some ms => .object ms.reverse
  | none => .unreadable

/-- An array or an object, where some levels of nesting are left. -/
def nested (depth : Nat) (v : Json) : Json := if depth = 0 then .unreadable else v

mutual

/-- Reads one value. `fuel` bounds the number of steps; `depth` is the number of levels of
nesting that are left. -/
def readValue : (fuel depth : Nat) → List Char → Option (Json × List Char)
  | 0, _, _ => none
  | fuel + 1, depth, cs =>
    match skipSpace cs with
    | [] => none
    | '"' :: rest => (readText rest).map fun (s, after) => (ofText s, after)
    | '[' :: rest =>
      match skipSpace rest with
      | ']' :: after => some (nested depth (.array []), after)
      | _ => (readItems fuel (depth - 1) [] rest).map fun (v, after) => (nested depth v, after)
    | '\x7b' :: rest =>
      match skipSpace rest with
      | '\x7d' :: after => some (nested depth (.object []), after)
      | _ =>
        (readMembers fuel (depth - 1) (some []) rest).map fun (v, after) =>
          (nested depth v, after)
    | 'n' :: rest => readWord ['u', 'l', 'l'] .null rest
    | 't' :: rest => readWord ['r', 'u', 'e'] (.bool true) rest
    | 'f' :: rest => readWord ['a', 'l', 's', 'e'] (.bool false) rest
    | rest => readNumber rest

/-- Reads the items of an array up to its closing bracket; `acc` holds those read, last
first. -/
def readItems : (fuel depth : Nat) → List Json → List Char → Option (Json × List Char)
  | 0, _, _, _ => none
  | fuel + 1, depth, acc, cs =>
    match readValue fuel depth cs with
    | none => none
    | some (v, rest) =>
      match skipSpace rest with
      | ',' :: after => readItems fuel depth (v :: acc) after
      | ']' :: after => some (.array (v :: acc).reverse, after)
      | _ => none

/-- Reads the members of an object up to its closing brace; `acc` holds those read, last
first, unless a name was unreadable. -/
def readMembers : (fuel depth : Nat) → Option (List (String × Json)) → List Char →
    Option (Json × List Char)
  | 0, _, _, _ => none
  | fuel + 1, depth, acc, cs =>
    match skipSpace cs with
    | '"' :: rest =>
      match readText rest with
      | none => none
      | some (name, rest) =>
        match skipSpace rest with
        | ':' :: rest =>
          match readValue fuel depth rest with
          | none => none
          | some (v, rest) =>
            let acc := name.bind fun name => acc.map ((name, v) :: ·)
            match skipSpace rest with
            | ',' :: after => readMembers fuel depth acc after
            | '\x7d' :: after => some (ofMembers acc, after)
            | _ => none
        | _ => none
    | _ => none

end

/-- Reads a whole text as one value. -/
def read? (s : String) : Option Json :=
  match readValue (2 * s.length + 2) 127 s.toList with
  | some (v, rest) => if (skipSpace rest).isEmpty then some v else none
  | none => none

end IngressTls.Json
