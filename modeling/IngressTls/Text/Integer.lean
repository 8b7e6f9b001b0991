set_option autoImplicit false

/-! # Decimal integers

Reading a decimal integer that must fit a given range. A signed range takes one leading
`+` or `-`, an unsigned one a leading `+` only. The digits are read from the left and the
first fault wins: a text whose first twenty digits already leave the range is out of range
even if a letter follows them.
-/

namespace IngressTls.Text

/-- A range of integers that a text can be read into. -/
structure IntRange where
  /-- The least integer of the range. -/
  least : Int
  /-- The greatest integer of the range. -/
  greatest : Int
  deriving Repr, DecidableEq

namespace IntRange

/-- Signed 64-bit integers. -/
def int64 : IntRange := ⟨-9223372036854775808, 9223372036854775807⟩

/-- Unsigned 64-bit integers. -/
def nat64 : IntRange := ⟨0, 18446744073709551615⟩

/-- Signed 32-bit integers. -/
def int32 : IntRange := ⟨-2147483648, 2147483647⟩

/-- Unsigned 32-bit integers. -/
def nat32 : IntRange := ⟨0, 4294967295⟩

/-- Unsigned 16-bit integers. -/
def nat16 : IntRange := ⟨0, 65535⟩

/-- Whether an integer lies in the range. -/
def has (r : IntRange) (n : Int) : Bool := r.least ≤ n && n ≤ r.greatest

end IntRange

/-- Why a text is not an integer of a range. -/
inductive IntFault where
  /-- The text is empty. -/
  | empty
  /-- A character is not a digit, or a sign has no digit after it. -/
  | invalidDigit
  /-- The integer is above the range. -/
  | tooLarge
  /-- The integer is below the range. -/
  | tooSmall
  deriving Repr, DecidableEq

/-- The wording of a fault. -/
def IntFault.message : IntFault → String
  | empty => "cannot parse integer from empty string"
  | invalidDigit => "invalid digit found in string"
  | tooLarge => "number too large to fit in target type"
  | tooSmall => "number too small to fit in target type"

/-- The value of a decimal digit. -/
def digitValue? (c : Char) : Option Nat :=
  if c.isDigit then some (c.toNat - '0'.toNat) else none

/-- The value of a hexadecimal digit. -/
def hexValue? (c : Char) : Option Nat :=
  let n := c.toNat
  if 48 ≤ n && n ≤ 57 then some (n - 48)
  else if 97 ≤ n && n ≤ 102 then some (n - 87)
  else if 65 ≤ n && n ≤ 70 then some (n - 55)
  else none

/-- Reads digits behind the ones that gave `acc`, towards the greatest integer. -/
def readUp (r : IntRange) : Int → List Char → Except IntFault Int
  | acc, [] => .ok acc
  | acc, c :: cs =>
    match digitValue? c with
    | none => .error .invalidDigit
    | some d =>
      let next := acc * 10 + d
      if next ≤ r.greatest then readUp r next cs else .error .tooLarge

/-- Reads digits behind the ones that gave `acc`, towards the least integer. -/
def readDown (r : IntRange) : Int → List Char → Except IntFault Int
  | acc, [] => .ok acc
  | acc, c :: cs =>
    match digitValue? c with
    | none => .error .invalidDigit
    | some d =>
      let next := acc * 10 - d
      if r.least ≤ next then readDown r next cs else .error .tooSmall

/-- Reads a whole text as an integer of the range. -/
def readInt (r : IntRange) (cs : List Char) : Except IntFault Int :=
  match cs with
  | [] => .error .empty
  | ['+'] => .error .invalidDigit
  | ['-'] => .error .invalidDigit
  | '+' :: ds => readUp r 0 ds
  | '-' :: ds => if r.least < 0 then readDown r 0 ds else .error .invalidDigit
  | ds => readUp r 0 ds

end IngressTls.Text
