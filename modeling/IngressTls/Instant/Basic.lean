set_option autoImplicit false

/-! # Instants

A point in time as whole Unix seconds and nanoseconds within the second. The nanoseconds
reach past one thousand million while a leap second lasts. Instants exist in a fixed range
of years around the epoch.

The calendar functions count days of the proleptic Gregorian calendar from 1970-01-01.
-/

namespace IngressTls

/-- A point in time. -/
structure Instant where
  /-- Unix seconds, rounded down. -/
  seconds : Int
  /-- Nanoseconds since that second began. -/
  nanoseconds : Nat
  deriving Repr, DecidableEq, Inhabited

namespace Instant

/-- The second of the first instant that exists. -/
def leastSecond : Int := -8334601228800

/-- The second of the last instant that exists. -/
def greatestSecond : Int := 8210266876799

/-- The first year that has instants. -/
def leastYear : Int := -262143

/-- The last year that has instants. -/
def greatestYear : Int := 262142

/-- The instant at the beginning of a second, if it exists. -/
def ofSeconds? (s : Int) : Option Instant :=
  if leastSecond ≤ s && s ≤ greatestSecond then some ⟨s, 0⟩ else none

/-- Nanoseconds in a second. -/
def nanosPerSecond : Int := 1000000000

/-- Nanoseconds since the epoch. -/
def toNanos (t : Instant) : Int := t.seconds * nanosPerSecond + t.nanoseconds

/-- Days from 1970-01-01 to a date. -/
def daysOfDate (year month day : Int) : Int :=
  let y := if month ≤ 2 then year - 1 else year
  let era := y / 400
  let yearOfEra := y - era * 400
  let shifted := if month ≤ 2 then month + 9 else month - 3
  let dayOfYear := (153 * shifted + 2) / 5 + day - 1
  let dayOfEra := yearOfEra * 365 + yearOfEra / 4 - yearOfEra / 100 + dayOfYear
  era * 146097 + dayOfEra - 719468

/-- The date that lies a number of days after 1970-01-01, as year, month and day. -/
def dateOfDays (days : Int) : Int × Int × Int :=
  let z := days + 719468
  let era := z / 146097
  let dayOfEra := z - era * 146097
  let yearOfEra := (dayOfEra - dayOfEra / 1460 + dayOfEra / 36524 - dayOfEra / 146096) / 365
  let dayOfYear := dayOfEra - (365 * yearOfEra + yearOfEra / 4 - yearOfEra / 100)
  let shifted := (5 * dayOfYear + 2) / 153
  let day := dayOfYear - (153 * shifted + 2) / 5 + 1
  let month := if shifted < 10 then shifted + 3 else shifted - 9
  let year := yearOfEra + era * 400
  (if month ≤ 2 then year + 1 else year, month, day)

/-- Whether a year has a 29th of February. -/
def isLeapYear (year : Int) : Bool := year % 4 = 0 && (year % 100 ≠ 0 || year % 400 = 0)

/-- The number of days of a month. -/
def daysInMonth (year month : Int) : Int :=
  if month = 2 then (if isLeapYear year then 29 else 28)
  else if month = 4 || month = 6 || month = 9 || month = 11 then 30
  else 31

end Instant

end IngressTls
