import IngressTls.Instant.Basic
import IngressTls.Text.Blank

set_option autoImplicit false

/-! # Dates and times as text

The RFC 3339 form of an instant. The reader is lenient: a `t` or a space may stand for the
`T`, a `z` or `UTC` for the `Z`; numbers may have fewer digits than the form asks for and
may follow blank characters; the colon of an offset may be missing. The second 60 is a
leap second, and digits of the fraction past the ninth are dropped. What is written names whole
seconds.
-/

namespace IngressTls.Instant

open IngressTls.Text (trimStartChars isBlank)

/-- A part read from the front of a text, with what follows it. -/
abbrev Part (α : Type) : Type := Option (α × List Char)

/-- The number that a list of decimal digits denotes. -/
def digitsValue (ds : List Char) : Nat := ds.foldl (fun n d => n * 10 + (d.toNat - 48)) 0

/-- Reads a number of at least one and at most `width` digits. -/
def readDigits (width : Nat) (cs : List Char) : Part Nat :=
  let ds := (cs.take width).takeWhile Char.isDigit
  if ds.isEmpty then none else some (digitsValue ds, cs.drop ds.length)

/-- Reads a number within bounds, after blank characters. -/
def readField (width : Nat) (low high : Int) (cs : List Char) : Part Int :=
  match readDigits width (trimStartChars cs) with
  | some (n, rest) => if low ≤ n && (n : Int) ≤ high then some (n, rest) else none
  | none => none

/-- Reads a year: four digits, or any number of them after a sign. -/
def readYear (cs : List Char) : Part Int :=
  match trimStartChars cs with
  | '-' :: rest => (readDigits rest.length rest).map fun (n, after) => (-(n : Int), after)
  | '+' :: rest => (readDigits rest.length rest).map fun (n, after) => ((n : Int), after)
  | rest => (readDigits 4 rest).map fun (n, after) => ((n : Int), after)

/-- Reads one given character after blank characters. -/
def readMark (c : Char) (cs : List Char) : Option (List Char) :=
  match trimStartChars cs with
  | d :: rest => if c = d then some rest else none
  | [] => none

/-- Reads the fraction of a second, in nanoseconds; there may be none. -/
def readFraction (cs : List Char) : Part Nat :=
  match cs with
  | '.' :: rest =>
    let ds := rest.takeWhile Char.isDigit
    if ds.isEmpty then none
    else
      some (digitsValue ((ds.take 9).rightpad 9 '0'), rest.dropWhile Char.isDigit)
  | _ => some (0, cs)

/-- Reads two digits, the first of them at most `high`. -/
def readPair (high : Char) : List Char → Part Nat
  | a :: b :: rest =>
    if a.isDigit && a ≤ high && b.isDigit then some (digitsValue [a, b], rest) else none
  | _ => none

/-- Reads the offset from universal time, in seconds. -/
def readOffset (cs : List Char) : Part Int :=
  match cs with
  | 'Z' :: rest => some (0, rest)
  | 'z' :: rest => some (0, rest)
  | sign :: rest =>
    if (String.ofList (cs.take 3)).toLower = "utc" then some (0, cs.drop 3)
    else if sign = '+' || sign = '-' || sign = '\u2212' then
      match readPair '9' rest with
      | none => none
      | some (hours, rest) =>
        match readPair '5' (rest.dropWhile fun c => c = ':' || isBlank c) with
        | none => none
        | some (minutes, rest) =>
          let seconds : Int := hours * 3600 + minutes * 60
          if seconds < 86400 then some (if sign = '+' then seconds else -seconds, rest) else none
    else none
  | [] => none

/-- Reads a date, as days from 1970-01-01. Its year must be one that has instants, even where
the offset leads back into such a year. -/
def readDate (cs : List Char) : Option (Int × List Char) := do
  let (year, cs) ← readYear cs
  let cs ← readMark '-' cs
  let (month, cs) ← readField 2 1 12 cs
  let cs ← readMark '-' cs
  let (day, cs) ← readField 2 1 31 cs
  if leastYear ≤ year && year ≤ greatestYear && day ≤ daysInMonth year month then
    some (daysOfDate year month day, cs)
  else none

/-- Reads a time of day, as seconds since midnight and nanoseconds. -/
def readTime (cs : List Char) : Option ((Int × Nat) × List Char) := do
  let (hour, cs) ← readField 2 0 23 cs
  let cs ← readMark ':' cs
  let (minute, cs) ← readField 2 0 59 cs
  let cs ← readMark ':' cs
  let (second, cs) ← readField 2 0 60 cs
  let (nanos, cs) ← readFraction cs
  let leap := second = 60
  return ((hour * 3600 + minute * 60 + (if leap then 59 else second),
    if leap then nanos + 1000000000 else nanos), cs)

/-- Reads the letter between date and time. -/
def readSeparator : List Char → Option (List Char)
  | c :: rest => if c = 'T' || c = 't' || c = ' ' then some rest else none
  | [] => none

/-- The instant that a text denotes. -/
def ofRfc3339? (s : String) : Option Instant := do
  let (days, cs) ← readDate s.toList
  let cs ← readSeparator cs
  let ((seconds, nanos), cs) ← readTime cs
  let (offset, cs) ← readOffset (trimStartChars cs)
  let t : Instant := ⟨days * 86400 + seconds - offset, nanos⟩
  if (trimStartChars cs).isEmpty && leastSecond ≤ t.seconds && t.seconds ≤ greatestSecond then
    some t
  else none

/-- A number with leading zeros up to a width. -/
def padded (width n : Nat) : String :=
  let ds := toString n
  String.ofList (List.replicate (width - ds.length) '0') ++ ds

/-- The text of a year: four digits, with a sign outside the years 0 to 9999. -/
def yearText (year : Int) : String :=
  if 0 ≤ year && year ≤ 9999 then padded 4 year.toNat
  else (if year < 0 then "-" else "+") ++ padded 4 year.natAbs

/-- The text of an instant in universal time, without the fraction of its second. -/
def toRfc3339 (t : Instant) : String :=
  let days := t.seconds / 86400
  let ofDay := (t.seconds % 86400).toNat
  let (year, month, day) := dateOfDays days
  let leap := 1000000000 ≤ t.nanoseconds
  let second := if leap then 60 else ofDay % 60
  yearText year ++ "-" ++ padded 2 month.toNat ++ "-" ++ padded 2 day.toNat ++ "T" ++
    padded 2 (ofDay / 3600) ++ ":" ++ padded 2 (ofDay / 60 % 60) ++ ":" ++ padded 2 second ++ "Z"

end IngressTls.Instant
