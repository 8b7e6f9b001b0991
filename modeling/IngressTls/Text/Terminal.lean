set_option autoImplicit false

/-! # Control sequences of terminals

Text that is meant for a terminal can hold control sequences, which start with an escape
character and set colours and the like. Where there is no terminal they are left out, and so
are all control characters but white space.

White space is shown even inside most sequences, and so is what follows it up to the next
character that cannot be shown. The sequence goes on behind that, unless a character outside
ASCII was shown meanwhile.
-/

namespace IngressTls.Text

/-- A text in bold on a terminal. -/
def bold (s : String) : String := "\x1b[1m" ++ s ++ "\x1b[0m"

/-- A text in bold and underlined on a terminal. -/
def heading (s : String) : String := "\x1b[1m\x1b[4m" ++ s ++ "\x1b[0m"

/-- Where in a control sequence a character stands. -/
inductive SequenceState where
  /-- Outside of control sequences. -/
  | ground
  /-- Behind an escape character. -/
  | escape
  /-- In an escape sequence of several characters. -/
  | escapeTail
  /-- Behind the opening bracket, up to the letter that says what to do. -/
  | parameters
  /-- In a command to the system, which a bell ends. -/
  | command
  /-- At the start of a string for the device. -/
  | deviceHead
  /-- In the parameters of a string for the device. -/
  | deviceParameters
  /-- In the further head of a string for the device. -/
  | deviceTail
  /-- In a string that only an escape character or a string terminator ends. -/
  | string
  deriving DecidableEq, Repr

namespace SequenceState

/-- Whether a character holds the byte of the string terminator. -/
def endsString (c : Char) : Bool := (String.singleton c).toUTF8.toList.contains 0x9c

/-- White space that is shown even inside most sequences. -/
def isKeptControl (c : Char) : Bool := c = '\t' || c = '\n' || c = '\x0c' || c = '\r'

/-- Whether a character lies between two others. -/
def within (low high c : Char) : Bool := low ≤ c && c ≤ high

/-- The state behind the character that follows an escape character. -/
def afterEscape (c : Char) : SequenceState :=
  if c = '[' then parameters
  else if c = ']' then command
  else if c = 'P' then deviceHead
  else if c = 'X' || c = '^' || c = '_' then string
  else if within ' ' '/' c then escapeTail
  else if within '0' '~' c then ground
  else escape

/-- The state behind a character in the head of a string for the device. Parameters may follow
only its start, and there are characters that may only begin them. -/
def inDeviceHead (s : SequenceState) (c : Char) : SequenceState :=
  if within '@' '~' c then string
  else if within ' ' '/' c then deviceTail
  else if within '0' '?' c then
    if s = deviceHead || (s = deviceParameters && c ≤ ';') then deviceParameters else string
  else s

/-- The state behind a character that is not shown. -/
def next (s : SequenceState) (c : Char) : SequenceState :=
  if c = '\x1b' then escape
  else if c = '\x18' || c = '\x1a' then ground
  else match s with
  | ground => ground
  | escape => afterEscape c
  | escapeTail => if within '0' '~' c then ground else escapeTail
  | parameters => if within '@' '~' c then ground else parameters
  | command => if c = '\x07' then ground else command
  | deviceHead | deviceParameters | deviceTail => s.inDeviceHead c
  | string => if endsString c then ground else string

/-- Whether a character is shown. -/
def shows (s : SequenceState) (c : Char) : Bool :=
  match s with
  | ground => isKeptControl c || (' ' ≤ c && c ≠ '\x7f')
  | escape | escapeTail | parameters => isKeptControl c
  | command | deviceHead | deviceParameters | deviceTail | string => false

end SequenceState

/-- The characters that are shown where there is no terminal. `isOpen` says whether the one
before was shown. -/
def plainFrom (isOpen : Bool) (s : SequenceState) : List Char → List Char
  | [] => []
  | c :: cs =>
    if (if isOpen then .ground else s : SequenceState).shows c then
      c :: plainFrom true (if c.toNat < 0x80 then s else .ground) cs
    else plainFrom false (s.next c) cs

/-- A text without control sequences and control characters. -/
def plain (s : String) : String := String.ofList (plainFrom false .ground s.toList)

end IngressTls.Text
