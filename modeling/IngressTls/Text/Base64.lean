set_option autoImplicit false

/-! # Base64

The standard alphabet with padding. Reading is strict: padding must be there and stand at
the end of the last group of four, and the bits of the last symbol that belong to no byte
must be zero. A fault names the first offending position.
-/

namespace IngressTls.Text.Base64

/-- Why a text is not the base64 form of any bytes. -/
inductive Fault where
  /-- A byte outside the alphabet, or padding where none may stand. -/
  | symbol (byte offset : Nat)
  /-- A last group with a single symbol. -/
  | length (count : Nat)
  /-- A last symbol with bits that belong to no byte. -/
  | lastSymbol (byte offset : Nat)
  /-- Padding that does not fill the last group. -/
  | padding
  deriving Repr, DecidableEq

/-- The wording of a fault. -/
def Fault.message : Fault → String
  | symbol byte offset => s!"Invalid symbol {byte}, offset {offset}."
  | length count => s!"Invalid input length: {count}"
  | lastSymbol byte offset => s!"Invalid last symbol {byte}, offset {offset}."
  | padding => "Invalid padding"

/-- The byte of the padding character `=`. -/
def pad : UInt8 := 61

/-- The alphabet, in the order of the values 0 to 63. -/
def alphabet : List Char :=
  "ABCDEFGHIJKLMNOPQRSTUVWXYZabcdefghijklmnopqrstuvwxyz0123456789+/".toList

/-- The symbol of a value below 64. -/
def symbolOf (n : Nat) : Char := alphabet.getD n 'A'

/-- The value of a symbol. -/
def valueOf? (b : UInt8) : Option Nat :=
  let n := b.toNat
  if 65 ≤ n && n ≤ 90 then some (n - 65)
  else if 97 ≤ n && n ≤ 122 then some (n - 71)
  else if 48 ≤ n && n ≤ 57 then some (n + 4)
  else if n = 43 then some 62
  else if n = 47 then some 63
  else none

/-- The bytes in base64, with padding. -/
def encodeBytes : List UInt8 → List Char
  | [] => []
  | [a] =>
    let n := a.toNat * 16
    [symbolOf (n / 64), symbolOf (n % 64), '=', '=']
  | [a, b] =>
    let n := (a.toNat * 256 + b.toNat) * 4
    [symbolOf (n / 4096), symbolOf (n / 64 % 64), symbolOf (n % 64), '=']
  | a :: b :: c :: rest =>
    let n := (a.toNat * 256 + b.toNat) * 256 + c.toNat
    symbolOf (n / 262144) :: symbolOf (n / 4096 % 64) :: symbolOf (n / 64 % 64) ::
      symbolOf (n % 64) :: encodeBytes rest

/-- The bytes as a base64 text. -/
def encode (bs : List UInt8) : String := String.ofList (encodeBytes bs)

/-- What was read of the last group: the symbol values so far, the last symbol, and how
many padding bytes have followed since which place. -/
structure LastGroup where
  /-- Values of the symbols, in order. -/
  values : List Nat
  /-- The last symbol read. -/
  last : UInt8
  /-- The place of the first padding byte in the group. -/
  firstPad : Nat
  /-- The number of padding bytes. -/
  pads : Nat

/-- Reads the last group of at most four bytes, which starts at `offset`; `place` counts
within the group. -/
def readGroup (offset : Nat) : Nat → LastGroup → List UInt8 → Except Fault LastGroup
  | _, g, [] => .ok g
  | place, g, b :: bs =>
    if b = pad then
      if place < 2 then .error (.symbol b.toNat (offset + place))
      else
        let first := if g.pads = 0 then place else g.firstPad
        readGroup offset (place + 1) ⟨g.values, g.last, first, g.pads + 1⟩ bs
    else if 0 < g.pads then .error (.symbol pad.toNat (offset + g.firstPad))
    else
      match valueOf? b with
      | none => .error (.symbol b.toNat (offset + place))
      | some v => readGroup offset (place + 1) ⟨g.values ++ [v], b, g.firstPad, g.pads⟩ bs

/-- The bytes of the last group, once it has been read. -/
def closeGroup (offset : Nat) (g : LastGroup) : Except Fault (List UInt8) :=
  if (g.pads + g.values.length) % 4 ≠ 0 then .error .padding
  else
    match g.values with
    | [a, b, c, d] =>
      let n := ((a * 64 + b) * 64 + c) * 64 + d
      .ok [UInt8.ofNat (n / 65536), UInt8.ofNat (n / 256), UInt8.ofNat n]
    | [a, b, c] =>
      let n := (a * 64 + b) * 64 + c
      if n % 4 ≠ 0 then .error (.lastSymbol g.last.toNat (offset + 2))
      else .ok [UInt8.ofNat (n / 1024), UInt8.ofNat (n / 4)]
    | [a, b] =>
      let n := a * 64 + b
      if n % 16 ≠ 0 then .error (.lastSymbol g.last.toNat (offset + 1))
      else .ok [UInt8.ofNat (n / 16)]
    | _ => .ok []

/-- Decodes the bytes from `offset` on; the group that ends the text is read with its
padding, every group before it must be four symbols. -/
def decodeFrom (offset : Nat) : List UInt8 → Except Fault (List UInt8)
  | a :: b :: c :: d :: e :: rest =>
    match valueOf? a, valueOf? b, valueOf? c, valueOf? d with
    | some i, some j, some k, some l =>
      let n := ((i * 64 + j) * 64 + k) * 64 + l
      (decodeFrom (offset + 4) (e :: rest)).map fun bs =>
        UInt8.ofNat (n / 65536) :: UInt8.ofNat (n / 256) :: UInt8.ofNat n :: bs
    | none, _, _, _ => .error (.symbol a.toNat offset)
    | _, none, _, _ => .error (.symbol b.toNat (offset + 1))
    | _, _, none, _ => .error (.symbol c.toNat (offset + 2))
    | _, _, _, none => .error (.symbol d.toNat (offset + 3))
  | [] => .ok []
  | group =>
    match readGroup offset 0 ⟨[], 0, 0, 0⟩ group with
    | .error e => .error e
    | .ok g =>
      if g.values.length < 2 then .error (.length (offset + g.values.length))
      else closeGroup offset g

/-- A single byte after whole groups that is neither a symbol nor padding; it is reported
before any other fault. -/
def strayByte? (bs : List UInt8) : Option Fault :=
  match bs.length % 4, bs.getLast? with
  | 1, some b =>
    if b ≠ pad && (valueOf? b).isNone then some (.symbol b.toNat (bs.length - 1)) else none
  | _, _ => none

/-- The bytes that a base64 text stands for. -/
def decode (s : String) : Except Fault (List UInt8) :=
  let bs := s.toUTF8.toList
  match strayByte? bs with
  | some fault => .error fault
  | none => decodeFrom 0 bs

end IngressTls.Text.Base64
