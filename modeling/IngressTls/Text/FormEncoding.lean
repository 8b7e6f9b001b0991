set_option autoImplicit false

/-! # Form encoding

The `application/x-www-form-urlencoded` form of a name or a value: letters, digits and
`*-._` stand for themselves, a space becomes `+`, and every other byte of the UTF-8 form
becomes `%` and two upper-case hexadecimal digits.
-/

namespace IngressTls.Text

/-- The upper-case hexadecimal digit of a number below 16. -/
def upperHexDigit (n : Nat) : Char := "0123456789ABCDEF".toList.getD n '0'

/-- One byte in form encoding. -/
def formByte (b : UInt8) : List Char :=
  let c := Char.ofNat b.toNat
  if b.toNat < 0x80 && (c.isAlphanum || c = '*' || c = '-' || c = '.' || c = '_') then [c]
  else if c = ' ' then ['+']
  else ['%', upperHexDigit (b.toNat / 16), upperHexDigit (b.toNat % 16)]

/-- A text in form encoding. -/
def formEncoded (s : String) : String := String.ofList (s.toUTF8.toList.flatMap formByte)

/-- A query parameter in form encoding. -/
def formPair (name value : String) : String := formEncoded name ++ "=" ++ formEncoded value

end IngressTls.Text
