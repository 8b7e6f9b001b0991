import IngressTls.Text.Integer
import IngressTls.Text.Split

set_option autoImplicit false

/-! # Addresses of hosts

Which texts are an IPv6 address. Such an address is eight groups of up to four hexadecimal
digits with colons between them; once, two colons in a row may stand for one or more groups
of zeros, and the last two groups may be written as an IPv4 address. An address has no zone
and no brackets.
-/

namespace IngressTls.Text

/-- Whether a text is a number below 256 without needless zeros in front. -/
def isOctet (cs : List Char) : Bool :=
  cs.all Char.isDigit && (cs.length = 1 || cs.head? ≠ some '0') &&
    (readInt ⟨0, 255⟩ cs matches .ok _)

/-- Whether a text is an IPv4 address. -/
def isIpv4 (cs : List Char) : Bool :=
  let parts := splitAt '.' cs
  parts.length = 4 && parts.all isOctet

/-- Whether a text is a group of an IPv6 address. -/
def isAddressGroup (cs : List Char) : Bool :=
  1 ≤ cs.length && cs.length ≤ 4 && cs.all fun c => (hexValue? c).isSome

/-- How many groups a part of an IPv6 address stands for, if it is one. Only the last part of
an address may end in an IPv4 address. -/
def groupCount? (isLast : Bool) (cs : List Char) : Option Nat :=
  if cs.isEmpty then some 0
  else
    let parts := splitAt ':' cs
    let final := parts.getLastD []
    if !parts.dropLast.all isAddressGroup then none
    else if isAddressGroup final then some parts.length
    else if isLast && isIpv4 final then some (parts.length + 1)
    else none

/-- What stands before and after the first two colons in a row. -/
def cutAtGap? : List Char → Option (List Char × List Char)
  | ':' :: ':' :: cs => some ([], cs)
  | c :: cs => (cutAtGap? cs).map fun (front, back) => (c :: front, back)
  | [] => none

/-- Whether a text is an IPv6 address. -/
def isIpv6 (cs : List Char) : Bool :=
  match cutAtGap? cs with
  | none => groupCount? true cs = some 8
  | some (front, back) =>
    match groupCount? false front, groupCount? true back with
    | some m, some n => m + n ≤ 7
    | _, _ => false

end IngressTls.Text
