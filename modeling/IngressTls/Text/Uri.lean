set_option autoImplicit false

/-! # Uniform resource identifiers

Whether a text is an identifier in one of the four forms that name a server or a resource on
it: `*`, a path, an authority alone, or a scheme with an authority and an optional path. An
authority is a host, with an optional colon and number behind it and optional credentials in
front. The checks look at bytes; bytes outside ASCII may stand in a path or a query, never in an
authority.
-/

namespace IngressTls.Text

/-- Why a text is no identifier. -/
inductive UriFault where
  /-- The text is empty, or nothing follows its scheme. -/
  | empty
  /-- The text is longer than 65534 bytes. -/
  | tooLong
  /-- The scheme is longer than 64 bytes. -/
  | schemeTooLong
  /-- A byte may not stand where it does. -/
  | badCharacter
  /-- Colons, brackets, percent signs or the end of the credentials are out of place. -/
  | badAuthority
  /-- A part is missing or follows where none may. -/
  | badFormat
  deriving DecidableEq, Repr

/-- The wording of a fault. -/
def UriFault.message : UriFault → String
  | empty => "empty string"
  | tooLong => "uri too long"
  | schemeTooLong => "scheme too long"
  | badCharacter => "invalid uri character"
  | badAuthority => "invalid authority"
  | badFormat => "invalid format"

/-- Whether a byte can stand in a scheme. -/
def isSchemeByte (b : UInt8) : Bool :=
  let c := Char.ofNat b.toNat
  c.isAlphanum && b < 0x80 || c = '+' || c = '-' || c = '.' || c = '~'

/-- Whether a byte can stand in an authority, or ends it. -/
def isAuthorityByte (b : UInt8) : Bool :=
  let c := Char.ofNat b.toNat
  b < 0x80 && (c.isAlphanum || "!#$&'()*+,-./:;=?@[]_~".toList.contains c)

/-- Whether a byte can stand in a path. -/
def isPathByte (b : UInt8) : Bool :=
  b = 0x21 || b = 0x22 || (0x24 ≤ b && b ≤ 0x3b) || b = 0x3d || (0x40 ≤ b && b ≤ 0x5f) ||
    (0x61 ≤ b && b ≠ 0x7f)

/-- Whether a byte can stand in a query. -/
def isQueryByte (b : UInt8) : Bool :=
  b = 0x21 || (0x24 ≤ b && b ≤ 0x3b) || b = 0x3d || (0x3f ≤ b && b ≠ 0x7f)

/-- What has been seen of an authority. -/
structure AuthorityScan where
  /-- The colons that may lead the number behind the host. -/
  colons : Nat := 0
  /-- An address in brackets has begun. -/
  opened : Bool := false
  /-- An address in brackets has ended. -/
  closed : Bool := false
  /-- A percent sign stands outside the credentials and the brackets. -/
  percent : Bool := false
  /-- The last byte ended the credentials. -/
  atEnd : Bool := false

/-- Takes the next byte of an authority. -/
def AuthorityScan.take (s : AuthorityScan) (b : UInt8) : Except UriFault AuthorityScan :=
  let s := { s with atEnd := false }
  match Char.ofNat b.toNat with
  | ':' => if 8 ≤ s.colons then .error .badAuthority else .ok { s with colons := s.colons + 1 }
  | '[' => if s.percent || s.opened then .error .badAuthority else .ok { s with opened := true }
  | ']' =>
    if !s.opened || s.closed then .error .badAuthority
    else .ok { s with closed := true, colons := 0, percent := false }
  | '@' => .ok { s with colons := 0, percent := false, atEnd := true }
  | '%' => .ok { s with percent := true }
  | _ => if isAuthorityByte b then .ok s else .error .badCharacter

/-- Whether a byte ends an authority. -/
def endsAuthority (b : UInt8) : Bool := b = '/'.toUInt8 || b = '?'.toUInt8 || b = '#'.toUInt8

/-- Checks the authority at the start of a text. -/
def authorityFault? (bs : List UInt8) : Option UriFault :=
  match (bs.takeWhile (!endsAuthority ·)).foldlM AuthorityScan.take {} with
  | .error e => some e
  | .ok s =>
    if s.opened != s.closed || 1 < s.colons || s.atEnd || s.percent then some .badAuthority
    else none

/-- Checks a path with an optional query; what follows a `#` is not looked at. -/
def pathFault? (bs : List UInt8) : Option UriFault :=
  let ends (b : UInt8) : Bool := b = '?'.toUInt8 || b = '#'.toUInt8
  let query : List UInt8 :=
    match bs.dropWhile (!ends ·) with
    | b :: rest => if b = '?'.toUInt8 then rest.takeWhile (· ≠ '#'.toUInt8) else []
    | [] => []
  if (bs.takeWhile (!ends ·)).all isPathByte && query.all isQueryByte then none
  else some .badCharacter

/-- The bytes of a scheme at the start of a text, if it has one. -/
def scheme? (bs : List UInt8) : Option (List UInt8) :=
  let scheme := bs.takeWhile isSchemeByte
  if (bs.drop scheme.length).take 3 = "://".toUTF8.toList && 3 < bs.length then some scheme
  else none

/-- Checks an identifier. -/
def uriFault? (bs : List UInt8) : Option UriFault :=
  if 65534 < bs.length then some .tooLong
  else match bs with
  | [] => some .empty
  | [b] =>
    if b = '/'.toUInt8 || b = '*'.toUInt8 then none
    else (authorityFault? bs).or (if endsAuthority b then some .badCharacter else none)
  | b :: _ =>
    if b = '/'.toUInt8 then pathFault? bs
    else match scheme? bs with
    | none =>
      (authorityFault? bs).or (if bs.any endsAuthority then some .badFormat else none)
    | some scheme =>
      if 64 < scheme.length then some .schemeTooLong
      else
        let rest := bs.drop (scheme.length + 3)
        if rest.isEmpty then some .empty
        else (authorityFault? rest).or <|
          if (rest.takeWhile (!endsAuthority ·)).isEmpty then some .badFormat
          else pathFault? (rest.dropWhile (!endsAuthority ·))

/-- The path of a path with an optional query and fragment. -/
def pathPart (target : String) : String :=
  String.ofList (target.toList.takeWhile fun c => c ≠ '?' && c ≠ '#')

end IngressTls.Text
