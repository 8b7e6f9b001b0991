import IngressTls.Json.Printer

set_option autoImplicit false

/-! # YAML

The block form of a value: one member or item a line, the parts of a member indented under
it, the items of a list at the indentation of the member that holds them. Empty lists and
objects stand in brackets on the line of their member. A text stands without quotes where
that reads back as the same text.
-/

namespace IngressTls.Json

/-- Words that would read as something other than a text. -/
def reservedWords : List String :=
  ["null", "Null", "NULL", "~", "true", "True", "TRUE", "false", "False", "FALSE"]

/-- Whether a text can stand without quotes: it begins with a letter, a dot or a slash that
is followed by one, holds no line break, and nothing in it reads as the start of a value or
of a comment. -/
def isPlain (s : String) : Bool :=
  let cs := s.toList
  match cs with
  | [] => false
  | c :: rest =>
    (c.isAlpha || ((c = '.' || c = '/') && rest.head?.any Char.isAlpha)) &&
      !reservedWords.contains s && cs.all (fun c => 0x20 ≤ c.toNat && c.toNat < 0x7f) &&
      !(cs.zip (rest ++ [' '])).any (fun (a, b) => (a = ':' && b = ' ') || (a = ' ' && b = '#')) &&
      cs.getLast? ≠ some ' '

/-- A text as a scalar. -/
def textScalar (s : String) : String :=
  if isPlain s then s
  else "'" ++ String.ofList (s.toList.flatMap fun c => if c = '\'' then ['\'', '\''] else [c]) ++ "'"

mutual

/-- The lines of a value that stands on lines of its own. -/
def blockLines : Json → List String
  | .null | .unreadable => ["null"]
  | .bool true => ["true"]
  | .bool false => ["false"]
  | .number d => [decimalText d]
  | .string s => [textScalar s]
  | .array [] => ["[]"]
  | .array (x :: xs) => itemLines (x :: xs)
  | .object [] => ["\x7b\x7d"]
  | .object (m :: ms) => memberLines (m :: ms)

/-- The lines of the items of a list. -/
def itemLines : List Json → List String
  | [] => []
  | x :: xs =>
    (match blockLines x with
      | [] => []
      | first :: rest => ("- " ++ first) :: rest.map ("  " ++ ·)) ++ itemLines xs

/-- The lines of the members of an object. -/
def memberLines : List (String × Json) → List String
  | [] => []
  | (k, v) :: ms =>
    let lines := blockLines v
    let own := match v with
      | .array (_ :: _) => (textScalar k ++ ":") :: lines
      | .object (_ :: _) => (textScalar k ++ ":") :: lines.map ("  " ++ ·)
      | _ => lines.map (textScalar k ++ ": " ++ ·)
    own ++ memberLines ms

end

/-- A value as a YAML document. -/
def yaml (j : Json) : String := String.join ((blockLines j).map (· ++ "\n"))

end IngressTls.Json
