import IngressTls.Error
import IngressTls.Http.Status
import IngressTls.Json.Printer
import IngressTls.Json.Reader
import IngressTls.Resource.Secret
import IngressTls.Text.FormEncoding
import IngressTls.Text.Split
import IngressTls.Text.Uri
import IngressTls.Wire

set_option autoImplicit false

/-! # Secrets on the API server

The requests that read, write, delete and list secrets, and what their answers mean. Writing
replaces the fields that this controller manages, even against other managers. A secret that
is missing is no error for reading and for deleting, but the two are told apart in different
ways: reading looks at the reason that the server gives, deleting at its code.
-/

namespace IngressTls.SecretApi

/-- What a request does. -/
inductive Method where
  | get | patch | delete
  deriving DecidableEq, Repr

/-- A request to the API server. -/
structure ApiRequest where
  /-- What it does. -/
  method : Method
  /-- The path. -/
  path : String
  /-- The query parameters as they are sent. -/
  query : List String
  /-- The form of the body. -/
  contentType : Option String
  /-- The body. -/
  body : Option Json

/-- An answer of the API server. -/
structure ApiResponse where
  /-- The HTTP status. -/
  status : Nat
  /-- The body. -/
  body : String

/-! ## Requests -/

/-- A request to a target, which must be a path with an optional query. -/
def request (method : Method) (target : String) (content : Option (String × Json)) :
    Except Error ApiRequest :=
  match Text.uriFault? target.toUTF8.toList with
  | some _ => .error (.api .badRequest)
  | none =>
    let cs := target.toList.takeWhile (· ≠ '#')
    let parameters := Text.splitAt '&' ((cs.dropWhile (· ≠ '?')).drop 1)
    .ok ⟨method, Text.pathPart target,
      (parameters.filter (!·.isEmpty)).map String.ofList,
      content.map Prod.fst, content.map Prod.snd⟩

/-- The path of a secret, whose name may not be empty. -/
def pathOf (secret : SecretRef) : Except Error String :=
  if secret.name.isEmpty then .error (.api .badRequest)
  else .ok s!"/api/v1/namespaces/{secret.ns}/secrets/{secret.name}"

/-- Asks for a secret. -/
def getRequest (secret : SecretRef) : Except Error ApiRequest := do
  request .get (← pathOf secret) none

/-- Writes a secret in the name of a field manager, whose name has at most 128 bytes. -/
def applyRequest (manager : String) (s : Secret) : Except Error ApiRequest := do
  let ns ←
    match s.metadata.ns with
    | some ns => .ok ns
    | none => .error (.internal "apply_secret" "secret has no namespace")
  let path ← pathOf ⟨ns, s.metadata.displayName⟩
  if 128 < manager.utf8ByteSize then throw (.api .badRequest)
  let parameters := Text.formPair "fieldManager" manager ++ "&" ++ Text.formPair "force" "true"
  request .patch (path ++ "?&" ++ parameters) (some ("application/apply-patch+yaml", s.toJson))

/-- Deletes a secret. -/
def deleteRequest (secret : SecretRef) : Except Error ApiRequest := do
  request .delete ((← pathOf secret) ++ "?") (some ("application/json", .object []))

/-- Asks for the secrets that a controller manages. -/
def listRequest (manager : String) : Except Error ApiRequest :=
  let selector := Wire.managedByLabel ++ "=" ++ manager
  request .get ("/api/v1/secrets?&" ++ Text.formPair "labelSelector" selector) none

/-! ## Answers -/

/-- Reads a natural number below 65536. -/
def code? (j : Json) : Option Nat :=
  j.int?.bind fun n => if Text.IntRange.nat16.has n then some n.toNat else none

/-- Reads the status object of a refusal. -/
def refusal? (j : Json) : Option ApiStatus := do
  let j ← j.asRecord ["status", "message", "reason", "code"]
  let status ← j.required "status" Json.string?
  let message ← j.defaulted "message" Json.string? ""
  let reason ← j.defaulted "reason" Json.string? ""
  let code ← j.required "code" code?
  return ⟨status, message, reason, code⟩

/-- The refusal that an answer is; an unreadable body is quoted in it. -/
def refusal (r : ApiResponse) : ApiStatus :=
  ((Json.read? r.body).bind refusal?).getD
    ⟨Http.statusText r.status, Text.quoted r.body, "Failed to parse error data", r.status⟩

/-- The body of an answer, read by a reader, unless the answer is a refusal. -/
def accepted {α : Type} (read : Json → Option α) (r : ApiResponse) : Except Error α :=
  if Http.isErrorStatus r.status then .error (.api (.refused (refusal r)))
  else match (Json.read? r.body).bind read with
  | some v => .ok v
  | none => .error (.api .unreadable)

/-- The outcome of reading a secret; one that is not found is absent. -/
def absentIfNotFound : Except Error Secret → Except Error (Option Secret)
  | .ok s => .ok (some s)
  | .error (.api (.refused s)) =>
    if s.reason = "NotFound" then .ok none else .error (.api (.refused s))
  | .error e => .error e

/-- What the answer to a request for a secret says. -/
def readGet (r : ApiResponse) : Except Error (Option Secret) :=
  absentIfNotFound (accepted Secret.ofJson? r)

/-- What the answer to a written secret says. -/
def readApply (r : ApiResponse) : Except Error Unit := do
  let _ ← accepted Secret.ofJson? r

/-- Reads a word that tells of an outcome; it may also be the name of a null. -/
def outcome? (j : Json) : Option Unit :=
  let word := match j with
    | .object [(name, .null)] => some name
    | j => j.string?
  if word = some "Success" || word = some "Failure" then some () else none

/-- Reads a natural number below 2 ^ 32. -/
def seconds? (j : Json) : Option Int :=
  j.int?.bind fun n => if Text.IntRange.nat32.has n then some n else none

/-- Reads a cause of an outcome. -/
def cause? (j : Json) : Option Unit := do
  let members := ["reason", "message", "field"]
  let j ← j.asRecord members
  let _ ← members.mapM fun m => j.defaulted m Json.string? ""

/-- Reads the details of an outcome. -/
def details? (j : Json) : Option Unit := do
  let texts := ["name", "group", "kind", "uid"]
  let j ← j.asRecord (texts ++ ["causes", "retryAfterSeconds"])
  let _ ← texts.mapM fun m => j.defaulted m Json.string? ""
  let _ ← j.defaulted "causes" (Json.listOf? cause?) []
  let _ ← j.defaulted "retryAfterSeconds" seconds? 0

/-- Reads a status object that says how a deletion went. -/
def deletion? (j : Json) : Option Unit := do
  let j ← j.asRecord ["code", "status", "message", "reason", "details"]
  let _ ← j.defaulted "code" code? 0
  let _ ← j.optional "status" outcome?
  let _ ← j.defaulted "message" Json.string? ""
  let _ ← j.defaulted "reason" Json.string? ""
  let _ ← j.optional "details" details?

/-- Reads the answer to a deletion: a status object, or the secret as it was. The answer must be
readable as a whole. -/
def deleted? (j : Json) : Option Unit :=
  if !j.isWhole then none
  else if (j.field "kind").string? = some "Status" then deletion? j
  else (Secret.ofJson? j).map fun _ => ()

/-- The outcome of deleting a secret; one that is missing counts as deleted. -/
def doneIfMissing : Except Error Unit → Except Error Unit
  | .error (.api (.refused s)) => if s.code = 404 then .ok () else .error (.api (.refused s))
  | outcome => outcome

/-- What the answer to a deletion says. -/
def readDelete (r : ApiResponse) : Except Error Unit := doneIfMissing (accepted deleted? r)

/-- Reads the metadata of a list. -/
def listMetadata? (j : Json) : Option Unit := do
  let j ← j.asObject
  let _ ← ["continue", "resourceVersion", "selfLink"].mapM fun m => j.optional m Json.string?
  let _ ← j.optional "remainingItemCount" fun c =>
    c.int?.bind fun n => if Text.IntRange.int64.has n then some n else none

/-- Reads a list of secrets; the list may be null but not missing. All other members of the
answer are kept for its type and must be readable as a whole. -/
def secrets? (j : Json) : Option (List Secret) := do
  let known := ["metadata", "items"]
  let others := (← j.members?).filter fun m => !known.contains m.1
  if !others.all fun m => m.2.isWhole then failure
  let j ← (← j.asObject).asRecord known
  let _ ← j.defaulted "metadata" listMetadata? ()
  let items ← j.required "items" (Json.nullOr (Json.listOf? Secret.ofJson?))
  return items.getD []

/-- What the answer to a request for a list says. -/
def readList (r : ApiResponse) : Except Error (List Secret) := accepted secrets? r

end IngressTls.SecretApi
