import IngressTls.Quota
import IngressTls.Certificate
import IngressTls.Text.Quoted

set_option autoImplicit false

/-! # Errors

The causes of failure, one type per place where they arise, and one wording for each. An
error says about itself whether the authority only asked for patience and whether the same
attempt can succeed later.
-/

namespace IngressTls

/-- Failures of a call to the platform. -/
inductive AuthorityError where
  /-- The certificate is ordered but not ready. -/
  | pending
  /-- The platform answered with an error status. -/
  | platform (status : Nat) (message : String)
  /-- No usable answer came. -/
  | transport (message : String)
  /-- The answer could not be read. -/
  | decode (message : String)
  deriving DecidableEq, Repr

namespace AuthorityError

/-- The wording of a failure. -/
def message : AuthorityError → String
  | pending => "certificate issuance pending"
  | platform status message => s!"platform error (status {status}): {message}"
  | transport message => s!"transport error: {message}"
  | decode message => s!"invalid response: {message}"

/-- Whether the same call can succeed later. Of the error statuses these are "too many
requests" and those of a failing server. -/
def isRetryable : AuthorityError → Bool
  | pending | transport _ => true
  | platform status _ => status = 429 || 500 ≤ status
  | decode _ => false

end AuthorityError

/-- The status object with which the API server refuses a request. -/
structure ApiStatus where
  /-- The outcome in one word. -/
  status : String
  /-- What went wrong. -/
  message : String
  /-- The cause in one word. -/
  reason : String
  /-- The HTTP status code. -/
  code : Nat
  deriving DecidableEq, Repr

/-- The wording of a refusal. -/
def ApiStatus.text (s : ApiStatus) : String :=
  let status := Text.quoted s.status
  let message := Text.quoted s.message
  let reason := Text.quoted s.reason
  s!"ApiError: {s.message}: {s.reason} (ErrorResponse \x7b status: {status}, " ++
    s!"message: {message}, reason: {reason}, code: {s.code} \x7d)"

/-- Failures of a request to the API server. -/
inductive ApiError where
  /-- The server refused the request. -/
  | refused (status : ApiStatus)
  /-- The request could not be built. -/
  | badRequest
  /-- The answer could not be read. -/
  | unreadable
  deriving DecidableEq, Repr

/-- The wording of a failure. -/
def ApiError.message : ApiError → String
  | refused s => s.text
  | badRequest => "request could not be built"
  | unreadable => "response could not be read"

/-- The failures of the program. -/
inductive Error where
  /-- A request to the API server failed. -/
  | api (error : ApiError)
  /-- The quota refused the request. -/
  | quota (refusal : QuotaRefusal)
  /-- The authority failed. -/
  | authority (error : AuthorityError)
  /-- The target secret belongs to somebody else. -/
  | foreignSecret (secret : SecretRef)
  /-- The bookkeeping of a managed secret is malformed. -/
  | invalidSecret (secret : SecretRef) (message : String)
  /-- The caches were not filled in time. -/
  | cacheSync (message : String)
  /-- The settings are invalid. -/
  | validation (message : String)
  /-- A value could not be written or read back. -/
  | serialization (message : String)
  /-- An operational failure, with the place where it happened. -/
  | internal (context message : String)
  deriving DecidableEq, Repr

namespace Error

/-- An operational failure in no particular place. -/
def internalUnknown (message : String) : Error := internal "unknown" message

/-- The wording of an error. -/
def message : Error → String
  | api e => "kubernetes error: " ++ e.message
  | quota e => "quota admission rejected: " ++ e.message
  | authority e => "authority error: " ++ e.message
  | foreignSecret s => s!"secret {s.ns}/{s.name} is not managed by this controller"
  | invalidSecret s m => s!"invalid managed secret {s.ns}/{s.name}: {m}"
  | cacheSync m => "cache sync failed: " ++ m
  | validation m => "validation error: " ++ m
  | serialization m => "serialization error: " ++ m
  | internal context m => s!"internal error [{context}]: {m}"

/-- Whether the authority asked for patience. -/
def isPending : Error → Bool
  | authority .pending => true
  | _ => false

/-- Whether the same attempt can succeed later without a change from outside. -/
def isRetryable : Error → Bool
  | api _ | internal _ _ => true
  | authority e => e.isRetryable
  | quota _ | foreignSecret _ | invalidSecret _ _ | cacheSync _ | validation _
  | serialization _ => false

end Error

end IngressTls
