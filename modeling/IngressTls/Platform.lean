import IngressTls.Certificate
import IngressTls.Error
import IngressTls.Instant.Rfc3339
import IngressTls.Json.Decode
import IngressTls.Json.Reader
import IngressTls.Settings
import IngressTls.Text.Base64
import IngressTls.Text.FormEncoding

set_option autoImplicit false

/-! # The platform

The platform orders certificates and is told how much of the quota is in use. This file holds
the requests and what comes of them. A certificate is answered with status 200, an order that
takes time with 202; any other status is an error, and its body names the cause in a member
`error` or is the cause itself.
-/

namespace IngressTls

/-- A connection to the platform. -/
structure PlatformClient where
  /-- The base URL, without a trailing slash. -/
  base : String
  /-- The bearer token. -/
  token : String
  /-- The time limit of a call, in seconds. -/
  timeout : Nat := 5
  deriving DecidableEq, Repr

/-- A request to the platform. -/
structure PlatformRequest where
  /-- The method in capitals. -/
  method : String
  /-- The whole URL. -/
  url : String
  /-- The authorization. -/
  authorization : String
  /-- The body; there is a content type if and only if there is a body. -/
  body : Option Json

/-- What came of a request. -/
inductive Exchange where
  /-- There was no answer. -/
  | failed (message : String)
  /-- There was an answer; its body is missing if the connection broke. -/
  | answered (status : Nat) (body : Option String)

namespace PlatformClient

/-- A client for a base URL and a token, with the usual time limit. -/
def new (base token : String) : PlatformClient := { base := Settings.withoutSlash base, token }

/-- A client with a time limit. It needs a transport; `build` says whether there is one for a time
limit, or why there is none. -/
def connect (build : Nat → Except String Unit) (base token : String) (timeout : Nat) :
    Except Error PlatformClient :=
  match build timeout with
  | .error why => .error (.internal "platform_client" why)
  | .ok () => .ok { new base token with timeout }

/-- A client as it is set. -/
def ofSettings (build : Nat → Except String Unit) (s : Settings) : Except Error PlatformClient :=
  connect build s.platformUrl s.platformToken s.platformTimeout

/-- The URL of a path. -/
def url (c : PlatformClient) (path : String) : String := c.base ++ path

/-- The authorization of every request. -/
def authorization (c : PlatformClient) : String := "Bearer " ++ c.token

/-- Whether a text can be sent as a header: it holds no control character but the tab. -/
def isHeaderText (s : String) : Bool :=
  s.toUTF8.toList.all fun b => b = 9 || (32 ≤ b && b ≠ 127)

/-- Whether requests can be sent at all. -/
def isUsable (c : PlatformClient) : Bool :=
  Settings.isWebAddress c.base && isHeaderText c.authorization

/-- A URL with one more query parameter. -/
def withParameter (url name value : String) : String :=
  url ++ (if url.toList.contains '?' then "&" else "?") ++ Text.formPair name value

/-- Orders a certificate for some hosts. -/
def certificateRequest (c : PlatformClient) (hosts : List String) : PlatformRequest :=
  let url := withParameter (c.url "/certificates") "domains" (",".intercalate hosts)
  ⟨"GET", url, c.authorization, none⟩

/-- Tells the platform how much of the quota is in use. -/
def usageRequest (c : PlatformClient) (inUse : Int) : PlatformRequest :=
  ⟨"POST", c.url "/quotas/secured-routes", c.authorization,
    some (.object [("inUse", .int inUse)])⟩

end PlatformClient

namespace Exchange

/-- A body that cannot be read. -/
def unreadable : AuthorityError := .decode "error decoding response body"

/-- Reads an instant. -/
def instant? (j : Json) : Option Instant := j.string?.bind Instant.ofRfc3339?

/-- A certificate whose chain and key are still base64. -/
structure Payload where
  /-- The certificate chain. -/
  chain : String
  /-- The private key. -/
  privateKey : String
  /-- The hosts. -/
  hosts : List String
  /-- The start of validity. -/
  notBefore : Instant
  /-- The end of validity. -/
  notAfter : Instant

/-- Reads a certificate out of JSON. -/
def payload? (j : Json) : Option Payload := do
  let j ← j.asRecord ["certificate", "privateKey", "domains", "notBefore", "notAfter"]
  let chain ← j.required "certificate" Json.string?
  let privateKey ← j.required "privateKey" Json.string?
  let hosts ← j.defaulted "domains" Json.texts? []
  let notBefore ← j.required "notBefore" instant?
  let notAfter ← j.required "notAfter" instant?
  return ⟨chain, privateKey, hosts, notBefore, notAfter⟩

/-- Reads a member in base64. -/
def bytesOf (member text : String) : Except AuthorityError (List UInt8) :=
  match Text.Base64.decode text with
  | .ok bytes => .ok bytes
  | .error fault => .error (.decode s!"{member}: {fault.message}")

/-- The certificate with its chain and key in bytes; the chain is looked at first. -/
def Payload.certificate (p : Payload) : Except AuthorityError Certificate := do
  let chain ← bytesOf "certificate" p.chain
  let privateKey ← bytesOf "privateKey" p.privateKey
  return ⟨chain, privateKey, p.hosts, p.notBefore, p.notAfter⟩

/-- The cause that the body of an error names. -/
def cause? (body : String) : Option String := do
  let j ← (← Json.read? body).asRecord ["error"]
  j.required "error" Json.string?

/-- The error that an answer is. -/
def errorOf (status : Nat) (body : Option String) : AuthorityError :=
  match body with
  | none => .transport "error decoding response body"
  | some body => .platform status ((cause? body).getD body)

/-- What came of ordering a certificate. -/
def certificate : Exchange → Except AuthorityError Certificate
  | failed message => .error (.transport message)
  | answered status body =>
    if status = 200 then
      match body.bind fun b => (Json.read? b).bind payload? with
      | some p => p.certificate
      | none => .error unreadable
    else if status = 202 then .error .pending
    else .error (errorOf status body)

/-- What came of telling the figure. -/
def usage : Exchange → Except AuthorityError Unit
  | failed message => .error (.transport message)
  | answered status body =>
    if 200 ≤ status && status < 300 then .ok () else .error (errorOf status body)

end Exchange

end IngressTls
