import IngressTls.Domain
import IngressTls.Instant.Basic

set_option autoImplicit false

/-! # Certificates and requests for them

A request asks for a certificate that covers a set of domains, to be stored in one secret.
The secret's key `name@namespace` is the identity under which requests are queued and
quota is held.
-/

namespace IngressTls

/-- The place of a secret: its namespace and its name there. -/
structure SecretRef where
  /-- The namespace. -/
  ns : String
  /-- The name within the namespace. -/
  name : String
  deriving DecidableEq, Repr, Inhabited

/-- The key of a secret, `name@namespace`. -/
def SecretRef.key (r : SecretRef) : String := r.name ++ "@" ++ r.ns

/-- A request for a certificate. -/
structure Request where
  /-- The hosts to cover. -/
  domains : DomainSet
  /-- Where the certificate is stored. -/
  target : SecretRef
  deriving DecidableEq, Inhabited

namespace Request

/-- The request for a collection of hosts, which is brought into canonical form. -/
def ofHosts (hosts : List String) (target : SecretRef) : Request :=
  ⟨DomainSet.ofHosts hosts, target⟩

/-- The key of the secret that the request is for. -/
def key (r : Request) : String := r.target.key

end Request

/-- A signed certificate. -/
structure Certificate where
  /-- The certificate chain, PEM encoded. -/
  chain : List UInt8
  /-- The private key, PEM encoded. -/
  privateKey : List UInt8
  /-- The hosts it covers. -/
  hosts : List String
  /-- The start of validity. -/
  notBefore : Instant
  /-- The end of validity. -/
  notAfter : Instant
  deriving DecidableEq, Inhabited

end IngressTls
