import IngressTls.Error
import IngressTls.Resource.Secret
import IngressTls.Text.Integer
import IngressTls.Wire

set_option autoImplicit false

/-! # Bookkeeping on managed secrets

A managed secret carries the label of the controller that owns it and three annotations:
the hosts its certificate covers and the two ends of its validity. `managedSecret` writes
them, `Bookkeeping.read` reads them back, so that neither renewal nor the comparison of
demand with what is stored has to look into the certificate.
-/

namespace IngressTls

/-- Whether an object carries the ownership label of a controller. -/
def Metadata.isManagedBy (m : Metadata) (controllerName : String) : Bool :=
  m.label? Wire.managedByLabel = some controllerName

/-- The secret that stores a certificate for a request. -/
def managedSecret (request : Request) (certificate : Certificate) (controllerName : String) :
    Secret :=
  { metadata :=
      { Metadata.empty with
        name := some request.target.name
        ns := some request.target.ns
        labels := some (Table.ofList [(Wire.managedByLabel, controllerName)])
        annotations := some (Table.ofList
          [(Wire.domainsKey, request.domains.joined),
           (Wire.notBeforeKey, toString certificate.notBefore.seconds),
           (Wire.notAfterKey, toString certificate.notAfter.seconds)]) }
    data := some (Table.ofList
      [(Wire.certificateEntry, certificate.chain), (Wire.privateKeyEntry, certificate.privateKey)])
    type := some Wire.tlsSecretType
    others := [] }

/-- What the annotations of a managed secret record. -/
structure Bookkeeping where
  /-- The place of the secret. -/
  secret : SecretRef
  /-- The hosts the certificate covers. -/
  domains : DomainSet
  /-- The start of validity. -/
  notBefore : Instant
  /-- The end of validity. -/
  notAfter : Instant
  deriving DecidableEq

/-- What is wrong with an annotation. -/
inductive BookkeepingFault where
  /-- The annotation is missing. -/
  | missing (key : String)
  /-- The annotation is not a Unix second. -/
  | notATimestamp (key value : String) (fault : Text.IntFault)
  /-- There is no such instant. -/
  | outOfRange (key value : String)
  deriving DecidableEq, Repr

/-- The wording of a fault. -/
def BookkeepingFault.message : BookkeepingFault → String
  | missing key => s!"missing {key}"
  | notATimestamp key value fault =>
    let shown := Text.quoted value
    let why := fault.message
    s!"{key}={shown} is not a unix timestamp: {why}"
  | outOfRange key value =>
    let shown := Text.quoted value
    s!"{key}={shown} is out of range"

namespace Bookkeeping

/-- Reads an annotation that holds a Unix second. -/
def readInstant (m : Metadata) (key : String) : Except BookkeepingFault Instant :=
  match m.annotated? key with
  | none => .error (.missing key)
  | some raw =>
    match Text.readInt .int64 (Text.trimChars raw.toList) with
    | .error fault => .error (.notATimestamp key raw fault)
    | .ok seconds =>
      match Instant.ofSeconds? seconds with
      | none => .error (.outOfRange key raw)
      | some t => .ok t

/-- Reads the annotations; of several faults the first one counts. -/
def readFrom (m : Metadata) : Except BookkeepingFault Bookkeeping :=
  match m.annotated? Wire.domainsKey with
  | none => .error (.missing Wire.domainsKey)
  | some hosts => do
    let notBefore ← readInstant m Wire.notBeforeKey
    let notAfter ← readInstant m Wire.notAfterKey
    return ⟨⟨m.nsOrEmpty, m.displayName⟩, DomainSet.ofJoined hosts, notBefore, notAfter⟩

/-- Reads the bookkeeping of a secret. -/
def read (s : Secret) : Except Error Bookkeeping :=
  (readFrom s.metadata).mapError fun fault => .invalidSecret s.ref fault.message

/-- The request that stored the secret. -/
def toRequest (b : Bookkeeping) : Request := ⟨b.domains, b.secret⟩

end Bookkeeping

end IngressTls
