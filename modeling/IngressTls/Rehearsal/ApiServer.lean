import IngressTls.Bookkeeping
import IngressTls.Rehearsal.Workshop
import IngressTls.SecretApi
import IngressTls.Watch.Dispatch
import IngressTls.Watch.Kinds

set_option autoImplicit false

/-! # An API server in memory

A server that holds objects of all watched kinds. Whatever is written or deleted gets a new
resource version and is sent to the watch of its kind, unless it happens quietly or the watch
is not open. Requests about secrets can be told to be refused. The server also holds what
cannot be read as an object of its kind: a watch gets an error in place of it, and a listing
that holds it cannot be read at all.
-/

namespace IngressTls.Rehearsal

/-- The codes with which the next requests about secrets are refused, for each method. -/
structure Refusals where
  /-- Reads and listings. -/
  get : List Nat := []
  /-- Writes. -/
  patch : List Nat := []
  /-- Deletions. -/
  delete : List Nat := []

/-- An object as the server holds it. -/
structure Held (k : Kind) where
  /-- The object; only metadata if it cannot be read. -/
  object : k.Object
  /-- Whether it can be read as an object of its kind. -/
  isReadable : Bool

namespace Held

/-- The metadata of what cannot be read, as far as they can be. -/
def metadataOf (j : Json) : Metadata :=
  (Metadata.ofJson? j).getD
    { Metadata.empty with name := (j.field "name").string?, ns := (j.field "namespace").string? }

/-- What is held of an object that is given as JSON. -/
def ofJson (k : Kind) (j : Json) : Held k :=
  match k.object? j with
  | some o => ⟨o, true⟩
  | none => ⟨k.bare (metadataOf (j.field "metadata")), false⟩

/-- The item that tells a watch of an event with the object. -/
def item {k : Kind} (h : Held k) (event : k.Object → WatchEvent k.Object) :
    WatchItem k.Object :=
  if h.isReadable then .event (event h.object) else .error

/-- What an answer with the object is read as. -/
def read {k : Kind} (h : Held k) : Except Error k.Object :=
  if h.isReadable then .ok h.object else .error (.api .unreadable)

end Held

/-- The server. -/
structure ApiServer where
  /-- The last resource version. -/
  version : Nat
  /-- The objects, in the order of their namespaces and names. -/
  objects : PerKind fun k => List (Held k)
  /-- The kinds whose watch is open. -/
  watched : List Kind
  /-- What has been sent to the watches and not been taken. -/
  sent : PerKind fun k => List (WatchItem k.Object)
  /-- The requests that are to be refused. -/
  refusals : Refusals
  /-- The controller whose secrets are listed. -/
  manager : String

namespace ApiServer

/-- A server without objects. -/
def empty (manager : String) : ApiServer :=
  ⟨0, .ofFn fun _ => [], [], .ofFn fun _ => [], {}, manager⟩

/-- The place of an object. -/
def place {k : Kind} (h : Held k) : SecretRef :=
  ⟨(k.metadata h.object).nsOrEmpty, (k.metadata h.object).displayName⟩

/-- Objects in order with one more, in place of the one at its place. -/
def putIn {k : Kind} (o : Held k) : List (Held k) → List (Held k)
  | [] => [o]
  | p :: ps =>
    if SecretShelf.before (place o) (place p) then o :: p :: ps
    else if place o = place p then o :: ps
    else p :: putIn o ps

/-- Sends an item to the watch of a kind. -/
def send (s : ApiServer) (k : Kind) (quiet : Bool) (item : WatchItem k.Object) : ApiServer :=
  if quiet || !s.watched.contains k then s
  else { s with sent := s.sent.set k (s.sent.get k ++ [item]) }

/-- An object with the next resource version. -/
def renumbered {k : Kind} (s : ApiServer) (h : Held k) : Held k :=
  let version := some (toString (s.version + 1))
  { h with object :=
      k.withMetadata h.object { k.metadata h.object with resourceVersion := version } }

/-- Writes an object. -/
def put (s : ApiServer) (k : Kind) (o : Held k) (quiet : Bool) : ApiServer :=
  let o := s.renumbered o
  let s := { s with
    version := s.version + 1
    objects := s.objects.set k (putIn o (s.objects.get k)) }
  s.send k quiet (o.item .apply)

/-- Writes an object that is given as JSON, if it is of a kind that is held. -/
def putJson (s : ApiServer) (j : Json) (quiet : Bool) : ApiServer :=
  match Kind.ofObject? j with
  | some k => s.put k (.ofJson k j) quiet
  | none => s

/-- The object at a place. -/
def find? (s : ApiServer) (k : Kind) (r : SecretRef) : Option (Held k) :=
  (s.objects.get k).find? fun o => place o = r

/-- Deletes the object at a place, if there is one. -/
def remove (s : ApiServer) (k : Kind) (r : SecretRef) (quiet : Bool) : ApiServer :=
  match s.find? k r with
  | none => s
  | some o =>
    let deleted := s.renumbered o
    let rest := (s.objects.get k).filter fun p => place p ≠ r
    let s := { s with version := s.version + 1, objects := s.objects.set k rest }
    s.send k quiet (deleted.item .delete)

/-- Whether a listing of a kind can be read. -/
def canList (s : ApiServer) (k : Kind) : Bool := (s.objects.get k).all Held.isReadable

/-- Lists a kind to its watch, which is open from then on. -/
def list (s : ApiServer) (k : Kind) : ApiServer :=
  let items := (s.objects.get k).map fun h => h.item .listed
  { s with
    sent := s.sent.set k (s.sent.get k ++ [.event .listing] ++ items ++ [.event .listingDone])
    watched := k :: s.watched.erase k }

/-- Closes the watch of a kind. -/
def close (s : ApiServer) (k : Kind) : ApiServer := { s with watched := s.watched.erase k }

/-- How a request is refused with a code. -/
def scripted (code : Nat) : Error :=
  .api (.refused ⟨"Failure", "scripted failure",
    if code = 404 then "NotFound" else "Scripted", code⟩)

/-- How a request for a missing secret is refused. -/
def missing (r : SecretRef) : Error :=
  .api (.refused ⟨"Failure", s!"secret {r.name} not found", "NotFound", 404⟩)

/-- The secrets. -/
def secrets (s : ApiServer) : List Secret := s.objects.secret.map Held.object

/-- Reads a secret. -/
def getSecret (s : ApiServer) (r : SecretRef) : ApiServer × Except Error (Option Secret) :=
  match s.refusals.get with
  | code :: rest =>
    ({ s with refusals := { s.refusals with get := rest } },
      SecretApi.absentIfNotFound (.error (scripted code)))
  | [] =>
    (s, SecretApi.absentIfNotFound
      (match s.find? .secret r with
       | some o => o.read
       | none => .error (missing r)))

/-- Lists the secrets of the controller. -/
def listSecrets (s : ApiServer) : ApiServer × Except Error (List Secret) :=
  match s.refusals.get with
  | code :: rest => ({ s with refusals := { s.refusals with get := rest } }, .error (scripted code))
  | [] =>
    let managed := s.objects.secret.filter fun o => o.object.metadata.isManagedBy s.manager
    (s, managed.mapM Held.read)

/-- A watch of secrets tries to be opened until reads are no longer refused. -/
def useUpReads (s : ApiServer) : ApiServer := { s with refusals := { s.refusals with get := [] } }

/-- Writes a secret. -/
def applySecret (s : ApiServer) (o : Secret) : ApiServer × Except Error Unit :=
  match s.refusals.patch with
  | code :: rest =>
    ({ s with refusals := { s.refusals with patch := rest } }, .error (scripted code))
  | [] => (s.put .secret ⟨o, true⟩ false, .ok ())

/-- Deletes a secret. -/
def deleteSecret (s : ApiServer) (r : SecretRef) : ApiServer × Except Error Unit :=
  match s.refusals.delete with
  | code :: rest =>
    ({ s with refusals := { s.refusals with delete := rest } },
      SecretApi.doneIfMissing (.error (scripted code)))
  | [] => (s.remove .secret r false, .ok ())

/-- The server as the manager calls it. -/
def store : Store ApiServer where
  get s m r :=
    let (s, answer) := s.getSecret r
    ((s, m), answer)
  apply s m o :=
    let (s, answer) := s.applySecret o
    ((s, m), answer)
  delete s m r :=
    let (s, answer) := s.deleteSecret r
    ((s, m), answer)
  list s m :=
    let (s, answer) := s.listSecrets
    ((s, m), answer)

end ApiServer

end IngressTls.Rehearsal
