import IngressTls.Manager.Worker
import IngressTls.Manager.Renewal

set_option autoImplicit false

/-! # Scripts

What the partners of the manager are told to answer: the authority by the hosts it is asked
for, and the store of secrets by the kind of call. An answer may come late, and demand may
reach the manager while it is under way.
-/

namespace IngressTls.Rehearsal

/-- Demand that reaches the manager while a call is under way. -/
inductive Demand where
  | obtain (request : Request)
  | release (secret : SecretRef)

/-- The demand reaches the manager. -/
def Demand.reach (m : Manager) : Demand → Manager
  | .obtain r => m.obtain r
  | .release s => m.release s

/-- Some demand reaches the manager, in order. -/
def Demand.reachAll (m : Manager) (ds : List Demand) : Manager := ds.foldl Demand.reach m

/-- What the authority answers to a call. -/
structure Reply where
  /-- How long the answer takes, in milliseconds. -/
  delay : Nat
  /-- What reaches the manager before the answer does. -/
  during : List Demand
  /-- The answer. -/
  outcome : Except AuthorityError Certificate

/-- The replies for a list of hosts; the last one repeats. -/
structure ReplyList where
  /-- The hosts joined by commas, or `*` for all others. -/
  hosts : String
  /-- The replies that are left. -/
  replies : List Reply

/-- What the authority is told to answer. -/
structure AuthorityScript where
  /-- The replies by hosts. -/
  lists : List ReplyList
  /-- The certificate where nothing is scripted. -/
  otherwise : Certificate

namespace AuthorityScript

/-- The replies without the first one, unless it is the last. -/
def useUp (rs : List Reply) : List Reply :=
  match rs with
  | _ :: r :: rest => r :: rest
  | rs => rs

/-- The reply to a call for some hosts. -/
def reply (s : AuthorityScript) (hosts : String) : AuthorityScript × Reply :=
  let name := if s.lists.any fun l => l.hosts = hosts then hosts else "*"
  let plain : Reply := ⟨0, [], .ok s.otherwise⟩
  match s.lists.find? fun l => l.hosts = name with
  | none => (s, plain)
  | some l =>
    ({ s with lists := s.lists.map fun k =>
        if k.hosts = name then { k with replies := useUp k.replies } else k },
      l.replies.headD plain)

end AuthorityScript

/-- What happens to a call of the store of secrets. -/
structure Fault where
  /-- What reaches the manager first. -/
  during : List Demand
  /-- The error with which the call fails before it has an effect. -/
  error : Option Error

/-- What happens to the calls of each kind, one entry a call. -/
structure FaultScript where
  /-- Reads. -/
  get : List (Option Fault)
  /-- Writes. -/
  apply : List (Option Fault)
  /-- Deletions. -/
  delete : List (Option Fault)
  /-- Listings. -/
  list : List (Option Fault)

/-- A store of secrets, in the order of their namespaces and names. -/
structure SecretShelf where
  /-- The secrets. -/
  secrets : List Secret
  /-- What happens to the calls. -/
  faults : FaultScript

namespace SecretShelf

/-- Whether one place comes before another. -/
def before (a b : SecretRef) : Bool := a.ns < b.ns || (a.ns = b.ns && a.name < b.name)

/-- Secrets in order with one more, in place of the one at its place. -/
def putIn (s : Secret) : List Secret → List Secret
  | [] => [s]
  | t :: ts =>
    if before s.ref t.ref then s :: t :: ts
    else if s.ref = t.ref then s :: ts
    else t :: putIn s ts

/-- Stores a secret. -/
def put (h : SecretShelf) (s : Secret) : SecretShelf := { h with secrets := putIn s h.secrets }

/-- The secret at a place. -/
def find? (h : SecretShelf) (r : SecretRef) : Option Secret := h.secrets.find? fun s => s.ref = r

/-- Removes the secret at a place. -/
def remove (h : SecretShelf) (r : SecretRef) : SecretShelf :=
  { h with secrets := h.secrets.filter fun s => s.ref ≠ r }

end SecretShelf

end IngressTls.Rehearsal
