import IngressTls.ControllerRun
import IngressTls.Rehearsal.ApiServer
import IngressTls.Rehearsal.Handling

set_option autoImplicit false

/-! # A whole cluster

The controller and the manager at work against an API server in memory, on one virtual clock.
The dispatches act before the workers do; a dispatch goes on until it has handled everything
that its watch was sent. After an error a watch rests for a while; a listing that could not be
read is then asked for again.
-/

namespace IngressTls.Rehearsal

/-- The cluster. -/
structure Cluster where
  /-- The manager at work against the server. -/
  shop : Workshop ApiServer
  /-- The run of the controller. -/
  run : ControllerRun
  /-- The calls of the controller, the last one first. -/
  calls : List HandlerCall
  /-- The kinds whose listing is never answered. -/
  hung : List Kind
  /-- The kinds whose watch rests, and until when. -/
  resting : List (Kind × Nat)
  /-- The kinds whose listing could not be read and is to be asked for again. -/
  unlisted : List Kind

namespace Cluster

/-- The server. -/
def server (c : Cluster) : ApiServer := c.shop.store

/-- The cluster with a changed server. -/
def onServer (c : Cluster) (f : ApiServer → ApiServer) : Cluster :=
  { c with shop := { c.shop with store := f c.shop.store } }

/-- The cluster with a changed manager. -/
def onManager (c : Cluster) (f : Manager → Manager) : Cluster :=
  { c with shop := { c.shop with manager := f c.shop.manager } }

/-- Notes a call of the controller. -/
def noteCall (c : Cluster) (call : HandlerCall) : Cluster := { c with calls := call :: c.calls }

/-- The controller asks the manager for a certificate. -/
def obtain (c : Cluster) (r : Request) : Cluster :=
  (c.noteCall (.obtain r)).onManager (·.obtain r)

/-- The controller reclaims a secret, if it still is to be reclaimed. -/
def reclaim (c : Cluster) (s : SecretRef) : Cluster :=
  if c.run.controller.reclaims s then
    let (server, answer) := c.server.deleteSecret s
    let c := (c.noteCall (.delete s)).onServer fun _ => server
    match answer with
    | .ok () => (c.noteCall (.release s)).onManager (·.release s)
    | .error _ => c
  else c

/-- The controller handles a change. -/
def handle (c : Cluster) (change : KindChange) : Cluster :=
  let reaction := c.run.controller.react change
  reaction.givenUp.foldl reclaim (reaction.requests.foldl obtain c)

/-- How long a watch rests after an error, in milliseconds. -/
def restTime : Nat := 800

/-- The watch of a kind rests. -/
def rest (c : Cluster) (k : Kind) : Cluster :=
  { c with resting := c.resting ++ [(k, c.shop.agenda.now + restTime)] }

/-- Whether the watch of a kind rests. -/
def isResting (c : Cluster) (k : Kind) : Bool := c.resting.any fun r => r.1 = k

/-- A kind is listed to its watch, or is to be listed after a rest. -/
def list (c : Cluster) (k : Kind) : Cluster :=
  if c.server.canList k then c.onServer (·.list k)
  else { c with unlisted := k :: c.unlisted }.onServer (·.close k) |>.rest k

/-- The watch of a kind has rested. -/
def resume (c : Cluster) (k : Kind) : Cluster :=
  let c := { c with resting := c.resting.filter fun r => r.1 ≠ k }
  if c.unlisted.contains k then { c with unlisted := c.unlisted.erase k }.list k else c

/-- Whether the dispatch of a kind can act. -/
def canMove (c : Cluster) (k : Kind) : Bool :=
  (c.run.watches.get k).any fun d =>
    (d.phase = .waiting && c.run.gate.isReady) ||
      (d.isListening && !c.isResting k && !(c.server.sent.get k).isEmpty)

/-- The dispatch of a kind passes the gate or takes an item. -/
def move (c : Cluster) (k : Kind) : Cluster :=
  let (run, changes) := c.run.pass k
  let c := changes.foldl handle { c with run }
  match c.server.sent.get k with
  | [] => c
  | item :: rest =>
    if (c.run.watches.get k).any Dispatch.isListening && !c.isResting k then
      let c := c.onServer fun s => { s with sent := s.sent.set k rest }
      let c := match item with
        | .error => c.rest k
        | _ => c
      let (run, changes) := c.run.take k item
      changes.foldl handle { c with run := run.serve }
    else c

/-- All that can happen without the clock moving happens. -/
def settle : (fuel : Nat) → Cluster → Cluster
  | 0, c => c
  | fuel + 1, c =>
    match Kind.all.find? c.canMove with
    | some k => settle fuel (c.move k)
    | none =>
      let c := { c with shop := c.shop.settle ApiServer.store }
      if Kind.all.any c.canMove then settle fuel c else c

/-- The most moves that are made without the clock moving. -/
def moveLimit : Nat := 20000

/-- The next instant at which an alarm rings or a watch has rested. -/
def nextDue? (c : Cluster) : Option Nat :=
  (c.shop.agenda.nextDue?.toList ++ c.resting.map Prod.snd).min?

/-- The clock moves to an instant, where alarms ring and watches have rested. -/
def arriveAt (c : Cluster) (due : Nat) : Cluster :=
  let shop :=
    match c.shop.agenda.next? due with
    | none => { c.shop with agenda := { c.shop.agenda with now := due } }
    | some (alarms, agenda) => { c.shop with agenda }.ringAll ApiServer.store alarms
  let rested := (c.resting.filter fun r => r.2 ≤ due).map Prod.fst
  rested.foldl resume { c with shop }

/-- Moves the clock up to an instant, from one at which something is due to the next. -/
def runTo (limit : Nat) : (fuel : Nat) → Cluster → Cluster
  | 0, c => c
  | fuel + 1, c =>
    match c.nextDue? with
    | none => c
    | some due =>
      if due ≤ limit then runTo limit fuel (settle moveLimit (c.arriveAt due)) else c

/-- Moves the clock to an instant. -/
def moveTo (c : Cluster) (limit : Nat) : Cluster :=
  let c := runTo limit moveLimit (settle moveLimit c)
  { c with shop := { c.shop with agenda := { c.shop.agenda with now := limit } } }

/-- The instant at which the controller gives up, if it has to wait for a listing until then. -/
def deadline? (c : Cluster) : Option Nat :=
  if c.run.phase = .syncing then some (c.run.settings.syncTimeout * 1000) else none

/-- Moves the clock. -/
def advance (c : Cluster) (ms : Nat) : Cluster :=
  let target := c.shop.agenda.now + ms
  let c := settle moveLimit c
  match c.deadline? with
  | some due =>
    if due ≤ target then
      let c := c.moveTo due
      { c with run := c.run.expire.wind }.moveTo target
    else c.moveTo target
  | none => c.moveTo target

/-- Tells the controller and the manager to stop. -/
def cancel (c : Cluster) : Cluster :=
  settle moveLimit { c with run := c.run.cancel.wind, shop := c.shop.cancel }

/-- The kinds of a surface are listed, except for those whose listing is not answered. -/
def listAll (c : Cluster) (surface : Surface) : Cluster :=
  let kinds := Kind.all.filter fun k => k.isWatched surface && !c.hung.contains k
  kinds.foldl list c

/-- Starts the controller and the manager. -/
def start (settings : ControllerSettings) (surface : Surface) (shop : Workshop ApiServer)
    (hung : List Kind) : Cluster :=
  let shop :=
    if hung.contains .secret then shop.launchUnanswered else shop.launch ApiServer.store
  let c : Cluster := ⟨shop, .start settings surface, [], hung, [], []⟩
  settle moveLimit <|
    if settings.syncTimeout = 0 then { c with run := c.run.expire.wind } else c.listAll surface

/-- The watch of a kind fails, the kind is listed again, and a minute passes. `answered` says
whether the listing is answered. -/
def relist (c : Cluster) (k : Kind) (answered : Bool) : Cluster :=
  let c := if k = .secret then c.onServer ApiServer.useUpReads else c
  let c :=
    if c.hung.contains k || c.unlisted.contains k || (c.run.watches.get k).isNone then c
    else if answered then c.list k
    else { c with hung := k :: c.hung }.onServer (·.close k)
  c.advance 60000

/-- The watch of a kind ends and is opened again, and a minute passes. -/
def reconnect (c : Cluster) (k : Kind) : Cluster :=
  let c := if k = .secret then c.onServer ApiServer.useUpReads else c
  c.advance 60000

end Cluster

end IngressTls.Rehearsal
