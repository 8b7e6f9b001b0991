import IngressTls.Settings
import IngressTls.Watch.Cache
import IngressTls.Watch.Dispatch

set_option autoImplicit false

/-! # A run of the controller

The controller watches every served kind, waits until all of them have been listed once, and
then works until it is told to stop. If the listings take too long it gives up: it remembers
which kinds were missing, has the dispatches stop, and fails when the last one has stopped.

The functions below are the single steps of a run. Several of them can be possible at one
moment, and each of them may then be the next one: a dispatch that is to stop may still take an
item or pass the gate before it notices.
-/

namespace IngressTls

/-- What a run of the controller is set to. -/
structure ControllerSettings where
  /-- The ownership label of managed secrets. -/
  name : String
  /-- How long the first listings may take, in seconds. -/
  syncTimeout : Nat
  deriving DecidableEq, Repr

/-- What the controller is set to. -/
def Settings.controller (s : Settings) : ControllerSettings := ⟨s.controllerName, s.cacheSyncTimeout⟩

/-- Where a run stands. -/
inductive RunPhase where
  /-- The first listings are not complete. -/
  | syncing
  /-- Changes are handled. -/
  | serving
  /-- The listings took too long; these kinds were missing, and the dispatches are to stop. -/
  | givingUp (missing : List String)
  /-- The run was told to stop, and so are the dispatches. -/
  | stopping
  /-- The run has failed. -/
  | failed (error : Error)
  /-- The run has stopped. -/
  | stopped
  deriving DecidableEq

/-- A run of the controller. -/
structure ControllerRun where
  /-- What it is set to. -/
  settings : ControllerSettings
  /-- The dispatches of the served kinds. -/
  watches : PerKind fun k => Option (Dispatch k.Object)
  /-- The gate that handlers wait behind. -/
  gate : Gate
  /-- Where the run stands. -/
  phase : RunPhase

namespace ControllerRun

/-- Starts a run on a surface. -/
def start (settings : ControllerSettings) (surface : Surface) : ControllerRun :=
  let served := Kind.all.filter (Kind.isWatched surface)
  let gate := (served.map Kind.title).foldl Gate.register Gate.new
  { settings
    watches := .ofFn fun k => if k.isWatched surface then some (.new k.title) else none
    gate := gate.start
    phase := .syncing }

/-- The snapshots of all kinds. -/
def snapshots (r : ControllerRun) : Snapshots :=
  .ofFn fun k => ((r.watches.get k).map fun d => d.watch.store).getD .empty

/-- The controller that handles changes now. -/
def controller (r : ControllerRun) : Controller := ⟨r.settings.name, r.snapshots.cache⟩

/-- Whether the dispatches are to stop. -/
def isCancelled (r : ControllerRun) : Bool :=
  match r.phase with
  | .givingUp _ | .stopping => true
  | _ => false

/-- Whether every dispatch has stopped. -/
def isQuiet (r : ControllerRun) : Bool :=
  Kind.all.all fun k => (r.watches.get k).all fun d => d.phase = .stopped

/-- The changes of a kind that a dispatch hands over. -/
def ofKind (k : Kind) (changes : List (Change k.Object)) : List KindChange :=
  changes.map fun c => ⟨k, c⟩

/-- A dispatch takes an item of its watch; the result holds the changes handed over. -/
def take (r : ControllerRun) (k : Kind) (item : WatchItem k.Object) :
    ControllerRun × List KindChange :=
  match r.watches.get k with
  | none => (r, [])
  | some d =>
    if d.isListening then
      let (d, gate, changes) := d.take k.metadata r.gate item
      ({ r with watches := r.watches.set k (some d), gate }, ofKind k changes)
    else (r, [])

/-- A dispatch passes the gate if it can; the result holds the changes handed over. -/
def pass (r : ControllerRun) (k : Kind) : ControllerRun × List KindChange :=
  match r.watches.get k with
  | none => (r, [])
  | some d =>
    let (d, changes) := d.pass r.gate
    ({ r with watches := r.watches.set k (some d) }, ofKind k changes)

/-- A dispatch notices that it is to stop. -/
def halt (r : ControllerRun) (k : Kind) : ControllerRun :=
  if r.isCancelled then
    { r with watches := r.watches.set k ((r.watches.get k).map Dispatch.cancel) }
  else r

/-- The run notices that the gate is open. -/
def serve (r : ControllerRun) : ControllerRun :=
  if r.phase = .syncing && r.gate.isReady then { r with phase := .serving } else r

/-- The time for the first listings is over. -/
def expire (r : ControllerRun) : ControllerRun :=
  if r.phase = .syncing then { r with phase := .givingUp r.gate.pending.toList } else r

/-- The run is told to stop. -/
def cancel (r : ControllerRun) : ControllerRun :=
  if r.phase = .syncing || r.phase = .serving then { r with phase := .stopping } else r

/-- The error of a run that gave up. -/
def syncError (settings : ControllerSettings) (missing : List String) : Error :=
  let kinds := ", ".intercalate missing
  .cacheSync s!"caches not synced within {settings.syncTimeout}s: {kinds}"

/-- The run ends once every dispatch has stopped. -/
def finish (r : ControllerRun) : ControllerRun :=
  if r.isQuiet then
    match r.phase with
    | .givingUp missing => { r with phase := .failed (syncError r.settings missing) }
    | .stopping => { r with phase := .stopped }
    | _ => r
  else r

/-- All dispatches notice that they are to stop, and the run ends. -/
def wind (r : ControllerRun) : ControllerRun := (Kind.all.foldl halt r).finish

end ControllerRun

end IngressTls
