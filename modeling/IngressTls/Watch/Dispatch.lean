import IngressTls.Gate
import IngressTls.Watch.Kind

set_option autoImplicit false

/-! # Dispatching changes

The dispatch of a kind takes the events of its watch one by one and hands the changes to a
handler. Until the first listing is complete the changes are held back; then the kind is
marked as synced and the dispatch waits for the gate; once the gate is open the changes held
back are handed over, and from then on changes are handed over as they come. A dispatch that
gets an event which its watch cannot take breaks off.
-/

namespace IngressTls

/-- Where a dispatch stands. -/
inductive DispatchPhase where
  /-- The first listing is not complete. -/
  | syncing
  /-- The first listing is complete and the gate is closed. -/
  | waiting
  /-- Changes are handed over as they come. -/
  | live
  /-- The watch has ended, or the dispatch was cancelled or broke off. -/
  | stopped
  deriving DecidableEq, Repr

/-- The dispatch of a kind. -/
structure Dispatch (α : Type) where
  /-- The name of the kind at the gate. -/
  kind : String
  /-- The watch. -/
  watch : KindWatch α
  /-- The changes that are held back. -/
  heldBack : List (Change α)
  /-- Where the dispatch stands. -/
  phase : DispatchPhase

/-- What a watch yields. -/
inductive WatchItem (α : Type) where
  /-- An event. -/
  | event (event : WatchEvent α)
  /-- An error, after which the watch goes on. -/
  | error
  /-- The end of the watch. -/
  | ended
  deriving DecidableEq, Repr

namespace Dispatch

variable {α : Type}

/-- A dispatch that has seen nothing. -/
def new (kind : String) : Dispatch α := ⟨kind, .new, [], .syncing⟩

/-- Whether the dispatch can take an item of its watch. -/
def isListening (d : Dispatch α) : Bool := d.phase = .syncing || d.phase = .live

/-- Takes an item of the watch; the result holds the gate and the changes handed over. -/
def take (d : Dispatch α) (metadata : α → Metadata) (gate : Gate) :
    WatchItem α → Dispatch α × Gate × List (Change α)
  | .error => (d, gate, [])
  | .ended => ({ d with phase := .stopped }, gate, [])
  | .event e =>
    match d.watch.take? metadata e with
    | none => ({ d with phase := .stopped }, gate, [])
    | some (watch, changes) =>
      let d := { d with watch }
      match d.phase with
      | .live => (d, gate, changes)
      | .syncing =>
        let d := { d with heldBack := d.heldBack ++ changes }
        match e with
        | .listingDone => ({ d with phase := .waiting }, gate.markSynced d.kind, [])
        | _ => (d, gate, [])
      | _ => (d, gate, [])

/-- Passes the gate if it waits and the gate is open; the result holds the changes that were
held back and are handed over now. -/
def pass (d : Dispatch α) (gate : Gate) : Dispatch α × List (Change α) :=
  if d.phase = .waiting && gate.isReady then
    ({ d with phase := .live, heldBack := [] }, d.heldBack)
  else (d, [])

/-- Cancels the dispatch. -/
def cancel (d : Dispatch α) : Dispatch α := { d with phase := .stopped }

end Dispatch

end IngressTls
