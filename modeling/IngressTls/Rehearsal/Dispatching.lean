import IngressTls.Watch.Dispatch

set_option autoImplicit false

/-! # A dispatch under a scripted watch

A dispatch with the items of its watch that it has not taken yet and the gate it waits for.
After every step it takes all the items it can.
-/

namespace IngressTls.Rehearsal

/-- A dispatch with its watch and its gate. -/
structure DispatchStage (α : Type) where
  /-- The dispatch. -/
  dispatch : Dispatch α
  /-- The items that have not been taken. -/
  items : List (WatchItem α)
  /-- The gate. -/
  gate : Gate

namespace DispatchStage

variable {α : Type}

/-- Takes all the items that can be taken; the result holds the changes handed over, in
order. `fuel` bounds the number of turns. -/
def run (metadata : α → Metadata) : (fuel : Nat) → DispatchStage α →
    DispatchStage α × List (Change α)
  | 0, s => (s, [])
  | fuel + 1, s =>
    let (dispatch, handed) := s.dispatch.pass s.gate
    let s := { s with dispatch }
    match s.items with
    | item :: items =>
      if s.dispatch.isListening then
        let (dispatch, gate, changes) := s.dispatch.take metadata s.gate item
        let (s, more) := run metadata fuel { dispatch, items, gate }
        (s, handed ++ changes ++ more)
      else (s, handed)
    | [] =>
      if s.dispatch.phase = .waiting && s.gate.isReady then
        let (s, more) := run metadata fuel s
        (s, handed ++ more)
      else (s, handed)

/-- Takes all the items that can be taken. -/
def settle (s : DispatchStage α) (metadata : α → Metadata) :
    DispatchStage α × List (Change α) :=
  s.run metadata (2 * s.items.length + 2)

end DispatchStage

end IngressTls.Rehearsal
