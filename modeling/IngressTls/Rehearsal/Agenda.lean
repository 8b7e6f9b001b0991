set_option autoImplicit false

/-! # Agendas

A virtual clock with the events that wait for their instant. The clock moves only when it
is told to, and then from one instant to the next at which something is due. The events of one
instant come together, in the order in which they were noted.
-/

namespace IngressTls.Rehearsal

/-- An event that waits for its instant. -/
structure Noted (α : Type) where
  /-- The instant, in milliseconds. -/
  due : Nat
  /-- What happens. -/
  event : α

/-- A clock with the events that wait. -/
structure Agenda (α : Type) where
  /-- The present, in milliseconds. -/
  now : Nat
  /-- The events, in the order of their instants. -/
  noted : List (Noted α)

namespace Agenda

variable {α : Type}

/-- The clock at zero, with no events. -/
def start : Agenda α := ⟨0, []⟩

instance : Inhabited (Agenda α) := ⟨start⟩

/-- Events in the order of their instants with one more, behind those at its own instant. -/
def insertIn (e : Noted α) : List (Noted α) → List (Noted α)
  | [] => [e]
  | d :: ds => if e.due < d.due then e :: d :: ds else d :: insertIn e ds

/-- Notes an event that happens after a delay. -/
def note (a : Agenda α) (delay : Nat) (event : α) : Agenda α :=
  { a with noted := insertIn ⟨a.now + delay, event⟩ a.noted }

/-- The next instant at which something is due. -/
def nextDue? (a : Agenda α) : Option Nat := a.noted.head?.map fun e => Nat.max a.now e.due

/-- The events of the next instant that is not after a limit; the clock moves to it. -/
def next? (a : Agenda α) (limit : Nat) : Option (List α × Agenda α) :=
  match a.nextDue? with
  | none => none
  | some due =>
    if due ≤ limit then
      some ((a.noted.takeWhile (·.due ≤ due)).map Noted.event,
        ⟨due, a.noted.dropWhile (·.due ≤ due)⟩)
    else none

/-- Lets an event of a kind never happen. -/
def cancel (a : Agenda α) (p : α → Bool) : Agenda α :=
  { a with noted := a.noted.filter fun e => !p e.event }

end Agenda

end IngressTls.Rehearsal
