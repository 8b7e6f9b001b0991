import IngressTls.Change
import IngressTls.Snapshot

set_option autoImplicit false

/-! # Watching a kind

A watch sends events: single objects that were written or deleted, and listings, which give
every object between an opening and a closing event. The snapshot of the kind takes single
events at once and a listing when it closes. Against the snapshot as it was, events become
changes: a written object is an update if the snapshot knows it; a closed listing gives the
changes of its objects and the deletion of all objects it does not name. An object without a
name has no place in a snapshot, and an event that brings one cannot be taken.

Main statement: `take?_eq_none_iff`.
-/

namespace IngressTls

/-- An event of a watch. -/
inductive WatchEvent (α : Type) where
  /-- An object was written. -/
  | apply (object : α)
  /-- An object was deleted. -/
  | delete (object : α)
  /-- A listing begins. -/
  | listing
  /-- An object of the listing. -/
  | listed (object : α)
  /-- The listing is complete. -/
  | listingDone
  deriving DecidableEq, Repr

/-- The object of an event, if it brings one. -/
def WatchEvent.object? {α : Type} : WatchEvent α → Option α
  | apply o | delete o | listed o => some o
  | listing | listingDone => none

/-- The watch of a kind. -/
structure KindWatch (α : Type) where
  /-- The objects as they were last seen. -/
  store : Snapshot α
  /-- The objects of an unfinished listing. -/
  buffer : Snapshot α
  /-- The objects of an unfinished listing, in order. -/
  listed : List α

namespace KindWatch

variable {α : Type}

/-- A watch that has seen nothing. -/
def new : KindWatch α := ⟨.empty, .empty, []⟩

instance : Inhabited (KindWatch α) := ⟨new⟩

/-- The change that a written object is, against what was known. -/
def changeOf (store : Snapshot α) (key : α → ObjectKey) (o : α) : Change α :=
  match store.find? (key o) with
  | some old => .updated old o
  | none => .added o

/-- The changes that a complete listing brings. -/
def listingChanges (store : Snapshot α) (key : α → ObjectKey) (listed : List α) :
    List (Change α) :=
  let seen := listed.map key
  listed.map (changeOf store key) ++
    (store.objects.filter fun o => !seen.contains (key o)).map .deleted

/-- Takes an event; the result holds the changes it brings. -/
def take (w : KindWatch α) (key : α → ObjectKey) : WatchEvent α → KindWatch α × List (Change α)
  | .apply o => ({ w with store := w.store.insert (key o) o }, [changeOf w.store key o])
  | .delete o => ({ w with store := w.store.erase (key o) }, [.deleted o])
  | .listing => ({ w with listed := [], buffer := .empty }, [])
  | .listed o => ({ w with listed := w.listed ++ [o], buffer := w.buffer.insert (key o) o }, [])
  | .listingDone => (⟨w.buffer, .empty, []⟩, listingChanges w.store key w.listed)

/-- Whether an event can be taken: an object that it brings has a name. -/
def canTake (metadata : α → Metadata) (e : WatchEvent α) : Bool :=
  e.object?.all fun o => (metadata o).name.isSome

/-- Takes an event if that is possible. -/
def take? (w : KindWatch α) (metadata : α → Metadata) (e : WatchEvent α) :
    Option (KindWatch α × List (Change α)) :=
  if canTake metadata e then some (w.take (fun o => (metadata o).key) e) else none

/-- An event cannot be taken exactly if it brings an object without a name. -/
theorem take?_eq_none_iff (w : KindWatch α) (metadata : α → Metadata) (e : WatchEvent α) :
    w.take? metadata e = none ↔ ∃ o, e.object? = some o ∧ (metadata o).name = none := by
  have h : w.take? metadata e = none ↔ canTake metadata e = false := by
    rw [take?]
    split <;> simp_all
  rw [h, canTake]
  cases e <;> simp [WatchEvent.object?]

end KindWatch

end IngressTls
