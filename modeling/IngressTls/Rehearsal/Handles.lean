import IngressTls.Quota

set_option autoImplicit false

/-! # Handles by name

Handles of transactions that are kept under names, so that they can be committed, rolled back
or dropped later. A name stands for the handle that was opened last under it; the one before
is dropped.
-/

namespace IngressTls.Rehearsal

/-- Handles under names. -/
structure Handles where
  /-- The handles, each name once. -/
  entries : List (String × Transaction)

namespace Handles

/-- No handles. -/
def empty : Handles := ⟨[]⟩

/-- The handles without the one of a name. -/
def forget (h : Handles) (name : String) : Handles := ⟨h.entries.filter fun e => e.1 ≠ name⟩

/-- The handles with one under a name. -/
def keep (h : Handles) (name : String) (t : Transaction) : Handles :=
  ⟨(name, t) :: (h.forget name).entries⟩

/-- Opens a transaction and keeps its handle under a name, if the quota can be computed. -/
def start? (h : Handles) (q : Quota) (name resource : String) (amount : Int) :
    Option (Except QuotaRefusal (Handles × Quota)) :=
  if q.reserveFits resource amount then
    some <| (Transaction.start q resource amount).map fun (q, t) =>
      (h.keep name t, ((h.entries.lookup name).map fun old => old.drop q).getD q)
  else none

/-- Uses the handle of a name, if there is one. -/
def use? (h : Handles) (q : Quota) (name : String)
    (f : Transaction → Quota → Quota × Transaction) : Option (Handles × Quota) := do
  let t ← h.entries.lookup name
  let (q, t) := f t q
  return (h.keep name t, q)

/-- Drops the handle of a name, if there is one. -/
def drop? (h : Handles) (q : Quota) (name : String) : Option (Handles × Quota) := do
  let t ← h.entries.lookup name
  return (h.forget name, t.drop q)

end Handles

end IngressTls.Rehearsal
