import IngressTls.Demand

set_option autoImplicit false

/-! # Handling a reaction

The calls that a reaction leads to when nothing happens in between: the requests in order,
then the deletion of each secret to be reclaimed, and its release if the deletion succeeds.
-/

namespace IngressTls.Rehearsal

/-- A call of the controller on the manager or on the store of secrets. -/
inductive HandlerCall where
  | obtain (request : Request)
  | delete (secret : SecretRef)
  | release (secret : SecretRef)

/-- Reclaims secrets one after the other. `failures` says which of the deletions fail, one
entry a deletion; the result holds the entries that are left. -/
def reclaim (c : Controller) (failures : List Bool) :
    List SecretRef → List HandlerCall × List Bool
  | [] => ([], failures)
  | s :: rest =>
    if c.reclaims s then
      let fails := failures.headD false
      let (calls, left) := reclaim c failures.tail rest
      (.delete s :: (if fails then calls else .release s :: calls), left)
    else reclaim c failures rest

/-- Carries out a reaction. -/
def carryOut (c : Controller) (failures : List Bool) (r : Reaction) :
    List HandlerCall × List Bool :=
  let (calls, left) := reclaim c failures r.givenUp
  (r.requests.map HandlerCall.obtain ++ calls, left)

end IngressTls.Rehearsal
