import IngressTls.Proofs.Cluster.Demanders
import IngressTls.Rehearsal.Handling

set_option autoImplicit false

/-! # The calls of a change

A change makes the controller call the manager and the store of secrets: it asks for
certificates, then it deletes the secrets to be reclaimed one after the other, and releases each
of them whose deletion succeeds. Deletions fail as a list of outcomes says, one outcome a
deletion; a deletion beyond the list succeeds.

Main statement: `callsOf_eq`.
-/

namespace IngressTls

namespace Rehearsal

/-- The request that a call makes, if it is one for a certificate. -/
def HandlerCall.request? : HandlerCall → Option Request
  | obtain r => some r
  | delete _ | release _ => none

/-- The secret that a call is about. -/
def HandlerCall.target : HandlerCall → SecretRef
  | obtain r => r.target
  | delete s | release s => s

/-- The calls by which the controller handles a change while its deletions fail as given. -/
def callsOf (c : Controller) (failures : List Bool) (change : KindChange) : List HandlerCall :=
  (carryOut c failures (c.react change)).1

/-- The calls for a secret that is to be deleted. -/
def deletionCalls (s : SecretRef) (fails : Bool) : List HandlerCall :=
  .delete s :: if fails then [] else [.release s]

/-- The calls for secrets that are to be deleted, one deletion after the other. -/
def deletionsOf (failures : List Bool) (secrets : List SecretRef) : List HandlerCall :=
  (secrets.mapIdx fun i s => deletionCalls s (failures.getD i false)).flatten

/-- The first deletion has the first outcome. -/
theorem deletionsOf_cons (failures : List Bool) (s : SecretRef) (rest : List SecretRef) :
    deletionsOf failures (s :: rest) =
      deletionCalls s (failures.headD false) ++ deletionsOf failures.tail rest := by
  rw [deletionsOf, deletionsOf, List.mapIdx_cons, List.flatten_cons]
  cases failures with
  | nil => rfl
  | cons fails failures => rfl

/-- Secrets that are not to be deleted use up no outcome. -/
theorem reclaim_eq (c : Controller) (failures : List Bool) (names : List SecretRef) :
    (reclaim c failures names).1 = deletionsOf failures (names.filter c.reclaims) := by
  induction names generalizing failures with
  | nil => rfl
  | cons s rest ih =>
      rw [reclaim]
      cases hs : c.reclaims s with
      | false =>
          rw [List.filter_cons_of_neg (by rw [hs]; exact Bool.false_ne_true)]
          exact ih failures
      | true =>
          -- this deletion takes the first outcome, the others the rest
          rw [List.filter_cons_of_pos hs, deletionsOf_cons, ← ih failures.tail, deletionCalls]
          cases failures.headD false with
          | false => rfl
          | true => rfl

theorem callsOf_eq (c : Controller) (failures : List Bool) (change : KindChange) :
    callsOf c failures change = (c.react change).requests.map .obtain ++
      deletionsOf failures ((c.react change).givenUp.filter c.reclaims) := by
  rw [← reclaim_eq]
  rfl

theorem mem_deletionCalls {s : SecretRef} {fails : Bool} {call : HandlerCall}
    (h : call ∈ deletionCalls s fails) : call = .delete s ∨ call = .release s := by
  rcases List.mem_cons.1 h with rfl | h
  · exact Or.inl rfl
  · cases fails with
    | false => exact Or.inr (List.mem_singleton.1 h)
    | true => cases h

/-- Each of these calls deletes or releases one of the secrets. -/
theorem mem_deletionsOf {failures : List Bool} {secrets : List SecretRef} {call : HandlerCall}
    (h : call ∈ deletionsOf failures secrets) :
    ∃ s ∈ secrets, call = .delete s ∨ call = .release s := by
  obtain ⟨calls, hcalls, hcall⟩ := List.mem_flatten.1 h
  obtain ⟨i, hi, rfl⟩ := List.mem_mapIdx.1 hcalls
  exact ⟨secrets[i], List.getElem_mem hi, mem_deletionCalls hcall⟩

theorem request?_deletionsOf (failures : List Bool) (secrets : List SecretRef) :
    (deletionsOf failures secrets).filterMap HandlerCall.request? = [] := by
  refine List.filterMap_eq_nil_iff.2 fun call hcall => ?_
  obtain ⟨s, -, rfl | rfl⟩ := mem_deletionsOf hcall
  · rfl
  · rfl

/-- The certificates that are asked for are those of the reaction, in its order. -/
theorem request?_callsOf (c : Controller) (failures : List Bool) (change : KindChange) :
    (callsOf c failures change).filterMap HandlerCall.request? = (c.react change).requests := by
  rw [callsOf_eq, List.filterMap_append, request?_deletionsOf, List.append_nil,
    List.filterMap_map]
  exact List.filterMap_some

/-- An opted-in ingress of a known class that names secrets for the host `a.com`. -/
def ingressFor (version : String) (names : List String) : Ingress where
  metadata := { Metadata.empty with
    name := some "web"
    ns := some "default"
    resourceVersion := some version
    annotations := some (Table.ofList [(Wire.enableKey, "true"), (Wire.legacyClassKey, "nginx")]) }
  className := none
  tls := names.map fun name => ⟨some ["a.com"], some name⟩

end Rehearsal

end IngressTls
