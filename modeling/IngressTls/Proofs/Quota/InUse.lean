import IngressTls.Proofs.Quota.Operations

set_option autoImplicit false

/-! # The quota in use

Any number of callers use one quota at the same time. The quota is only touched in sections
under its lock, and sections of different callers may follow each other in any order:
opening a transaction has one section that reads and one that tests again and registers, a
commit or a rollback through a handle is one section, and so is dropping a handle.

`QuotaInUse` is the quota with what its callers hold between two sections: the calls that
have passed the first test and not yet made the second, and the handles of the transactions
that were opened. Amounts asked for are natural numbers.

Main statements: `effect_step`, which says all that a section can do to the quota, and
`max_run`.
-/

namespace IngressTls

/-- A quota and what its callers hold. -/
structure QuotaInUse where
  /-- The quota. -/
  quota : Quota
  /-- The calls that have passed the first test, with their resources and amounts. -/
  admitted : List (String × Nat)
  /-- The handles that have not been dropped. -/
  handles : List Transaction

/-- A section under the lock of the quota. -/
inductive QuotaSection where
  /-- A call to open a transaction makes its first test. -/
  | inspect (resource : String) (amount : Nat)
  /-- The call at a place among those that have passed tests again and registers. -/
  | register (call : Nat)
  /-- A commit through the handle at a place. -/
  | commit (handle : Nat)
  /-- A rollback through the handle at a place. -/
  | rollback (handle : Nat)
  /-- The handle at a place is dropped. -/
  | drop (handle : Nat)
  deriving DecidableEq, Repr

namespace QuotaInUse

/-- A new quota that nobody uses yet. -/
def start (max : Int) : QuotaInUse := ⟨.new max, [], []⟩

/-- A handle is used: the quota and the handle are as `f` leaves them. -/
def use (u : QuotaInUse) (handle : Nat) (f : Transaction → Quota → Quota × Transaction) :
    QuotaInUse :=
  match u.handles[handle]? with
  | none => u
  | some t => { u with quota := (f t u.quota).1, handles := u.handles.set handle (f t u.quota).2 }

/-- A section is carried out. -/
def step (u : QuotaInUse) : QuotaSection → QuotaInUse
  | .inspect resource amount =>
    match u.quota.precheck resource amount with
    | .error _ => u
    | .ok () => { u with admitted := u.admitted ++ [(resource, amount)] }
  | .register call =>
    match u.admitted[call]? with
    | none => u
    | some (resource, amount) =>
      let u := { u with admitted := u.admitted.eraseIdx call }
      match u.quota.register resource amount with
      | .error _ => u
      | .ok quota => { u with quota, handles := u.handles ++ [⟨resource, false⟩] }
  | .commit handle => u.use handle Transaction.commit
  | .rollback handle => u.use handle Transaction.rollback
  | .drop handle =>
    { u.use handle Transaction.rollback with handles := u.handles.eraseIdx handle }

/-- Sections are carried out one after the other. -/
def run (u : QuotaInUse) (sections : List QuotaSection) : QuotaInUse := sections.foldl step u

@[simp] theorem run_nil (u : QuotaInUse) : u.run [] = u := rfl

@[simp] theorem run_cons (u : QuotaInUse) (s : QuotaSection) (ss : List QuotaSection) :
    u.run (s :: ss) = (u.step s).run ss := rfl

theorem run_append (u : QuotaInUse) (ss ss' : List QuotaSection) :
    u.run (ss ++ ss') = (u.run ss).run ss' :=
  List.foldl_append

/-- Without anything in between, the two sections of a call are what opening a transaction is. -/
theorem run_call (u : QuotaInUse) (resource : String) (amount : Nat) :
    (u.run [.inspect resource amount, .register u.admitted.length]).quota =
      match Transaction.start u.quota resource amount with
      | .ok (quota, _) => quota
      | .error _ => u.quota := by
  rw [run_cons, run_cons, run_nil, Transaction.start, Quota.reserve, step]
  cases hpre : u.quota.precheck resource amount with
  | error e => simp [step, Except.map]
  | ok _ =>
      cases hreg : u.quota.register resource amount with
      | error e => simp [step, hreg, Except.map]
      | ok q => simp [step, hreg, Except.map]

/-! ## What a section does to the quota

A section leaves the quota as it is, or it is one of three: a registration of a call that
has passed the first test, a commit, a rollback. -/

/-- What a section can do to the quota. -/
inductive Effect (u : QuotaInUse) : Quota → Prop where
  /-- Nothing. -/
  | none : Effect u u.quota
  /-- It registers a call that has passed the first test. -/
  | registered {resource : String} {amount : Nat} {q : Quota}
      (passed : (resource, amount) ∈ u.admitted) (ok : u.quota.register resource amount = .ok q) :
      Effect u q
  /-- It commits. -/
  | committed (resource : String) : Effect u (u.quota.commit resource)
  /-- It rolls back. -/
  | rolledBack (resource : String) : Effect u (u.quota.rollback resource)

theorem effect_use_commit (u : QuotaInUse) (handle : Nat) :
    Effect u (u.use handle Transaction.commit).quota := by
  rw [use]
  split
  · exact .none
  · next t _ =>
      simp only [Transaction.commit]
      split
      · exact .none
      · exact .committed t.resource

theorem effect_use_rollback (u : QuotaInUse) (handle : Nat) :
    Effect u (u.use handle Transaction.rollback).quota := by
  rw [use]
  split
  · exact .none
  · next t _ =>
      simp only [Transaction.rollback]
      split
      · exact .none
      · exact .rolledBack t.resource

theorem effect_step (u : QuotaInUse) (s : QuotaSection) : Effect u (u.step s).quota := by
  cases s with
  | inspect resource amount =>
      rw [step]
      split
      · exact .none
      · exact .none
  | register call =>
      rw [step]
      split
      · exact .none
      · next resource amount hcall =>
          -- the test is made again, so a call that has passed may still be refused
          dsimp only
          split
          · exact .none
          · next q hq => exact .registered (List.mem_of_getElem? hcall) hq
  | commit handle => exact effect_use_commit u handle
  | rollback handle => exact effect_use_rollback u handle
  | drop handle => exact effect_use_rollback u handle

/-! ## What all sections preserve -/

theorem Effect.max_eq {u : QuotaInUse} {q : Quota} (h : Effect u q) : q.max = u.quota.max := by
  cases h with
  | none => rfl
  | registered _ ok =>
      obtain ⟨-, -, rfl⟩ := Quota.register_eq_ok ok
      rfl
  | committed resource => exact Quota.max_commit u.quota resource
  | rolledBack resource => rfl

theorem max_step (u : QuotaInUse) (s : QuotaSection) : (u.step s).quota.max = u.quota.max :=
  (effect_step u s).max_eq

theorem max_run (u : QuotaInUse) (ss : List QuotaSection) :
    (u.run ss).quota.max = u.quota.max := by
  induction ss generalizing u with
  | nil => rfl
  | cons s ss ih => rw [run_cons, ih, max_step]

theorem admitted_use (u : QuotaInUse) (handle : Nat)
    (f : Transaction → Quota → Quota × Transaction) : (u.use handle f).admitted = u.admitted := by
  rw [use]
  split <;> rfl

/-- A call that has passed had passed before or passes now. -/
theorem mem_admitted_step {u : QuotaInUse} {s : QuotaSection} {c : String × Nat}
    (h : c ∈ (u.step s).admitted) :
    c ∈ u.admitted ∨ u.quota.precheck c.1 c.2 = .ok () := by
  cases s with
  | inspect resource amount =>
      rw [step] at h
      split at h
      · exact Or.inl h
      · next hpre =>
          rcases List.mem_append.1 h with hold | hnew
          · exact Or.inl hold
          · rw [List.mem_singleton.1 hnew]
            exact Or.inr hpre
  | register call =>
      left
      rw [step] at h
      split at h
      · exact h
      · dsimp only at h
        split at h
        · exact List.mem_of_mem_eraseIdx h
        · exact List.mem_of_mem_eraseIdx h
  | commit handle => exact Or.inl (by rwa [step, admitted_use] at h)
  | rollback handle => exact Or.inl (by rwa [step, admitted_use] at h)
  | drop handle =>
      left
      rw [step] at h
      rwa [← admitted_use u handle Transaction.rollback]

end QuotaInUse

end IngressTls
