import IngressTls.Proofs.Quota.Operating

set_option autoImplicit false

/-! # The desk of the quota

Any number of callers open transactions and keep their handles. A call to open one names a resource
and an amount and is served in two sections: the first test only reads, the second tests again and
registers. Sections of other calls, commits, rollbacks and drops may come in between. A call that
fails a test is answered at once; a test whose sums do not fit into 64 bits breaks the call off.

`Desk` is the quota with all calls and all handles there have been. How a call is served is a
parameter, so that other ways of serving it can be compared with the two tests.

Amounts are any integers.

Main statements: `permits_iff`, which says when a step takes place, and `step?_serve_eq_some`,
`step?_commit_eq_some`, `step?_rollback_eq_some`, `step?_drop_eq_some` and `twoTests_cases`, which
say all that it can do.
-/

namespace IngressTls

/-- What a call to open a transaction is told. -/
inductive Reply where
  /-- The transaction is open. -/
  | opened
  /-- It is refused. -/
  | refused (why : QuotaRefusal)
  /-- A sum did not fit into 64 bits. -/
  | brokeOff
  deriving DecidableEq, Repr

/-- How far a call has come. -/
inductive CallStage where
  /-- Nothing has been tested. -/
  | waiting
  /-- It has passed the first test. -/
  | passed
  /-- It has returned. -/
  | answered (reply : Reply)
  deriving DecidableEq, Repr

/-- A call to open a transaction. -/
structure DeskCall where
  /-- The resource to reserve for. -/
  resource : String
  /-- The amount to reserve. -/
  amount : Int
  /-- How far it has come. -/
  stage : CallStage
  deriving DecidableEq, Repr

/-- A handle that was given out, with the amount that its transaction was opened with. -/
structure Ticket where
  /-- The handle. -/
  transaction : Transaction
  /-- The amount that was asked for. -/
  amount : Int
  /-- Whether the handle is gone. -/
  dropped : Bool
  deriving DecidableEq, Repr

/-- A handle is open while it is there and has not been committed or rolled back. -/
def Ticket.isOpen (k : Ticket) : Bool := !k.dropped && !k.transaction.finalized

/-- The handle is committed or rolled back. -/
def Ticket.finalize (k : Ticket) : Ticket :=
  { k with transaction := { k.transaction with finalized := true } }

theorem Ticket.isOpen_finalize (k : Ticket) : k.finalize.isOpen = false := by
  simp [isOpen, finalize]

/-- The quota, the calls there have been, and the handles that were given out. -/
structure Desk where
  /-- The quota. -/
  quota : Quota
  /-- The calls, in the order in which they came. -/
  calls : List DeskCall
  /-- The handles, in the order in which they were given out. -/
  tickets : List Ticket

/-- What can happen at the desk. -/
inductive DeskEvent where
  /-- Somebody calls. -/
  | call (resource : String) (amount : Int)
  /-- The call at a place is served in one section. -/
  | serve (call : Nat)
  /-- A commit through the handle at a place. -/
  | commit (ticket : Nat)
  /-- A rollback through the handle at a place. -/
  | rollback (ticket : Nat)
  /-- The handle at a place is dropped. -/
  | drop (ticket : Nat)
  deriving DecidableEq, Repr

/-! ## Serving a call -/

/-- The first test, with the answer of a call that does not pass it. -/
def Quota.firstTest (q : Quota) (resource : String) (amount : Int) : Option Reply :=
  if q.reserveFits resource amount then
    match q.precheck resource amount with
    | .error e => some (.refused e)
    | .ok () => none
  else some .brokeOff

/-- The second test, which registers a call that passes. -/
def Quota.secondTest (q : Quota) (resource : String) (amount : Int) : Quota × Reply :=
  if amount = 0 ∨ q.checkFits resource amount then
    match q.register resource amount with
    | .error e => (q, .refused e)
    | .ok q' => (q', .opened)
  else (q, .brokeOff)

theorem Quota.firstTest_eq_none {q : Quota} {resource : String} {amount : Int}
    (h : q.firstTest resource amount = none) : q.precheck resource amount = .ok () := by
  rw [firstTest] at h
  split at h
  · cases hpre : q.precheck resource amount with
    | error e => simp [hpre] at h
    | ok _ => rfl
  · cases h

theorem Quota.firstTest_ne_opened {q : Quota} {resource : String} {amount : Int} {reply : Reply}
    (h : q.firstTest resource amount = some reply) : reply ≠ .opened := by
  rw [firstTest] at h
  split at h
  · cases hpre : q.precheck resource amount with
    | error e =>
        simp only [hpre, Option.some.injEq] at h
        simp [← h]
    | ok _ => simp [hpre] at h
  · cases h
    simp

/-- The second test tells the call that it does not pass, or makes the amount pending. -/
theorem Quota.secondTest_cases (q : Quota) (resource : String) (amount : Int) :
    (∃ reply, reply ≠ .opened ∧ q.secondTest resource amount = (q, reply)) ∨
    (q.pending.has resource = false ∧ q.secondTest resource amount =
      ({ q with pending := q.pending.insert resource amount }, .opened)) := by
  rw [secondTest]
  split
  · cases hreg : q.register resource amount with
    | error e => exact Or.inl ⟨.refused e, by simp, rfl⟩
    | ok q' =>
        obtain ⟨hpending, -, rfl⟩ := register_eq_ok hreg
        exact Or.inr ⟨hpending, rfl⟩
  · exact Or.inl ⟨.brokeOff, by simp, rfl⟩

/-- A way of serving a call: what becomes of the quota, and how far the call comes. -/
abbrev Serving := Quota → DeskCall → Quota × CallStage

/-- A call is served by one test, and by the other the next time. -/
def twoTests : Serving := fun q c =>
  match c.stage with
  | .waiting =>
    match q.firstTest c.resource c.amount with
    | some reply => (q, .answered reply)
    | none => (q, .passed)
  | .passed =>
    ((q.secondTest c.resource c.amount).1, .answered (q.secondTest c.resource c.amount).2)
  | .answered reply => (q, .answered reply)

namespace Desk

/-! ## Steps and runs -/

/-- Nobody has called yet. -/
def start (max : Int) : Desk := ⟨.new max, [], []⟩

/-- The call at a place has been served; a transaction that is open now has a handle. -/
def serve (serving : Serving) (d : Desk) (i : Nat) (c : DeskCall) : Desk where
  quota := (serving d.quota c).1
  calls := d.calls.set i { c with stage := (serving d.quota c).2 }
  tickets :=
    if (serving d.quota c).2 = .answered .opened then
      d.tickets ++ [⟨⟨c.resource, false⟩, c.amount, false⟩]
    else d.tickets

/-- The handle at a place is used, if it is there. -/
def use? (d : Desk) (i : Nat) (f : Quota → Ticket → Quota × Ticket) : Option Desk :=
  match d.tickets[i]? with
  | none => none
  | some k =>
    if k.dropped then none
    else some
      { d with quota := (f d.quota k).1, tickets := d.tickets.set i (f d.quota k).2 }

/-- One step at the desk, if it is possible. A call that has been answered is not served again, and
a handle that was dropped is not used again. -/
def step? (serving : Serving) (d : Desk) : DeskEvent → Option Desk
  | .call resource amount => some { d with calls := d.calls ++ [⟨resource, amount, .waiting⟩] }
  | .serve i =>
    match d.calls[i]? with
    | none => none
    | some c =>
      match c.stage with
      | .answered _ => none
      | .waiting | .passed => some (d.serve serving i c)
  | .commit i => d.use? i fun q k =>
    ((k.transaction.commit q).1, { k with transaction := (k.transaction.commit q).2 })
  | .rollback i => d.use? i fun q k =>
    ((k.transaction.rollback q).1, { k with transaction := (k.transaction.rollback q).2 })
  | .drop i => d.use? i fun q k => (k.transaction.drop q, { k with dropped := true })

/-- What can be done: anybody can call, a call is served until it is answered, and a handle is used
until it is dropped. -/
def Permits (d : Desk) : DeskEvent → Prop
  | .call _ _ => True
  | .serve i => ∃ c, d.calls[i]? = some c ∧ ∀ reply, c.stage ≠ .answered reply
  | .commit i | .rollback i | .drop i => ∃ k, d.tickets[i]? = some k ∧ k.dropped = false

/-- Steps one after the other, if they are possible. -/
def run? (serving : Serving) : Desk → List DeskEvent → Option Desk
  | d, [] => some d
  | d, e :: es =>
    match d.step? serving e with
    | none => none
    | some d' => d'.run? serving es

variable {serving : Serving} {d d' d'' : Desk} {e : DeskEvent} {es : List DeskEvent} {i : Nat}

theorem run?_cons (h : d.step? serving e = some d') :
    d.run? serving (e :: es) = d'.run? serving es := by
  rw [run?, h]

theorem run?_cons_eq_some :
    d.run? serving (e :: es) = some d'' ↔
      ∃ d', d.step? serving e = some d' ∧ d'.run? serving es = some d'' := by
  rw [run?]
  cases h : d.step? serving e with
  | none => simp
  | some d' => simp

theorem run?_append {es es' : List DeskEvent} :
    d.run? serving (es ++ es') = some d'' ↔
      ∃ d', d.run? serving es = some d' ∧ d'.run? serving es' = some d'' := by
  induction es generalizing d with
  | nil => simp [run?]
  | cons e es ih =>
      rw [List.cons_append, run?_cons_eq_some]
      constructor
      · rintro ⟨d₁, hstep, hrun⟩
        obtain ⟨d₂, hes, hes'⟩ := ih.1 hrun
        exact ⟨d₂, run?_cons_eq_some.2 ⟨d₁, hstep, hes⟩, hes'⟩
      · rintro ⟨d₂, hrun, hes'⟩
        obtain ⟨d₁, hstep, hes⟩ := run?_cons_eq_some.1 hrun
        exact ⟨d₁, hstep, ih.2 ⟨d₂, hes, hes'⟩⟩

/-- What holds before anybody calls, and is kept by every step, holds after every run. -/
theorem run?_induction {max : Int} {P : List DeskEvent → Desk → Prop} (hstart : P [] (start max))
    (hstep : ∀ {es d e d'}, P es d → d.step? serving e = some d' → P (es ++ [e]) d')
    (h : (start max).run? serving es = some d) : P es d := by
  induction es using List.reverseRecOn generalizing d with
  | nil =>
      cases h
      exact hstart
  | append_singleton es e ih =>
      obtain ⟨d₁, hes, he⟩ := run?_append.1 h
      obtain ⟨d₂, he, hnil⟩ := run?_cons_eq_some.1 he
      cases hnil
      exact hstep (ih hes) he

/-! ## What a step does -/

/-- What a call is served for: it is there, and it has not been answered. -/
theorem step?_serve_eq_some :
    d.step? serving (.serve i) = some d' ↔
      ∃ c, d.calls[i]? = some c ∧ (∀ reply, c.stage ≠ .answered reply) ∧
        d' = d.serve serving i c := by
  simp only [step?]
  cases d.calls[i]? with
  | none => simp
  | some c =>
      obtain ⟨resource, amount, stage⟩ := c
      cases stage with
      | waiting => simp [@eq_comm _ d']
      | passed => simp [@eq_comm _ d']
      | answered reply => simp

theorem use?_eq_some {f : Quota → Ticket → Quota × Ticket} :
    d.use? i f = some d' ↔
      ∃ k, d.tickets[i]? = some k ∧ k.dropped = false ∧
        d' = { d with quota := (f d.quota k).1, tickets := d.tickets.set i (f d.quota k).2 } := by
  rw [use?]
  cases d.tickets[i]? with
  | none => simp
  | some k =>
      cases hdropped : k.dropped with
      | false => simp [hdropped, @eq_comm _ d']
      | true => simp [hdropped]

theorem exists_use?_iff {f : Quota → Ticket → Quota × Ticket} :
    (∃ d', d.use? i f = some d') ↔ ∃ k, d.tickets[i]? = some k ∧ k.dropped = false := by
  simp only [use?_eq_some]
  constructor
  · rintro ⟨_, k, hk, hdropped, -⟩
    exact ⟨k, hk, hdropped⟩
  · rintro ⟨k, hk, hdropped⟩
    exact ⟨_, k, hk, hdropped, rfl⟩

theorem length_use? {f : Quota → Ticket → Quota × Ticket} (h : d.use? i f = some d') :
    i < d.tickets.length ∧ d'.tickets.length = d.tickets.length := by
  obtain ⟨k, hk, -, rfl⟩ := use?_eq_some.1 h
  exact ⟨(List.getElem?_eq_some_iff.1 hk).1, List.length_set⟩

/-- A step takes place exactly if it is permitted. -/
theorem permits_iff : d.Permits e ↔ ∃ d', d.step? serving e = some d' := by
  cases e with
  | call resource amount => simp [Permits, step?]
  | serve i =>
      simp only [Permits, step?_serve_eq_some]
      constructor
      · rintro ⟨c, hc, hwaits⟩
        exact ⟨_, c, hc, hwaits, rfl⟩
      · rintro ⟨_, c, hc, hwaits, -⟩
        exact ⟨c, hc, hwaits⟩
  | commit i => rw [Permits, step?, exists_use?_iff]
  | rollback i => rw [Permits, step?, exists_use?_iff]
  | drop i => rw [Permits, step?, exists_use?_iff]

theorem set_of_get {α : Type} {l : List α} {a : α} (h : l[i]? = some a) : l.set i a = l := by
  obtain ⟨hi, rfl⟩ := List.getElem?_eq_some_iff.1 h
  exact List.set_getElem_self hi

/-- A commit through a handle that is there: nothing happens if it has been finalized. -/
theorem step?_commit_eq_some (h : d.step? serving (.commit i) = some d') :
    ∃ k, d.tickets[i]? = some k ∧ k.dropped = false ∧
      (k.transaction.finalized = true ∧ d' = d ∨
        k.transaction.finalized = false ∧
          d' = ⟨d.quota.commit k.transaction.resource, d.calls, d.tickets.set i k.finalize⟩) := by
  rw [step?] at h
  obtain ⟨k, hk, hdropped, rfl⟩ := use?_eq_some.1 h
  refine ⟨k, hk, hdropped, ?_⟩
  cases hfinal : k.transaction.finalized with
  | true => simp [Transaction.commit, hfinal, set_of_get hk]
  | false => simp [Transaction.commit, hfinal, Ticket.finalize]

/-- A rollback through a handle that is there: nothing happens if it has been finalized. -/
theorem step?_rollback_eq_some (h : d.step? serving (.rollback i) = some d') :
    ∃ k, d.tickets[i]? = some k ∧ k.dropped = false ∧
      (k.transaction.finalized = true ∧ d' = d ∨
        k.transaction.finalized = false ∧
          d' = ⟨d.quota.rollback k.transaction.resource, d.calls,
            d.tickets.set i k.finalize⟩) := by
  rw [step?] at h
  obtain ⟨k, hk, hdropped, rfl⟩ := use?_eq_some.1 h
  refine ⟨k, hk, hdropped, ?_⟩
  cases hfinal : k.transaction.finalized with
  | true => simp [Transaction.rollback, hfinal, set_of_get hk]
  | false => simp [Transaction.rollback, hfinal, Ticket.finalize]

/-- A handle is dropped, which rolls back unless it has been finalized. -/
theorem step?_drop_eq_some (h : d.step? serving (.drop i) = some d') :
    ∃ k, d.tickets[i]? = some k ∧ k.dropped = false ∧
      d' = ⟨if k.transaction.finalized then d.quota else d.quota.rollback k.transaction.resource,
        d.calls, d.tickets.set i { k with dropped := true }⟩ := by
  rw [step?] at h
  obtain ⟨k, hk, hdropped, rfl⟩ := use?_eq_some.1 h
  refine ⟨k, hk, hdropped, ?_⟩
  cases hfinal : k.transaction.finalized with
  | true => simp [Transaction.drop, Transaction.rollback, hfinal]
  | false => simp [Transaction.drop, Transaction.rollback, hfinal]

end Desk

/-- All that serving by two tests can do: the call is told that it is refused or breaks off, it
passes the first test, or it passes the second and the amount is pending. -/
theorem twoTests_cases (q : Quota) (c : DeskCall) (hopen : ∀ reply, c.stage ≠ .answered reply) :
    (∃ reply, reply ≠ .opened ∧ twoTests q c = (q, .answered reply)) ∨
    (c.stage = .waiting ∧ q.precheck c.resource c.amount = .ok () ∧ twoTests q c = (q, .passed)) ∨
    (c.stage = .passed ∧ q.pending.has c.resource = false ∧
      twoTests q c = ({ q with pending := q.pending.insert c.resource c.amount },
        .answered .opened)) := by
  cases hstage : c.stage with
  | answered reply => exact absurd hstage (hopen reply)
  | waiting =>
      simp only [twoTests, hstage]
      cases hfirst : q.firstTest c.resource c.amount with
      | none => exact Or.inr (Or.inl ⟨trivial, Quota.firstTest_eq_none hfirst, rfl⟩)
      | some reply => exact Or.inl ⟨reply, Quota.firstTest_ne_opened hfirst, rfl⟩
  | passed =>
      simp only [twoTests, hstage]
      obtain ⟨reply, hreply, htest⟩ | ⟨hpending, htest⟩ :=
        q.secondTest_cases c.resource c.amount
      · exact Or.inl ⟨reply, hreply, by rw [htest]⟩
      · exact Or.inr (Or.inr ⟨trivial, hpending, by rw [htest]⟩)

end IngressTls
