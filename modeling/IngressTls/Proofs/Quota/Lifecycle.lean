import IngressTls.Proofs.Quota.Desk

set_option autoImplicit false

/-! # The life of a handle

Handles name their transactions by the resource alone. Several handles of one resource may be
around at a time, and at most one of them is open. An amount is pending for a resource exactly while
one is, and it is the amount that this one was opened with. The first commit, rollback or drop of a
handle ends its transaction; what is done with it later does nothing, whatever is open for the
resource by then.

Main statement: `transaction_lifecycle`.
-/

namespace IngressTls

/-- Whether an event is a commit, a rollback or a drop of the handle at a place. -/
def DeskEvent.ends (e : DeskEvent) (i : Nat) : Bool :=
  e = .commit i || e = .rollback i || e = .drop i

namespace DeskEvent

@[simp] theorem ends_call (resource : String) (amount : Int) (j : Nat) :
    (call resource amount).ends j = false := rfl

@[simp] theorem ends_serve (i j : Nat) : (serve i).ends j = false := rfl

@[simp] theorem ends_commit (i j : Nat) : (commit i).ends j = true ↔ j = i := by
  simp [ends, eq_comm]

@[simp] theorem ends_rollback (i j : Nat) : (rollback i).ends j = true ↔ j = i := by
  simp [ends, eq_comm]

@[simp] theorem ends_drop (i j : Nat) : (drop i).ends j = true ↔ j = i := by
  simp [ends, eq_comm]

end DeskEvent

namespace Desk

variable {d d' : Desk} {es : List DeskEvent} {e : DeskEvent} {i : Nat} {r : String} {n : Int}

/-! ## Open handles -/

/-- The resource and the amount of the handle at a place, if it is open. -/
def openAt (d : Desk) (i : Nat) : Option (String × Int) :=
  match d.tickets[i]? with
  | none => none
  | some k => if k.isOpen then some (k.transaction.resource, k.amount) else none

theorem openAt_of_finalized {k : Ticket} (hk : d.tickets[i]? = some k)
    (hfinal : k.transaction.finalized = true) : d.openAt i = none := by
  simp [openAt, hk, Ticket.isOpen, hfinal]

theorem openAt_of_unfinalized {k : Ticket} (hk : d.tickets[i]? = some k)
    (hdropped : k.dropped = false) (hfinal : k.transaction.finalized = false) :
    d.openAt i = some (k.transaction.resource, k.amount) := by
  simp [openAt, hk, Ticket.isOpen, hdropped, hfinal]

theorem lt_of_openAt (h : d.openAt i = some (r, n)) : i < d.tickets.length := by
  by_contra hge
  rw [openAt, List.getElem?_eq_none (by omega)] at h
  cases h

/-- A new handle is open. -/
theorem openAt_append (htickets : d'.tickets = d.tickets ++ [⟨⟨r, false⟩, n, false⟩]) (j : Nat) :
    d'.openAt j = if j = d.tickets.length then some (r, n) else d.openAt j := by
  rw [openAt, openAt, htickets]
  split_ifs with hj
  · simp [hj, Ticket.isOpen]
  · obtain hlt | hgt := Nat.lt_or_gt_of_ne hj
    · rw [List.getElem?_append_left hlt]
    · rw [List.getElem?_eq_none (by simp; omega), List.getElem?_eq_none (by omega)]

/-- The handle at a place is not open any more. -/
theorem openAt_set {calls : List DeskCall} {q : Quota} {k : Ticket} (hclosed : k.isOpen = false)
    (j : Nat) :
    (Desk.mk q calls (d.tickets.set i k)).openAt j = if j = i then none else d.openAt j := by
  rw [openAt, openAt]
  dsimp only
  split_ifs with hj
  · subst hj
    rw [List.getElem?_set_self']
    cases d.tickets[j]? with
    | none => rfl
    | some _ => simp [hclosed]
  · rw [List.getElem?_set_ne (Ne.symm hj)]

/-! ## What an event does -/

/-- The transaction of the handle at a place, for a resource, has been ended: nothing is pending for
the resource, it has acquired `acquired`, and the handle is not open. Other resources and handles
are as before. -/
structure Ended (d d' : Desk) (i : Nat) (resource : String) (acquired : Option Int) : Prop where
  max : d'.quota.max = d.quota.max
  acquired : ∀ r, d'.quota.acquired.find? r =
    if r = resource then acquired else d.quota.acquired.find? r
  pending : ∀ r, d'.quota.pending.find? r = if r = resource then none else d.quota.pending.find? r
  openAt : ∀ j, d'.openAt j = if j = i then none else d.openAt j

/-- What an event does to the quota and to the handles. -/
def Effect (d : Desk) (e : DeskEvent) (d' : Desk) : Prop :=
  match e with
  | .call _ _ => d'.quota = d.quota ∧ d'.tickets = d.tickets
  | .serve i =>
    ∃ c stage, d.calls[i]? = some c ∧ d'.calls = d.calls.set i { c with stage } ∧
      (stage ≠ .answered .opened → d'.quota = d.quota ∧ d'.tickets = d.tickets) ∧
      (stage = .answered .opened → d.quota.pending.has c.resource = false ∧
        d'.quota = { d.quota with pending := d.quota.pending.insert c.resource c.amount } ∧
        d'.tickets = d.tickets ++ [⟨⟨c.resource, false⟩, c.amount, false⟩])
  | .commit i =>
    (d.openAt i = none → d' = d) ∧
    ∀ r n, d.openAt i = some (r, n) → d.Ended d' i r (if n = 0 then none else some n)
  | .rollback i =>
    (d.openAt i = none → d' = d) ∧
    ∀ r n, d.openAt i = some (r, n) → d.Ended d' i r (d.quota.acquired.find? r)
  | .drop i =>
    (d.openAt i = none → d'.quota = d.quota ∧ ∀ j, d'.openAt j = d.openAt j) ∧
    ∀ r n, d.openAt i = some (r, n) → d.Ended d' i r (d.quota.acquired.find? r)

/-! ## The books -/

/-- The books of the desk are in order after some events. -/
structure Booked (es : List DeskEvent) (d : Desk) : Prop where
  /-- What is pending are the amounts of the open handles. -/
  pending : ∀ r n, d.quota.pending.find? r = some n ↔ ∃ i, d.openAt i = some (r, n)
  /-- Two open handles are for different resources. -/
  single : ∀ {r n m i j}, d.openAt i = some (r, n) → d.openAt j = some (r, m) → i = j
  /-- The open handles are those that no event has ended. -/
  untouched : ∀ i, d.openAt i ≠ none ↔
    i < d.tickets.length ∧ ∀ e ∈ es, DeskEvent.ends e i = false
  /-- A handle is given out before it is used. -/
  known : ∀ e ∈ es, ∀ i, DeskEvent.ends e i = true → i < d.tickets.length

theorem booked_start (max : Int) : Booked [] (start max) where
  pending r n := by simp [start, Quota.new, openAt]
  single h := by simp [start, openAt] at h
  untouched i := by simp [start, openAt]
  known e he := by simp at he

/-- All that serving a call does. -/
theorem effect_serve (hstep : d.step? twoTests (.serve i) = some d') :
    d.Effect (.serve i) d' := by
  obtain ⟨c, hc, hwaits, rfl⟩ := step?_serve_eq_some.1 hstep
  refine ⟨c, _, hc, rfl, fun hstage => ?_, fun hstage => ?_⟩
  · obtain ⟨reply, hreply, htests⟩ | ⟨-, -, htests⟩ | ⟨-, -, htests⟩ :=
      twoTests_cases d.quota c hwaits
    · simp [serve, htests, hreply]
    · simp [serve, htests]
    · exact absurd (by rw [htests]) hstage
  · obtain ⟨reply, hreply, htests⟩ | ⟨-, -, htests⟩ | ⟨-, hpending, htests⟩ :=
      twoTests_cases d.quota c hwaits
    · rw [htests] at hstage
      cases hstage
      exact absurd rfl hreply
    · rw [htests] at hstage
      cases hstage
    · exact ⟨hpending, by simp [serve, htests], by simp [serve, htests]⟩

/-- A handle that is open lets its amount replace what the resource has acquired. -/
theorem ended_commit {k : Ticket} (hamount : d.quota.pending.find? r = some n)
    (hclosed : k.isOpen = false) :
    d.Ended ⟨d.quota.commit r, d.calls, d.tickets.set i k⟩ i r (if n = 0 then none else some n)
    where
  max := Quota.max_commit _ _
  acquired := Quota.find?_commit hamount
  pending := Quota.pending_find?_commit _ _
  openAt := openAt_set hclosed

/-- A rollback leaves what the resource has acquired. -/
theorem ended_rollback (r : String) {k : Ticket} (hclosed : k.isOpen = false) :
    d.Ended ⟨d.quota.rollback r, d.calls, d.tickets.set i k⟩ i r (d.quota.acquired.find? r) where
  max := rfl
  acquired j := by
    split_ifs with hj
    · rw [hj, Quota.rollback]
    · rfl
  pending := Quota.pending_find?_rollback _ _
  openAt := openAt_set hclosed

/-- All that an event does, if the books are in order. -/
theorem Booked.effect (h : d.Booked es) (hstep : d.step? twoTests e = some d') :
    d.Effect e d' := by
  cases e with
  | call resource amount =>
      cases hstep
      exact ⟨rfl, rfl⟩
  | serve i => exact effect_serve hstep
  | commit i =>
      obtain ⟨k, hk, hdropped, ⟨hfinal, rfl⟩ | ⟨hfinal, rfl⟩⟩ := step?_commit_eq_some hstep
      · simp [Effect, openAt_of_finalized hk hfinal]
      · have hopen := openAt_of_unfinalized hk hdropped hfinal
        have hended := ended_commit (i := i) ((h.pending _ _).2 ⟨i, hopen⟩) k.isOpen_finalize
        simpa [Effect, hopen] using hended
  | rollback i =>
      obtain ⟨k, hk, hdropped, ⟨hfinal, rfl⟩ | ⟨hfinal, rfl⟩⟩ := step?_rollback_eq_some hstep
      · simp [Effect, openAt_of_finalized hk hfinal]
      · have hopen := openAt_of_unfinalized hk hdropped hfinal
        have hended := ended_rollback (d := d) (i := i) k.transaction.resource k.isOpen_finalize
        simpa [Effect, hopen] using hended
  | drop i =>
      obtain ⟨k, hk, hdropped, rfl⟩ := step?_drop_eq_some hstep
      have hclosed : ({ k with dropped := true } : Ticket).isOpen = false := by simp [Ticket.isOpen]
      cases hfinal : k.transaction.finalized with
      | true =>
          have hnot := openAt_of_finalized hk hfinal
          have hsame : ∀ j, (if j = i then none else d.openAt j) = d.openAt j := by
            intro j
            split_ifs with hj
            · rw [hj, hnot]
            · rfl
          simp [Effect, hnot, openAt_set hclosed, hsame]
      | false =>
          have hopen := openAt_of_unfinalized hk hdropped hfinal
          have hended := ended_rollback (d := d) (i := i) k.transaction.resource hclosed
          simpa [Effect, hopen] using hended

/-! ## The books stay in order -/

/-- An event that ends nothing leaves the books in order. -/
theorem Booked.idle (h : d.Booked es) (hpending : d'.quota.pending = d.quota.pending)
    (hopen : ∀ j, d'.openAt j = d.openAt j) (hlength : d'.tickets.length = d.tickets.length)
    (hends : ∀ j, e.ends j = true → j < d.tickets.length ∧ d.openAt j = none) :
    d'.Booked (es ++ [e]) where
  pending r n := by
    rw [hpending, h.pending]
    simp only [hopen]
  single := by
    simp only [hopen]
    exact h.single
  untouched j := by
    rw [hopen, hlength, h.untouched]
    refine and_congr_right fun hj => ?_
    constructor
    · intro hnone e' he'
      rw [List.mem_append, List.mem_singleton] at he'
      obtain he' | rfl := he'
      · exact hnone e' he'
      · by_contra hends'
        have hclosed := (hends j (by simpa using hends')).2
        exact (h.untouched j).2 ⟨hj, hnone⟩ hclosed
    · exact fun hnone e' he' => hnone e' (List.mem_append_left _ he')
  known e' he' j hj := by
    rw [hlength]
    rw [List.mem_append, List.mem_singleton] at he'
    obtain he' | rfl := he'
    · exact h.known e' he' j hj
    · exact (hends j hj).1

/-- The first event that ends a transaction leaves the books in order. -/
theorem Booked.ended (h : d.Booked es) {acquired : Option Int} (hopen : d.openAt i = some (r, n))
    (hended : d.Ended d' i r acquired) (hlength : d'.tickets.length = d.tickets.length)
    (hends : ∀ j, e.ends j = true ↔ j = i) : d'.Booked (es ++ [e]) where
  pending s m := by
    rw [hended.pending]
    simp only [hended.openAt]
    split_ifs with hs
    · subst hs
      constructor
      · intro hnone
        cases hnone
      · rintro ⟨j, hj⟩
        split_ifs at hj with hji
        exact absurd (h.single hj hopen) hji
    · rw [h.pending]
      constructor
      · rintro ⟨j, hj⟩
        refine ⟨j, ?_⟩
        rw [if_neg]
        · exact hj
        · rintro rfl
          rw [hopen] at hj
          cases hj
          exact hs rfl
      · rintro ⟨j, hj⟩
        split_ifs at hj with hji
        exact ⟨j, hj⟩
  single := by
    intro s m m' j j' hj hj'
    rw [hended.openAt] at hj hj'
    split_ifs at hj with hji
    split_ifs at hj' with hji'
    exact h.single hj hj'
  untouched j := by
    rw [hended.openAt, hlength]
    split_ifs with hji
    · subst hji
      simp [(hends j).2 rfl]
    · rw [h.untouched]
      refine and_congr_right fun _ => ?_
      have hother : e.ends j = false := by
        cases hj : e.ends j with
        | false => rfl
        | true => exact absurd ((hends j).1 hj) hji
      simp [or_imp, forall_and, hother]
  known e' he' j hj := by
    rw [hlength]
    rw [List.mem_append, List.mem_singleton] at he'
    obtain he' | rfl := he'
    · exact h.known e' he' j hj
    · rw [(hends j).1 hj]
      exact lt_of_openAt hopen

/-- A transaction that is opened leaves the books in order. -/
theorem Booked.opened (h : d.Booked es) (hnone : d.quota.pending.has r = false)
    (hpending : d'.quota.pending = d.quota.pending.insert r n)
    (htickets : d'.tickets = d.tickets ++ [⟨⟨r, false⟩, n, false⟩])
    (hends : ∀ j, e.ends j = false) : d'.Booked (es ++ [e]) := by
  have hopen := openAt_append htickets
  -- no handle is open for the resource yet
  have hfree : ∀ j m, d.openAt j ≠ some (r, m) := by
    intro j m hj
    have hfind := (h.pending r m).2 ⟨j, hj⟩
    rw [Table.has_eq_false_iff.1 hnone] at hfind
    cases hfind
  refine ⟨fun s m => ?_, ?_, fun j => ?_, fun e' he' j hj => ?_⟩
  · rw [hpending, Table.find?_insert]
    simp only [hopen]
    split_ifs with hs
    · subst hs
      constructor
      · intro hm
        cases hm
        exact ⟨d.tickets.length, by rw [if_pos rfl]⟩
      · rintro ⟨j, hj⟩
        split_ifs at hj with hjl
        · cases hj
          rfl
        · exact absurd hj (hfree j m)
    · rw [h.pending]
      constructor
      · rintro ⟨j, hj⟩
        exact ⟨j, by rwa [if_neg (lt_of_openAt hj).ne]⟩
      · rintro ⟨j, hj⟩
        split_ifs at hj with hjl
        · cases hj
          exact absurd rfl hs
        · exact ⟨j, hj⟩
  · intro s m m' j j' hj hj'
    rw [hopen] at hj hj'
    split_ifs at hj with hjl
    · cases hj
      split_ifs at hj' with hjl'
      · rw [hjl, hjl']
      · exact absurd hj' (hfree j' m')
    · split_ifs at hj' with hjl'
      · cases hj'
        exact absurd hj (hfree j m)
      · exact h.single hj hj'
  · rw [hopen, htickets, List.length_append, List.length_singleton]
    split_ifs with hjl
    · subst hjl
      simp only [ne_eq, reduceCtorEq, not_false_eq_true, true_iff]
      refine ⟨by omega, fun e' he' => ?_⟩
      rw [List.mem_append, List.mem_singleton] at he'
      obtain he' | rfl := he'
      · cases hused : DeskEvent.ends e' d.tickets.length with
        | false => rfl
        | true => exact absurd (h.known e' he' _ hused) (by omega)
      · exact hends _
    · rw [h.untouched]
      have hlt : j < d.tickets.length + 1 ↔ j < d.tickets.length := by omega
      simp [hlt, or_imp, forall_and, hends]
  · rw [htickets, List.length_append]
    rw [List.mem_append, List.mem_singleton] at he'
    obtain he' | rfl := he'
    · have hlt := h.known e' he' j hj
      omega
    · rw [hends] at hj
      cases hj

theorem length_of_ends (hstep : d.step? twoTests e = some d') (hends : e.ends i = true) :
    i < d.tickets.length ∧ d'.tickets.length = d.tickets.length := by
  cases e with
  | call resource amount => cases hends
  | serve c => cases hends
  | commit j =>
      rw [step?] at hstep
      rw [(DeskEvent.ends_commit j i).1 hends]
      exact length_use? hstep
  | rollback j =>
      rw [step?] at hstep
      rw [(DeskEvent.ends_rollback j i).1 hends]
      exact length_use? hstep
  | drop j =>
      rw [step?] at hstep
      rw [(DeskEvent.ends_drop j i).1 hends]
      exact length_use? hstep

/-- The use of a handle that ends its transaction if it is open leaves the books in order. -/
theorem Booked.used (h : d.Booked es) (hstep : d.step? twoTests e = some d')
    (hclosed : d.openAt i = none →
      d'.quota.pending = d.quota.pending ∧ ∀ j, d'.openAt j = d.openAt j)
    (hended : ∀ r n, d.openAt i = some (r, n) → ∃ acquired, d.Ended d' i r acquired)
    (hends : ∀ j, e.ends j = true ↔ j = i) : d'.Booked (es ++ [e]) := by
  obtain ⟨hknown, hlength⟩ := length_of_ends hstep ((hends i).2 rfl)
  cases hopen : d.openAt i with
  | none =>
      obtain ⟨hpending, hsame⟩ := hclosed hopen
      refine h.idle hpending hsame hlength fun j hj => ?_
      rw [(hends j).1 hj]
      exact ⟨hknown, hopen⟩
  | some rn =>
      obtain ⟨acquired, hended⟩ := hended rn.1 rn.2 hopen
      exact h.ended hopen hended hlength hends

theorem Booked.step (h : d.Booked es) (hstep : d.step? twoTests e = some d') :
    d'.Booked (es ++ [e]) := by
  have heffect := h.effect hstep
  cases e with
  | call resource amount =>
      cases hstep
      exact h.idle rfl (fun _ => rfl) rfl (by simp)
  | serve i =>
      obtain ⟨c, stage, -, -, hrest, hopened⟩ := heffect
      by_cases hstage : stage = .answered .opened
      · obtain ⟨hnone, hquota, htickets⟩ := hopened hstage
        exact h.opened hnone (by rw [hquota]) htickets (by simp)
      · obtain ⟨hquota, htickets⟩ := hrest hstage
        have hsame : ∀ j, d'.openAt j = d.openAt j := fun j => by rw [openAt, htickets, openAt]
        exact h.idle (by rw [hquota]) hsame (by rw [htickets]) (by simp)
  | commit i =>
      exact h.used hstep (fun hnone => by rw [heffect.1 hnone]; exact ⟨rfl, fun _ => rfl⟩)
        (fun r n hopen => ⟨_, heffect.2 r n hopen⟩) (by simp)
  | rollback i =>
      exact h.used hstep (fun hnone => by rw [heffect.1 hnone]; exact ⟨rfl, fun _ => rfl⟩)
        (fun r n hopen => ⟨_, heffect.2 r n hopen⟩) (by simp)
  | drop i =>
      exact h.used hstep (fun hnone => ⟨by rw [(heffect.1 hnone).1], (heffect.1 hnone).2⟩)
        (fun r n hopen => ⟨_, heffect.2 r n hopen⟩) (by simp)

theorem booked_run {max : Int} (h : (start max).run? twoTests es = some d) : d.Booked es :=
  run?_induction (booked_start max) (fun hbooked hstep => hbooked.step hstep) h

/-! ## The statement -/

/-- After every run: something is pending for a resource exactly if one handle is open for it, no
more than one, and it is what this one was opened with. A handle is open from the moment it is given
out until it is first committed, rolled back or dropped. Each further event does what `Effect` says:
a call that is not told that it has opened a transaction changes nothing; the first commit lets the
amount replace what the resource has acquired, the first rollback or drop leaves what is acquired,
either way nothing is pending for the resource then and others are untouched; and through a handle
that is not open nothing happens any more. -/
theorem transaction_lifecycle {max : Int} (h : (start max).run? twoTests es = some d) :
    (∀ r, d.quota.pending.has r = true ↔ ∃! i, ∃ n, d.openAt i = some (r, n)) ∧
    (∀ i r n, d.openAt i = some (r, n) → d.quota.pending.find? r = some n) ∧
    (∀ i, d.openAt i ≠ none ↔ i < d.tickets.length ∧ ∀ e ∈ es, e.ends i = false) ∧
    (∀ e, d.Permits e ↔ ∃ d', d.step? twoTests e = some d') ∧
    ∀ e d', d.step? twoTests e = some d' → d.Effect e d' := by
  have hbooked := booked_run h
  refine ⟨fun r => ?_, fun i r n hi => (hbooked.pending r n).2 ⟨i, hi⟩, hbooked.untouched,
    fun e => permits_iff, fun e d' => hbooked.effect⟩
  rw [Table.has, Option.isSome_iff_exists]
  constructor
  · rintro ⟨n, hn⟩
    obtain ⟨i, hi⟩ := (hbooked.pending r n).1 hn
    refine ⟨i, ⟨n, hi⟩, ?_⟩
    rintro j ⟨m, hj⟩
    exact hbooked.single hj hi
  · rintro ⟨i, ⟨n, hi⟩, -⟩
    exact ⟨n, (hbooked.pending r n).2 ⟨i, hi⟩⟩

/-- The handle of a transaction that was committed is still around while `a` grows. -/
def staleBeside : List DeskEvent :=
  [.call "a" 2, .serve 0, .serve 0, .commit 0, .call "a" 3, .serve 1, .serve 1]

/-- A rollback through it is possible and does nothing: three are still pending. -/
theorem transaction_lifecycle_staleBeside :
    ∃ d, (start 5).run? twoTests staleBeside = some d ∧ d.openAt 0 = none ∧
      d.openAt 1 = some ("a", 3) ∧ d.step? twoTests (.rollback 0) = some d ∧
      d.quota.pending.find? "a" = some 3 := by
  have hrun : ∃ d, (start 5).run? twoTests staleBeside = some d ∧ d.openAt 0 = none ∧
      d.openAt 1 = some ("a", 3) ∧ ∃ k, d.tickets[0]? = some k ∧ k.dropped = false :=
    ⟨_, rfl, rfl, rfl, _, rfl, rfl⟩
  obtain ⟨d, hd, hstale, hopen, hkept⟩ := hrun
  obtain ⟨-, hpending, -, hpermits, heffect⟩ := transaction_lifecycle hd
  obtain ⟨d', hd'⟩ := (hpermits (.rollback 0)).1 hkept
  have hsame : d' = d := (heffect _ _ hd').1 hstale
  rw [hsame] at hd'
  exact ⟨d, hd, hstale, hopen, hd', hpending 1 "a" 3 hopen⟩

end Desk

end IngressTls
