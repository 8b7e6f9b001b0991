import IngressTls.Proofs.Quota.Desk

set_option autoImplicit false

/-! # Two tests are as good as one

Between the two tests of a call anything may happen to the quota. The call is told what a single
test under the lock, followed at once by the registration, would have told it at the moment of the
section that answers it. So the sections that only let a call pass can be left out of any run: what
is left is a run in which every call is served at once, with the same answers, the same handles and
the same quota.

Main statement: `double_check_atomic`.
-/

namespace IngressTls

/-! ## The single test -/

namespace Quota

/-- Tests once, and makes the amount pending. -/
def reserveOnce (q : Quota) (resource : String) (amount : Int) : Except QuotaRefusal Quota :=
  let opened : Quota := { q with pending := q.pending.insert resource amount }
  if !q.enabled then .error .disabled
  else if amount = 0 then
    if q.pending.has resource then .error (.pending resource) else .ok opened
  else if amount > q.max then .error (.exceeded resource amount q.inUse q.max)
  else (q.check resource amount).map fun _ => opened

/-- The single test, which registers a call that passes. -/
def singleTest (q : Quota) (resource : String) (amount : Int) : Quota × Reply :=
  if q.reserveFits resource amount then
    match q.reserveOnce resource amount with
    | .error e => (q, .refused e)
    | .ok q' => (q', .opened)
  else (q, .brokeOff)

/-- Both tests without anything in between. -/
def bothTests (q : Quota) (resource : String) (amount : Int) : Quota × Reply :=
  match q.firstTest resource amount with
  | some reply => (q, reply)
  | none => q.secondTest resource amount

variable {q q₀ : Quota} {resource : String} {amount : Int}

/-- Without interference the first test makes no difference. -/
theorem reserve_eq_reserveOnce (q : Quota) (resource : String) (amount : Int) :
    q.reserve resource amount = q.reserveOnce resource amount := by
  rw [reserve, precheck, reserveOnce]
  split_ifs with hoff hzero hpending hover
  · rfl
  · simp [register, hzero, hpending]
  · simp [register, hzero, hpending]
  · rfl
  · rw [register, if_neg hzero]
    cases q.check resource amount with
    | error e => rfl
    | ok _ => rfl

/-- A single test that can be computed makes a reservation, or is told why not. -/
theorem singleTest_of_error {why : QuotaRefusal} (hfits : q.reserveFits resource amount = true)
    (h : q.reserve resource amount = .error why) :
    q.singleTest resource amount = (q, .refused why) := by
  rw [reserve_eq_reserveOnce] at h
  rw [singleTest, if_pos hfits, h]

theorem singleTest_of_ok {q' : Quota} (hfits : q.reserveFits resource amount = true)
    (h : q.reserve resource amount = .ok q') : q.singleTest resource amount = (q', .opened) := by
  rw [reserve_eq_reserveOnce] at h
  rw [singleTest, if_pos hfits, h]

theorem singleTest_of_firstTest {reply : Reply} (h : q.firstTest resource amount = some reply) :
    q.singleTest resource amount = (q, reply) := by
  rw [firstTest] at h
  rw [singleTest, ← reserve_eq_reserveOnce, reserve]
  split_ifs at h ⊢ with hfits
  · cases hpre : q.precheck resource amount with
    | error e =>
        rw [hpre] at h
        cases h
        rfl
    | ok _ =>
        rw [hpre] at h
        cases h
  · cases h
    rfl

/-- What a call has to compute once it has passed the first test. -/
theorem reserveFits_of_passed (hmax : q.max = q₀.max)
    (hpassed : q₀.precheck resource amount = .ok ()) :
    q.reserveFits resource amount = true ↔ amount = 0 ∨ q.checkFits resource amount = true := by
  have hon : q.enabled = true := by
    rw [enabled, hmax]
    exact decide_eq_true (enabled_of_precheck hpassed)
  by_cases hzero : amount = 0
  · simp [reserveFits, hzero]
  · have hle : ¬ amount > q.max := by
      have hle₀ := (le_max_of_precheck hpassed).resolve_left hzero
      omega
    simp [reserveFits, hon, hzero, hle]

/-- The second test of a call that has passed the first one, at any earlier time, is the single
test. -/
theorem singleTest_of_passed (hmax : q.max = q₀.max)
    (hpassed : q₀.precheck resource amount = .ok ()) :
    q.singleTest resource amount = q.secondTest resource amount := by
  rw [singleTest, secondTest, ← reserve_eq_reserveOnce, reserve_eq_register hmax hpassed]
  exact if_congr (reserveFits_of_passed hmax hpassed) rfl rfl

theorem bothTests_eq_singleTest (q : Quota) (resource : String) (amount : Int) :
    q.bothTests resource amount = q.singleTest resource amount := by
  rw [bothTests]
  cases hfirst : q.firstTest resource amount with
  | some reply => rw [singleTest_of_firstTest hfirst]
  | none => rw [singleTest_of_passed rfl (firstTest_eq_none hfirst)]

end Quota

/-- A call is served by a single test. -/
def oneTest : Serving := fun q c =>
  match c.stage with
  | .waiting | .passed =>
    ((q.singleTest c.resource c.amount).1, .answered (q.singleTest c.resource c.amount).2)
  | .answered reply => (q, .answered reply)

/-! ## The sections that decide -/

/-- How far a call would have come without the first test. -/
def CallStage.forget : CallStage → CallStage
  | .waiting | .passed => .waiting
  | .answered reply => .answered reply

/-- The call as it would be without the first test. -/
def DeskCall.forget (c : DeskCall) : DeskCall := { c with stage := c.stage.forget }

namespace Desk

/-- The desk as it would be without the first tests. -/
def forget (d : Desk) : Desk := { d with calls := d.calls.map DeskCall.forget }

/-- Whether a section only lets a call pass the first test. -/
def passes (d : Desk) : DeskEvent → Bool
  | .serve i =>
    match d.calls[i]? with
    | none => false
    | some c => (twoTests d.quota c).2 = .passed
  | .call _ _ | .commit _ | .rollback _ | .drop _ => false

/-- The events of a run without the sections that only let a call pass. -/
def decisive (d : Desk) : List DeskEvent → List DeskEvent
  | [] => []
  | e :: es =>
    match d.step? twoTests e with
    | none => []
    | some d' => if d.passes e then d'.decisive es else e :: d'.decisive es

/-- The answer to the call at a place, if it has one. -/
def answerAt (d : Desk) (i : Nat) : Option Reply :=
  match d.calls[i]? with
  | none => none
  | some c =>
    match c.stage with
    | .waiting | .passed => none
    | .answered reply => some reply

variable {d d' : Desk} {e : DeskEvent} {es : List DeskEvent} {i : Nat}

theorem decisive_cons (h : d.step? twoTests e = some d') :
    d.decisive (e :: es) = (if d.passes e then [] else [e]) ++ d'.decisive es := by
  rw [decisive, h]
  dsimp only
  split_ifs
  · rfl
  · rfl

theorem decisive_append {es es' : List DeskEvent} (h : d.run? twoTests es = some d') :
    d.decisive (es ++ es') = d.decisive es ++ d'.decisive es' := by
  induction es generalizing d with
  | nil =>
      cases h
      rfl
  | cons e es ih =>
      obtain ⟨d₁, hstep, hrun⟩ := run?_cons_eq_some.1 h
      rw [List.cons_append, decisive_cons hstep, decisive_cons hstep, ih hrun, List.append_assoc]

theorem decisive_sublist (d : Desk) (es : List DeskEvent) : (d.decisive es).Sublist es := by
  induction es generalizing d with
  | nil => exact List.Sublist.refl []
  | cons e es ih =>
      rw [decisive]
      split
      · exact List.nil_sublist _
      · next d' _ =>
          split_ifs
          · exact (ih d').cons e
          · exact (ih d').cons_cons e

/-! ## One event -/

/-- The calls that have passed the first test did so under the same ceiling. -/
def Passed (d : Desk) : Prop :=
  ∀ (i : Nat) (c : DeskCall), d.calls[i]? = some c → c.stage = .passed →
    ∃ q : Quota, d.quota.max = q.max ∧ q.precheck c.resource c.amount = .ok ()

theorem passed_start (max : Int) : (start max).Passed := by
  intro i c hc
  simp [start] at hc

theorem Passed.of_calls (h : d.Passed) (hcalls : d'.calls = d.calls)
    (hmax : d'.quota.max = d.quota.max) : d'.Passed := by
  intro i c hc hstage
  rw [hcalls] at hc
  rw [hmax]
  exact h i c hc hstage

theorem max_twoTests (q : Quota) {c : DeskCall} (hwaits : ∀ reply, c.stage ≠ .answered reply) :
    (twoTests q c).1.max = q.max := by
  obtain ⟨reply, -, htests⟩ | ⟨-, -, htests⟩ | ⟨-, -, htests⟩ := twoTests_cases q c hwaits
  · rw [htests]
  · rw [htests]
  · rw [htests]

theorem Passed.step (h : d.Passed) (hstep : d.step? twoTests e = some d') : d'.Passed := by
  cases e with
  | call resource amount =>
      cases hstep
      intro i c hc hstage
      rw [List.getElem?_append] at hc
      split_ifs at hc
      · exact h i c hc hstage
      · rw [List.getElem?_singleton] at hc
        split_ifs at hc
        cases hc
        cases hstage
  | serve i =>
      obtain ⟨c, hc, hwaits, rfl⟩ := step?_serve_eq_some.1 hstep
      intro j b hb hstage
      have hmax : (d.serve twoTests i c).quota.max = d.quota.max := max_twoTests d.quota hwaits
      rw [hmax]
      rw [serve, List.getElem?_set] at hb
      split_ifs at hb
      · -- the call that is served passes now, if it has not been answered
        cases hb
        obtain ⟨reply, -, htests⟩ | ⟨-, hpassed, -⟩ | ⟨-, -, htests⟩ :=
          twoTests_cases d.quota c hwaits
        · simp [htests] at hstage
        · exact ⟨d.quota, rfl, hpassed⟩
        · simp [htests] at hstage
      · exact h j b hb hstage
  | commit i =>
      obtain ⟨k, -, -, ⟨-, rfl⟩ | ⟨-, rfl⟩⟩ := step?_commit_eq_some hstep
      · exact h
      · exact h.of_calls rfl (Quota.max_commit _ _)
  | rollback i =>
      obtain ⟨k, -, -, ⟨-, rfl⟩ | ⟨-, rfl⟩⟩ := step?_rollback_eq_some hstep
      · exact h
      · exact h.of_calls rfl rfl
  | drop i =>
      obtain ⟨k, -, -, rfl⟩ := step?_drop_eq_some hstep
      refine h.of_calls rfl ?_
      dsimp only
      split_ifs
      · rfl
      · rfl

/-- A call that is answered is told what the single test would tell it. -/
theorem oneTest_forget {q : Quota} {c : DeskCall} (hwaits : ∀ reply, c.stage ≠ .answered reply)
    (hpassed : c.stage = .passed →
      ∃ q₀ : Quota, q.max = q₀.max ∧ q₀.precheck c.resource c.amount = .ok ())
    (hanswered : (twoTests q c).2 ≠ .passed) : oneTest q c.forget = twoTests q c := by
  cases hstage : c.stage with
  | waiting =>
      simp only [oneTest, DeskCall.forget, CallStage.forget, hstage, twoTests] at hanswered ⊢
      cases hfirst : q.firstTest c.resource c.amount with
      | some reply => rw [Quota.singleTest_of_firstTest hfirst]
      | none => simp [hfirst] at hanswered
  | passed =>
      obtain ⟨q₀, hmax, hpre⟩ := hpassed hstage
      simp only [oneTest, DeskCall.forget, CallStage.forget, hstage, twoTests]
      rw [Quota.singleTest_of_passed hmax hpre]
  | answered reply => exact absurd hstage (hwaits reply)

theorem waits_forget {c : DeskCall} (hwaits : ∀ reply, c.stage ≠ .answered reply) (reply : Reply) :
    c.forget.stage ≠ .answered reply := by
  cases hstage : c.stage with
  | waiting => simp [DeskCall.forget, CallStage.forget, hstage]
  | passed => simp [DeskCall.forget, CallStage.forget, hstage]
  | answered reply => exact absurd hstage (hwaits reply)

theorem forget_use? (d : Desk) (i : Nat) (f : Quota → Ticket → Quota × Ticket) :
    d.forget.use? i f = (d.use? i f).map forget := by
  simp only [use?, forget]
  cases d.tickets[i]? with
  | none => rfl
  | some k =>
      dsimp only
      split_ifs
      · rfl
      · rfl

/-- A section that only lets a call pass makes no difference. -/
theorem forget_of_passes (hstep : d.step? twoTests e = some d') (hpasses : d.passes e = true) :
    d'.forget = d.forget := by
  cases e with
  | call resource amount => cases hpasses
  | serve i =>
      obtain ⟨c, hc, hwaits, rfl⟩ := step?_serve_eq_some.1 hstep
      have hpassed : (twoTests d.quota c).2 = .passed := by simpa [passes, hc] using hpasses
      obtain ⟨reply, -, htests⟩ | ⟨hwaiting, -, htests⟩ | ⟨-, -, htests⟩ :=
        twoTests_cases d.quota c hwaits
      · simp [htests] at hpassed
      · have hsame : (d.calls.set i { c with stage := .passed }).map DeskCall.forget =
            d.calls.map DeskCall.forget := by
          rw [List.map_set]
          apply set_of_get
          simp [hc, DeskCall.forget, CallStage.forget, hwaiting]
        simp [forget, serve, htests, hsame]
      · simp [htests] at hpassed
  | commit i => cases hpasses
  | rollback i => cases hpasses
  | drop i => cases hpasses

/-- The section that answers a call is the single section that would serve it at once. -/
theorem forget_serve {c : DeskCall} (hone : oneTest d.quota c.forget = twoTests d.quota c)
    (hwaits : ∀ reply, c.stage ≠ .answered reply) (hanswered : (twoTests d.quota c).2 ≠ .passed) :
    d.forget.serve oneTest i c.forget = (d.serve twoTests i c).forget := by
  obtain ⟨reply, hreply⟩ : ∃ reply, (twoTests d.quota c).2 = .answered reply := by
    obtain ⟨reply, -, htests⟩ | ⟨-, -, htests⟩ | ⟨-, -, htests⟩ := twoTests_cases d.quota c hwaits
    · exact ⟨reply, by rw [htests]⟩
    · exact absurd (by rw [htests]) hanswered
    · exact ⟨.opened, by rw [htests]⟩
  have hquota : d.forget.quota = d.quota := rfl
  simp only [serve, hquota, hone]
  simp [forget, hreply, List.map_set, DeskCall.forget, CallStage.forget]

/-- Any other event is the same when calls are served at once. -/
theorem Passed.forget_step (h : d.Passed) (hstep : d.step? twoTests e = some d')
    (hdecides : d.passes e = false) : d.forget.step? oneTest e = some d'.forget := by
  cases e with
  | call resource amount =>
      cases hstep
      simp [step?, forget, DeskCall.forget, CallStage.forget]
  | serve i =>
      obtain ⟨c, hc, hwaits, rfl⟩ := step?_serve_eq_some.1 hstep
      have hanswered : (twoTests d.quota c).2 ≠ .passed := by
        simpa [passes, hc] using hdecides
      have hone := oneTest_forget hwaits (h i c hc) hanswered
      rw [← forget_serve hone hwaits hanswered]
      exact step?_serve_eq_some.2 ⟨c.forget, by simp [forget, hc], waits_forget hwaits, rfl⟩
  | commit i =>
      rw [step?] at hstep
      rw [step?, forget_use?, hstep, Option.map_some]
  | rollback i =>
      rw [step?] at hstep
      rw [step?, forget_use?, hstep, Option.map_some]
  | drop i =>
      rw [step?] at hstep
      rw [step?, forget_use?, hstep, Option.map_some]

/-! ## Runs -/

theorem Passed.forget_run (h : d.Passed) (hrun : d.run? twoTests es = some d') :
    d.forget.run? oneTest (d.decisive es) = some d'.forget := by
  induction es generalizing d with
  | nil =>
      cases hrun
      rfl
  | cons e es ih =>
      obtain ⟨d₁, hstep, hrun⟩ := run?_cons_eq_some.1 hrun
      rw [decisive_cons hstep]
      cases hpasses : d.passes e with
      | true =>
          rw [if_pos rfl, List.nil_append, ← forget_of_passes hstep hpasses]
          exact ih (h.step hstep) hrun
      | false =>
          rw [if_neg (by decide), List.singleton_append,
            run?_cons (h.forget_step hstep hpasses)]
          exact ih (h.step hstep) hrun

theorem answerAt_forget (d : Desk) (i : Nat) : d.forget.answerAt i = d.answerAt i := by
  simp only [answerAt, forget, List.getElem?_map]
  cases d.calls[i]? with
  | none => rfl
  | some c =>
      obtain ⟨resource, amount, stage⟩ := c
      cases stage with
      | waiting => rfl
      | passed => rfl
      | answered reply => rfl

theorem answerAt_of_calls (hcalls : d'.calls = d.calls) (i : Nat) :
    d'.answerAt i = d.answerAt i := by
  rw [answerAt, hcalls, answerAt]

theorem calls_of_use? {f : Quota → Ticket → Quota × Ticket} (h : d.use? i f = some d') :
    d'.calls = d.calls := by
  obtain ⟨k, -, -, rfl⟩ := use?_eq_some.1 h
  rfl

/-- Only a section of the call itself answers it. -/
theorem answerAt_step (hstep : d.step? twoTests e = some d') (hother : e ≠ .serve i) :
    d'.answerAt i = d.answerAt i := by
  cases e with
  | call resource amount =>
      cases hstep
      simp only [answerAt, List.getElem?_append, List.getElem?_singleton]
      split_ifs with hi hlast
      · rfl
      · rw [List.getElem?_eq_none (by omega)]
      · rw [List.getElem?_eq_none (by omega)]
  | serve j =>
      obtain ⟨c, -, -, rfl⟩ := step?_serve_eq_some.1 hstep
      have hj : j ≠ i := fun hj => hother (by rw [hj])
      rw [answerAt, answerAt, serve, List.getElem?_set_ne hj]
  | commit j =>
      rw [step?] at hstep
      exact answerAt_of_calls (calls_of_use? hstep) i
  | rollback j =>
      rw [step?] at hstep
      exact answerAt_of_calls (calls_of_use? hstep) i
  | drop j =>
      rw [step?] at hstep
      exact answerAt_of_calls (calls_of_use? hstep) i

/-- A call that is served has no answer before, and has one afterwards unless it only passes. -/
theorem answerAt_serve (hstep : d.step? twoTests (.serve i) = some d') :
    d.answerAt i = none ∧ (d'.answerAt i).isSome = !d.passes (.serve i) := by
  obtain ⟨c, hc, hwaits, rfl⟩ := step?_serve_eq_some.1 hstep
  constructor
  · rw [answerAt, hc]
    cases hstage : c.stage with
    | waiting => simp [hstage]
    | passed => simp [hstage]
    | answered reply => exact absurd hstage (hwaits reply)
  · have hget : (d.serve twoTests i c).calls[i]? =
        some { c with stage := (twoTests d.quota c).2 } := by
      rw [serve, List.getElem?_set_self (List.getElem?_eq_some_iff.1 hc).1]
    simp only [answerAt, hget, passes, hc]
    obtain ⟨reply, -, htests⟩ | ⟨-, -, htests⟩ | ⟨-, -, htests⟩ := twoTests_cases d.quota c hwaits
    · simp [htests]
    · simp [htests]
    · simp [htests]

/-- A call is answered by a section of its own that decides, and by nothing else. -/
theorem count_step (hstep : d.step? twoTests e = some d') (i : Nat) :
    (if d.passes e then [] else [e]).count (.serve i) + (d.answerAt i).isSome.toNat =
      (d'.answerAt i).isSome.toNat := by
  by_cases hserve : e = .serve i
  · subst hserve
    obtain ⟨hnone, hanswered⟩ := answerAt_serve hstep
    rw [hnone, hanswered]
    cases d.passes (.serve i) with
    | true => rfl
    | false => simp
  · rw [answerAt_step hstep hserve]
    cases d.passes e with
    | true => simp
    | false => simp [hserve]

theorem count_decisive (hrun : d.run? twoTests es = some d') (i : Nat) :
    (d.decisive es).count (.serve i) + (d.answerAt i).isSome.toNat =
      (d'.answerAt i).isSome.toNat := by
  induction es generalizing d with
  | nil =>
      cases hrun
      simp [decisive]
  | cons e es ih =>
      obtain ⟨d₁, hstep, hrun⟩ := run?_cons_eq_some.1 hrun
      rw [decisive_cons hstep, List.count_append]
      have hone := count_step hstep i
      have hrest := ih hrun
      omega

/-! ## The statement -/

/-- Whatever the order of the sections of all calls, commits, rollbacks and drops: without the
sections that only let a call pass the first test, the same run is one in which every call is served
at once, by a single test under the lock. It leaves the same quota and the same handles, and each
call has the same answer. What is left for a call is one of its own sections, namely the one after
which it is answered: none as long as it has no answer, and exactly one from then on. And without
anything in between, the two tests are the single one. -/
theorem double_check_atomic {max : Int} (h : (start max).run? twoTests es = some d) :
    (∃ d₁, (start max).run? oneTest ((start max).decisive es) = some d₁ ∧
      d₁.quota = d.quota ∧ d₁.tickets = d.tickets ∧ ∀ i, d₁.answerAt i = d.answerAt i) ∧
    ((start max).decisive es).Sublist es ∧
    (∀ i, ((start max).decisive es).count (.serve i) = if (d.answerAt i).isSome then 1 else 0) ∧
    (∀ es₁ es₂, es = es₁ ++ es₂ → ∃ d₁, (start max).run? twoTests es₁ = some d₁ ∧
      (start max).decisive es = (start max).decisive es₁ ++ d₁.decisive es₂) ∧
    ∀ (q : Quota) (resource : String) (amount : Int),
      q.bothTests resource amount = q.singleTest resource amount ∧
        q.reserve resource amount = q.reserveOnce resource amount := by
  refine ⟨⟨d.forget, (passed_start max).forget_run h, rfl, rfl, answerAt_forget d⟩,
    decisive_sublist _ _, fun i => ?_, fun es₁ es₂ hes => ?_, fun q resource amount =>
      ⟨q.bothTests_eq_singleTest resource amount, q.reserve_eq_reserveOnce resource amount⟩⟩
  · have hcount := count_decisive h i
    have hstart : (start max).answerAt i = none := by simp [answerAt, start]
    rw [hstart] at hcount
    cases hanswer : d.answerAt i with
    | none => simpa [hanswer] using hcount
    | some reply => simpa [hanswer] using hcount
  · subst hes
    obtain ⟨d₁, hes₁, -⟩ := run?_append.1 h
    exact ⟨d₁, hes₁, decisive_append hes₁⟩

/-- Both calls pass the first test before the one that came later is opened. -/
def overtaken : List DeskEvent :=
  [.call "a" 2, .call "b" 2, .serve 0, .serve 1, .serve 1, .commit 0, .serve 0]

/-- The other one is refused, as if it had only then been looked at. -/
theorem double_check_atomic_overtaken :
    ∃ d d₁, (start 3).run? twoTests overtaken = some d ∧
      (start 3).run? oneTest
        [.call "a" 2, .call "b" 2, .serve 1, .commit 0, .serve 0] = some d₁ ∧
      d₁.answerAt 1 = some .opened ∧ d₁.answerAt 0 = some (.refused (.exceeded "a" 2 2 3)) ∧
      d₁.quota = d.quota := by
  have hrun : ∃ d, (start 3).run? twoTests overtaken = some d ∧ d.answerAt 1 = some .opened ∧
      d.answerAt 0 = some (.refused (.exceeded "a" 2 2 3)) := ⟨_, rfl, rfl, rfl⟩
  have hdecisive : (start 3).decisive overtaken =
      [.call "a" 2, .call "b" 2, .serve 1, .commit 0, .serve 0] := rfl
  obtain ⟨d, hd, hfirst, hsecond⟩ := hrun
  obtain ⟨⟨d₁, hd₁, hquota, -, hanswers⟩, -⟩ := double_check_atomic hd
  rw [hdecisive] at hd₁
  exact ⟨d, d₁, hd, hd₁, (hanswers 1).trans hfirst, (hanswers 0).trans hsecond, hquota⟩

end Desk

end IngressTls
