import IngressTls.Proofs.Manager.Outstanding

set_option autoImplicit false

/-! # The course of an attempt

A worker that has taken a request reads its secret and reserves, orders the certificate, writes the
secret and, if the secret was released during the write, deletes it again. Where the worker stands
tells what it has done since it took the request, call by call; and it ends in one of five ways,
each of which tells what becomes of the reservation. Nothing of this depends on what else happens
meanwhile: only whether the key was released.

Main statements: `Stage.step`, `course_run?` and `Course.run?`.
-/

namespace IngressTls

namespace Service

theorem done_of_answer {α : Type} {result answered : α} {service : Service}
    (h : service.answer result = .ok answered) : service = .done := by
  cases service with
  | done => rfl
  | refused e => cases h
  | lost e => cases h

end Service

namespace Floor

variable {f g f₀ : Floor} {i : Nat} {r : Request} {own es since : List FloorEvent} {e : FloorEvent}

/-! ## Where a worker stands, and how it came there -/

/-- The events of a worker. -/
def ownEvents (i : Nat) (es : List FloorEvent) : List FloorEvent :=
  es.filter fun e => e.worker? = some i

theorem ownEvents_append (i : Nat) (es es' : List FloorEvent) :
    ownEvents i (es ++ es') = ownEvents i es ++ ownEvents i es' := List.filter_append _ _

theorem ownEvents_self (h : e.worker? = some i) : ownEvents i [e] = [e] :=
  List.filter_cons_of_pos (by simpa using h)

theorem ownEvents_other (h : e.worker? ≠ some i) : ownEvents i [e] = [] :=
  List.filter_cons_of_neg (by simpa using h)

/-- What a worker does up to its order: its reading succeeds, and it reserves. -/
def toOrder (i : Nat) : List FloorEvent := [.serve i .done, .resume i]

/-- What a worker does up to its write: it gets a certificate. -/
def toWrite (i : Nat) (c : Certificate) : List FloorEvent := toOrder i ++ [.order i (.ok c)]

/-- What a worker does up to its deletion of what it wrote: the write succeeds. -/
def toWithdrawal (i : Nat) (c : Certificate) : List FloorEvent :=
  toWrite i c ++ [.serve i .done, .resume i]

/-- What a worker has done since it took a request, by where it stands. -/
inductive Stage (i : Nat) (r : Request) : List FloorEvent → Post → Prop where
  | taken : Stage i r [] (.reading r none)
  | read (service : Service) (existing : Option Secret) :
      Stage i r [.serve i service] (.reading r (some (service.answer existing)))
  | reserved : Stage i r (toOrder i) (.ordering r)
  | ordered (c : Certificate) (s : Secret) : Stage i r (toWrite i c) (.storing r s none)
  | written (c : Certificate) (s : Secret) (service : Service) :
      Stage i r (toWrite i c ++ [.serve i service]) (.storing r s (some (service.answer ())))
  | recalled (c : Certificate) : Stage i r (toWithdrawal i c) (.withdrawing r none)
  | cleared (c : Certificate) (service : Service) :
      Stage i r (toWithdrawal i c ++ [.serve i service])
        (.withdrawing r (some (service.answer ())))

theorem Stage.request {p : Post} (h : Stage i r own p) : p.request? = some r := by
  cases h with
  | _ => rfl

/-- What a worker leaves of a quota when it ends: if it was told of a release, it gives back what
the key of its request has acquired. -/
def quotaLeft (f : Floor) (r : Request) (q : Quota) : Quota :=
  if f.manager.isReleased r.key then q.release r.key else q

/-- How a step ends an attempt: what the worker has done since it took the request, up to this
step, and what becomes of the quota. -/
inductive Fate (f g : Floor) (i : Nat) (r : Request) : List FloorEvent → Prop where
  /-- Nothing was reserved, and nothing is written. -/
  | turnedAway (service : Service)
      (unreserved : f.manager.quota.pending.find? r.key = none)
      (quota : g.manager.quota = f.quotaLeft r f.manager.quota) :
      Fate f g i r [.serve i service, .resume i]
  /-- No certificate came, or it was not wanted any more. The reservation is rolled back, and
  nothing is written. -/
  | undelivered (answer : Except AuthorityError Certificate)
      (why : (∃ e, answer = .error e) ∨ f.manager.isReleased r.key = true)
      (reserved : f.manager.quota.pending.find? r.key = some (r.domains.size : Int))
      (quota : g.manager.quota = f.quotaLeft r (f.manager.quota.rollback r.key)) :
      Fate f g i r (toOrder i ++ [.order i answer])
  /-- The write has failed, and the reservation is rolled back. -/
  | unwritten (c : Certificate) (service : Service) (failed : service ≠ .done)
      (reserved : f.manager.quota.pending.find? r.key = some (r.domains.size : Int))
      (quota : g.manager.quota = f.quotaLeft r (f.manager.quota.rollback r.key)) :
      Fate f g i r (toWrite i c ++ [.serve i service, .resume i])
  /-- The key was released during the write: the reservation has been rolled back, and a deletion
  has been called for. -/
  | withdrawn (c : Certificate) (service : Service) (told : f.manager.isReleased r.key = true)
      (unreserved : f.manager.quota.pending.find? r.key = none)
      (quota : g.manager.quota = f.manager.quota.release r.key) :
      Fate f g i r (toWithdrawal i c ++ [.serve i service, .resume i])
  /-- The write has succeeded, and the reservation is committed. -/
  | stored (c : Certificate) (untold : f.manager.isReleased r.key = false)
      (reserved : f.manager.quota.pending.find? r.key = some (r.domains.size : Int))
      (quota : g.manager.quota = f.manager.quota.commit r.key)
      (acquired : g.manager.quota.acquiredBy r.key = r.domains.size) :
      Fate f g i r (toWrite i c ++ [.serve i .done, .resume i])

/-- A step ends an attempt. -/
structure Concludes (f g : Floor) (i : Nat) (r : Request) (own : List FloorEvent) : Prop where
  /-- The worker looks for another key. -/
  idle : g.post i = .idle
  /-- Nothing is pending for the key. -/
  unreserved : g.manager.quota.pending.find? r.key = none
  /-- How it ends. -/
  fate : Fate f g i r own

theorem concludes_conclude {m : Manager} {result : Except Error Unit} (hs : f.Sound)
    (hi : (f.post i).request? = some r) (hm : Unreserved f.manager m r.key)
    (hfate : Fate f ((f.setManager m).conclude i r result) i r own) :
    Concludes f ((f.setManager m).conclude i r result) i r own := by
  refine ⟨?_, (hs.conclude hi hm result).pending_eq_none fun hbusy => ?_, hfate⟩
  · exact (post_of_posts (ne_ended_of_request hi) rfl i).trans (if_pos rfl)
  · exact ((busy_setPost_end hs.apart hi (p := .idle) rfl r.key).1 hbusy).1 rfl

/-! ## One step -/

/-- A step of a worker with a request leads to its next stage or ends the attempt. -/
theorem Stage.step (hs : f.Sound) (ht : f.Told) (h : Stage i r own (f.post i))
    (hstep : f.step? e = some g) (hi : e.worker? = some i) :
    Stage i r (own ++ [e]) (g.post i) ∨ Concludes f g i r (own ++ [e]) := by
  have hrequest := h.request
  have hne := ne_ended_of_request hrequest
  have hserved : ∀ {f' : Floor} {own' : List FloorEvent} {p : Post},
      f'.posts = (f.setPost i p).posts → Stage i r own' p → Stage i r own' (f'.post i) := by
    intro f' own' p hposts hstage
    rwa [post_of_posts hne hposts, if_pos rfl]
  cases turn_of_step? hstep with
  | began idle awake =>
      cases hi
      rw [idle] at h
      cases h
  | read service reading =>
      cases hi
      rw [reading] at h
      cases h
      exact Or.inl (hserved rfl (.read service _))
  | @wrote _ r' s service storing effect =>
      cases hi
      rw [storing] at h
      cases h with
      | ordered c => exact Or.inl (hserved rfl (.written c s service))
  | @unwritten _ r' s service storing effect =>
      cases hi
      rw [storing] at h
      cases h with
      | ordered c => exact Or.inl (hserved rfl (.written c s service))
  | @withdrew _ r' service withdrawing effect =>
      cases hi
      rw [withdrawing] at h
      cases h with
      | recalled c => exact Or.inl (hserved rfl (.cleared c service))
  | @unwithdrawn _ r' service withdrawing effect =>
      cases hi
      rw [withdrawing] at h
      cases h with
      | recalled c => exact Or.inl (hserved rfl (.cleared c service))
  | @informed _ r' a reading =>
      cases hi
      have hopen : f.manager.quota.pending.find? r.key = none :=
        hs.pending_eq_none_of_unreserved hrequest (by rw [reading]; rfl)
      rw [reading] at h
      cases h with
      | read service existing =>
          rcases Manager.afterRead_cases f.manager r (service.answer existing) with
            ⟨e, hnext⟩ | ⟨existing', q, hread, -, -, hnext⟩
          · right
            rw [hnext, advance_ended]
            exact concludes_conclude hs hrequest (hs.unreserved_self hopen)
              (.turnedAway service hopen (quota_conclude f i r (.error e)))
          · left
            obtain rfl := Service.done_of_answer hread
            rw [post_advance hne, hnext]
            exact .reserved
  | @ordered _ r' a ordering =>
      cases hi
      have hreserved := hs.reserved i r' (by rw [ordering]; rfl)
      rw [ordering] at h
      cases h
      rcases Manager.afterOrder_cases f.manager r a with ⟨result, hnext, why⟩ | ⟨c, rfl, -, hnext⟩
      · right
        rw [hnext, advance_ended]
        have hwhy : (∃ e, a = .error e) ∨ f.manager.isReleased r.key = true :=
          why.imp_left fun ⟨e, he, _⟩ => ⟨e, he⟩
        exact concludes_conclude hs hrequest (hs.unreserved_rollback r)
          (.undelivered a hwhy hreserved
            (quota_conclude (f.setManager (f.manager.rollback r)) i r _))
      · left
        rw [post_advance hne, hnext]
        exact .ordered c _
  | @stored _ r' s a storing =>
      cases hi
      have hreserved := hs.reserved i r' (by rw [storing]; rfl)
      rw [storing] at h
      cases h with
      | written c _ service =>
          rcases Manager.afterStore_cases f.manager r (service.answer ()) with
            ⟨e, hanswer, hnext⟩ | ⟨hanswer, -, hnext⟩ | ⟨hanswer, huntold, hnext⟩
          · right
            have hfailed : service ≠ .done := by
              rintro rfl
              cases hanswer
            rw [hnext, advance_ended, List.append_assoc]
            exact concludes_conclude hs hrequest (hs.unreserved_rollback r)
              (.unwritten c service hfailed hreserved
                (quota_conclude (f.setManager (f.manager.rollback r)) i r _))
          · left
            obtain rfl := Service.done_of_answer hanswer
            rw [post_advance hne, hnext, List.append_assoc]
            exact .recalled c
          · right
            obtain rfl := Service.done_of_answer hanswer
            rw [hnext, advance_ended, List.append_assoc]
            -- the key is in flight no more, so nothing is given back at the end
            have hquota := quota_conclude (f.setManager { f.manager with
              inFlight := f.manager.inFlight.erase r.key
              quota := f.manager.quota.commit r.key }) i r (.ok ())
            rw [if_neg] at hquota
            · refine concludes_conclude hs hrequest (hs.unreserved_commit r)
                (.stored c huntold hreserved hquota ?_)
              rw [hquota]
              exact (Quota.acquiredBy_commit hreserved r.key).trans (if_pos rfl)
            · rw [Bool.not_eq_true, Manager.isReleased_eq_false]
              show (f.manager.inFlight.erase r.key).find? r.key ≠ _
              rw [Table.find?_erase, if_pos rfl]
              exact fun heq => by cases heq
  | @cleared _ r' a withdrawing =>
      cases hi
      have htold := ht i r' _ withdrawing
      have hopen : f.manager.quota.pending.find? r.key = none :=
        hs.pending_eq_none_of_unreserved hrequest (by rw [withdrawing]; rfl)
      rw [withdrawing] at h
      cases h with
      | cleared c service =>
          right
          rw [Manager.afterWithdraw, advance_ended, List.append_assoc]
          refine concludes_conclude hs hrequest (hs.unreserved_self hopen)
            (.withdrawn c service htold hopen ?_)
          exact (quota_conclude f i r (.ok ())).trans (if_pos htold)
  | _ => cases hi

/-! ## From the taking on -/

/-- A worker has taken a request on the way, and has come to where it stands. It was told of the
releases of the key since. -/
structure Course (f₀ : Floor) (es : List FloorEvent) (f : Floor) (i : Nat) (r : Request)
    (since : List FloorEvent) : Prop where
  /-- The worker took the request. -/
  taken : ∃ before a b, es = before ++ .take i :: since ∧ f₀.run? before = some a ∧
    a.step? (.take i) = some b ∧ b.post i = .reading r none
  /-- What it has done since. -/
  stage : Stage i r (ownEvents i since) (f.post i)
  /-- Whether the key was released since. -/
  told : f.manager.isReleased r.key = true ↔ ∃ s : SecretRef, .release s ∈ since ∧ s.key = r.key

theorem Course.busy (h : Course f₀ es f i r since) : f.Busy r.key :=
  ⟨i, keyAt_of_request h.stage.request⟩

theorem course_of_take (hs : f.Sound) (hrun : f₀.run? es = some f)
    (hstep : f.step? (.take i) = some g) (hpost : g.post i = .reading r none) :
    Course f₀ (es ++ [.take i]) g i r [] := by
  refine ⟨⟨es, f, g, rfl, hrun, hstep, hpost⟩, ?_, ?_⟩
  · rw [hpost]
    exact .taken
  · rw [untold_of_take hs hstep hpost]
    refine iff_of_false (by simp) ?_
    rintro ⟨s, hmem, -⟩
    cases hmem

/-- After a step the worker is at the same or the next stage, or the attempt has ended. -/
theorem Course.step (hs : f.Sound) (ht : f.Told) (h : Course f₀ es f i r since)
    (hstep : f.step? e = some g) :
    Course f₀ (es ++ [e]) g i r (since ++ [e]) ∨
      Concludes f g i r (ownEvents i (since ++ [e])) := by
  have hgoes : Stage i r (ownEvents i (since ++ [e])) (g.post i) →
      Course f₀ (es ++ [e]) g i r (since ++ [e]) := by
    intro hstage
    obtain ⟨before, a, b, rfl, hbefore, htake, hpost⟩ := h.taken
    refine ⟨⟨before, a, b, by simp, hbefore, htake, hpost⟩, hstage, ?_⟩
    rw [told_step hs hstep h.busy ⟨i, keyAt_of_request hstage.request⟩, h.told]
    constructor
    · rintro (⟨s, hmem, hkey⟩ | ⟨s, rfl, hkey⟩)
      · exact ⟨s, List.mem_append_left _ hmem, hkey⟩
      · exact ⟨s, List.mem_append_right _ List.mem_cons_self, hkey⟩
    · rintro ⟨s, hmem, hkey⟩
      rcases List.mem_append.1 hmem with hmem | hmem
      · exact Or.inl ⟨s, hmem, hkey⟩
      · exact Or.inr ⟨s, (List.mem_singleton.1 hmem).symm, hkey⟩
  by_cases hi : e.worker? = some i
  · rw [ownEvents_append, ownEvents_self hi] at hgoes ⊢
    exact (h.stage.step hs ht hstep hi).imp_left hgoes
  · rw [ownEvents_append, ownEvents_other hi, List.append_nil, post_step_ne hstep hi] at hgoes
    exact Or.inl (hgoes h.stage)

/-- A worker that issues for a request did so before, or has just taken it. -/
theorem request_step (hstep : f.step? e = some g) (hi : (g.post i).request? = some r) :
    (f.post i).request? = some r ∨ f.post i = .idle ∧ e = .take i ∧ g.post i = .reading r none := by
  have hm := move_of_step? hstep
  obtain ⟨d, hd⟩ := journal_move hm
  have hstride := stride_move hm hd i
  generalize hp : g.post i = p at hstride hi
  cases hstride with
  | stayed same => exact Or.inl (same.symm ▸ hi)
  | started idle stored =>
      cases hi
      exact Or.inr ⟨idle, take_of_reading hstep idle hp, rfl⟩
  | read reading => exact Or.inl (by rw [reading]; exact hi)
  | reserved reading => exact Or.inl (by rw [reading]; exact hi)
  | ordered ordering unreleased => exact Or.inl (by rw [ordering]; exact hi)
  | wrote storing noted => exact Or.inl (by rw [storing]; exact hi)
  | unwritten storing noted => exact Or.inl (by rw [storing]; exact hi)
  | recalled storing released => exact Or.inl (by rw [storing]; exact hi)
  | withdrew withdrawing noted => exact Or.inl (by rw [withdrawing]; exact hi)
  | _ => cases hi

/-- Whoever issues for a request has taken it on the way. -/
theorem course_run? (hs : f₀.Sound) (ht : f₀.Told) (hfree : (f₀.post i).request? = none)
    (hrun : f₀.run? es = some f) (hi : (f.post i).request? = some r) :
    ∃ since, Course f₀ es f i r since := by
  induction es using List.reverseRecOn generalizing f r with
  | nil =>
      cases hrun
      rw [hi] at hfree
      cases hfree
  | append_singleton es e ih =>
      rw [run?_append] at hrun
      obtain ⟨f₁, hbefore, hlast⟩ := Option.bind_eq_some_iff.1 hrun
      obtain ⟨f₂, hstep, heq⟩ := Option.bind_eq_some_iff.1 hlast
      cases heq
      have hs₁ := sound_run? hs hbefore
      rcases request_step hstep hi with hold | ⟨-, rfl, hpost⟩
      · obtain ⟨since, hsince⟩ := ih hbefore hold
        rcases hsince.step hs₁ (ht.run? hs hbefore) hstep with hcourse | hends
        · exact ⟨since ++ [e], hcourse⟩
        · rw [hends.idle] at hi
          cases hi
      · exact ⟨[], course_of_take hs₁ hbefore hstep hpost⟩

/-- An attempt that was under way after the events `es`, at the state `f`, ends within the events
`es'`, which lead to `g`. -/
def EndsWithin (f₀ : Floor) (es : List FloorEvent) (f : Floor) (i : Nat) (r : Request)
    (since es' : List FloorEvent) (g : Floor) : Prop :=
  ∃ way e rest a b, es' = way ++ e :: rest ∧ f.run? way = some a ∧ a.step? e = some b ∧
    b.run? rest = some g ∧ Course f₀ (es ++ way) a i r (since ++ way) ∧
    Concludes a b i r (ownEvents i (since ++ way ++ [e]))

/-- A run goes on with an attempt, or ends it on the way. -/
theorem Course.run? {es' : List FloorEvent} (hs : f.Sound) (ht : f.Told)
    (h : Course f₀ es f i r since) (hrun : f.run? es' = some g) :
    Course f₀ (es ++ es') g i r (since ++ es') ∨ EndsWithin f₀ es f i r since es' g := by
  induction es' generalizing f es since with
  | nil =>
      cases hrun
      rw [List.append_nil, List.append_nil]
      exact Or.inl h
  | cons e es' ih =>
      rw [run?_cons] at hrun
      obtain ⟨f', hstep, hrest⟩ := Option.bind_eq_some_iff.1 hrun
      have hmove := move_of_step? hstep
      rcases h.step hs ht hstep with hgoes | hends
      · rw [List.append_cons es, List.append_cons since]
        refine (ih (hs.move hmove) (ht.move hs hmove) hgoes hrest).imp_right ?_
        rintro ⟨way, e', rest, a, b, rfl, hway, hlast, hafter, hcourse, hends⟩
        refine ⟨e :: way, e', rest, a, b, rfl, ?_, hlast, hafter, ?_, ?_⟩
        · rw [run?_cons, hstep, Option.bind_some, hway]
        · rwa [List.append_cons es, List.append_cons since]
        · rwa [List.append_cons since]
      · right
        refine ⟨[], e, es', f, f', rfl, rfl, hstep, hrest, ?_, ?_⟩
        · rwa [List.append_nil, List.append_nil]
        · rwa [List.append_nil]

end Floor

end IngressTls
