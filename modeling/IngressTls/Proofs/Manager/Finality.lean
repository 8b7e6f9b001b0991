import IngressTls.Proofs.Manager.Retention

set_option autoImplicit false

/-! # A release is final

A release meets the issuance of its key wherever it stands: before a worker has taken the request,
while the worker reads, waits for the certificate or writes, or between two attempts. A request
that is stored is dropped, and a worker is told. A worker that was told starts no write, deletes
what a write under way leaves, and does not try again; a delayed addition that is still to come
hands out a key without a request.

What is asked for after the release is not touched by it: the request stays, however the issuance
ends that was told, until a worker takes it.

Main statement: `release_is_final`.
-/

namespace IngressTls

/-- Two managers agree if all their parts do. -/
theorem Manager.eq_of_parts {m m' : Manager} (hsettings : m.settings = m'.settings)
    (hrequests : m.requests = m'.requests) (hinFlight : m.inFlight = m'.inFlight)
    (hqueue : m.queue = m'.queue) (hrestored : m.restored = m'.restored)
    (hquota : m.quota = m'.quota) : m = m' := by
  cases m
  cases m'
  cases hsettings
  cases hrequests
  cases hinFlight
  cases hqueue
  cases hrestored
  cases hquota
  rfl

namespace Floor

variable {f g : Floor} {k : String}

/-! ## What a worker that was told does -/

/-- A worker starts a write when it gets its certificate and has not been told of a release. -/
theorem storing_step {e : FloorEvent} {i : Nat} {r : Request} {sec : Secret}
    (hstep : f.step? e = some g) (hpost : g.post i = .storing r sec none) :
    f.post i = .storing r sec none ∨
      (f.post i).request? = some r ∧ f.manager.isReleased r.key = false := by
  have hmove := move_of_step? hstep
  obtain ⟨d, hd⟩ := journal_move hmove
  have hstride := stride_move hmove hd i
  rw [hpost] at hstride
  cases hstride with
  | stayed same => exact Or.inl same
  | ordered ordering unreleased => exact Or.inr ⟨by rw [ordering]; rfl, unreleased⟩

/-- A worker that was told, and learns that its write has succeeded, deletes what it wrote. -/
theorem withdrawing_step {e : FloorEvent} {i : Nat} {r : Request} {sec : Secret}
    (hstep : f.step? e = some g) (hpost : f.post i = .storing r sec (some (.ok ())))
    (hreleased : f.manager.isReleased r.key = true) :
    g.post i = f.post i ∨ g.post i = .withdrawing r none := by
  by_cases hi : e.worker? = some i
  · -- the answer of the store is all that the worker waits for
    cases e with
    | resume j =>
        cases hi
        rw [step?, resume?, hpost] at hstep
        cases hstep
        right
        rw [post_advance (by simp [hpost]), Manager.afterStore, if_pos hreleased]
        rfl
    | take j =>
        cases hi
        rw [step?, hpost] at hstep
        cases hstep
    | serve j service =>
        cases hi
        rw [step?, serve?, hpost] at hstep
        cases hstep
    | order j answer =>
        cases hi
        rw [step?, hpost] at hstep
        cases hstep
    | _ => cases hi
  · exact Or.inl (post_step_ne hstep hi)

/-! ## No delayed addition is scheduled -/

/-- Once the requests for a key are recalled, no more additions of the key are scheduled. -/
theorem Recalled.count_timers (h : f.Recalled fun r => r.key = k) (hm : Move f g) :
    g.timers.count k ≤ f.timers.count k := by
  have hconclude : ∀ {m : Manager} {i : Nat} {r : Request} (result : Except Error Unit),
      (r.key = k → m.isReleased r.key = true) →
      ((f.setManager m).conclude i r result).timers.count k ≤ f.timers.count k := by
    intro m i r result htold
    obtain ⟨htimers, -⟩ | ⟨hreleased, htimers, -⟩ := conclude_cases (f.setManager m) i r result
    · rw [htimers]
      exact le_rfl
    · rw [htimers]
      refine le_of_eq (List.count_cons_of_ne ?_)
      -- a worker that was told schedules nothing
      intro hkey
      have hflag := htold hkey
      change m.isReleased r.key = false at hreleased
      rw [hreleased] at hflag
      cases hflag
  cases hm with
  | @failed i r a e reading =>
      have hi : (f.post i).request? = some r := by rw [reading]; rfl
      exact hconclude (m := f.manager) _ (h.told i r hi)
  | @gaveUp i r result standing why =>
      have hi := request_of_standing standing
      exact hconclude (m := f.manager.rollback r) _ (h.told i r hi)
  | @stored i r sec storing unreleased =>
      have hi : (f.post i).request? = some r := by rw [storing]; rfl
      refine hconclude (m := { f.manager with
        inFlight := f.manager.inFlight.erase r.key
        quota := f.manager.quota.commit r.key }) _ fun hkey => ?_
      rw [h.told i r hi hkey] at unreleased
      cases unreleased
  | @cleared i r a withdrawing =>
      have hi : (f.post i).request? = some r := by rw [withdrawing]; rfl
      exact hconclude (m := f.manager) _ (h.told i r hi)
  | rang timer => exact (List.eraseIdx_sublist _ _).count_le k
  | _ => exact le_rfl

/-! ## A key without a request is dropped -/

/-- Taking a key without a request changes the queue only, and the key is nowhere in it then. -/
theorem dropped_of_take (hs : f.Sound) (hnone : f.manager.requests.find? k = none) {i : Nat}
    (hstep : f.step? (.take i) = some g) (htaken : (f.manager.take i).2 = .key k) :
    ∃ q, g = f.setManager { f.manager with queue := q } ∧
      k ∉ q.ready ∧ k ∉ q.dirty ∧ k ∉ q.held := by
  obtain ⟨m, ht⟩ : ∃ m, f.manager.take i = (m, .key k) :=
    ⟨_, Prod.ext rfl htaken⟩
  obtain ⟨hquota, hinFlight⟩ := hs.skip_facts ht
  have hsg := hs.move (move_of_step? hstep)
  have hg : g = f.setManager ((m.startOn k).1.finish k) := by
    cases turn_of_step? hstep with
    | began idle awake =>
        have hstart : m.startOn k = ((m.startOn k).1, none) :=
          Prod.ext rfl (by rw [Manager.startOn, take_requests ht]; exact hnone)
        rw [begin, ht]
        dsimp only
        rw [hstart]
  obtain ⟨q, hq, rfl⟩ := Manager.take_eq ht
  obtain ⟨-, hnew, hheld, -, hdirty⟩ := hs.tidy.take_key hq
  have hmanager : (Manager.startOn { f.manager with queue := q } k).1.finish k =
      { f.manager with queue := q.done k } := by
    refine Manager.eq_of_parts ?_ ?_ ?_ ?_ ?_ hquota
    · exact Manager.finish_settings _ _
    · rw [Manager.finish_requests]
      refine Table.ext_find? fun j => ?_
      show (f.manager.requests.erase k).find? j = _
      rw [Table.find?_erase]
      split
      · next hj => rw [hj, hnone]
      · rfl
    · exact Table.ext_find? hinFlight
    · exact Manager.finish_queue _ _
    · rw [Manager.finish]
      dsimp only
      split
      · rfl
      · rfl
  rw [hmanager] at hg
  have hclean : k ∉ (q.done k).dirty := by
    rw [WorkQueue.done_dirty]
    exact fun hin => ((hdirty k).1 hin).2 rfl
  refine ⟨q.done k, hg, fun hin => ?_, hclean, ?_⟩
  · rw [hg] at hsg
    exact hclean ((hsg.tidy.mem_ready k).1 hin).1
  · rw [WorkQueue.done_held, hheld, List.erase_cons_head]
    exact hnew

/-- A key that was released and has not been asked for since; `delayed` additions of it were
scheduled at the release. -/
structure Final (f : Floor) (k : String) (delayed : Nat) : Prop where
  /-- No request is stored. -/
  unstored : f.manager.requests.find? k = none
  /-- No further addition is scheduled. -/
  unscheduled : f.timers.count k ≤ delayed
  /-- No write is started. -/
  unstarted : ∀ e g i r sec, f.step? e = some g → r.key = k → g.post i = .storing r sec none →
    f.post i = .storing r sec none
  /-- A worker whose write has succeeded does not end before it has asked for the deletion. -/
  withdrawn : ∀ e g i r sec, f.step? e = some g → r.key = k →
    f.post i = .storing r sec (some (.ok ())) → g.post i = f.post i ∨ g.post i = .withdrawing r none
  /-- A delayed addition that is made changes nothing but the queue and the timers. -/
  rings : ∀ place g, f.step? (.ring place) = some g → f.timers[place]? = some k →
    ∃ q, g = { f with
      manager := { f.manager with queue := q }
      timers := f.timers.eraseIdx place }
  /-- A worker that is handed the key drops it. -/
  dropped : ∀ i g, f.step? (.take i) = some g → (f.manager.take i).2 = .key k →
    ∃ q, g = f.setManager { f.manager with queue := q } ∧ k ∉ q.ready ∧ k ∉ q.dirty ∧ k ∉ q.held

theorem Recalled.final (hs : f.Sound) (h : f.Recalled fun r => r.key = k) {delayed : Nat}
    (hdelayed : f.timers.count k ≤ delayed) : f.Final k delayed := by
  have hnone : f.manager.requests.find? k = none := by
    cases hr : f.manager.requests.find? k with
    | none => rfl
    | some r => exact absurd (hs.keyed k r hr) (h.stored k r hr)
  refine ⟨hnone, hdelayed, fun e g i r sec hstep hkey hpost => ?_,
    fun e g i r sec hstep hkey hpost => ?_, fun place g hstep hk => ?_,
    fun i g hstep htaken => dropped_of_take hs hnone hstep htaken⟩
  · rcases storing_step hstep hpost with hold | ⟨hreq, hunreleased⟩
    · exact hold
    · rw [h.told i r hreq hkey] at hunreleased
      cases hunreleased
  · exact withdrawing_step hstep hpost (h.told i r (by rw [hpost]; rfl) hkey)
  · cases turn_of_step? hstep with
    | rang timer =>
        cases hk.symm.trans timer
        exact ⟨_, rfl⟩

/-! ## What is asked for after the release -/

/-- A worker takes a request on the way. -/
def Takes (f : Floor) (es : List FloorEvent) (r : Request) : Prop :=
  ∃ before i after a b, es = before ++ .take i :: after ∧ f.run? before = some a ∧
    a.step? (.take i) = some b ∧ b.post i = .reading r none

theorem Takes.cons {e : FloorEvent} {es : List FloorEvent} {r : Request}
    (hstep : f.step? e = some g) (h : g.Takes es r) : f.Takes (e :: es) r := by
  obtain ⟨before, i, after, a, b, rfl, hrun, htake, hpost⟩ := h
  refine ⟨e :: before, i, after, a, b, rfl, ?_, htake, hpost⟩
  rw [run?_cons, hstep, Option.bind_some, hrun]

/-- Of several requests for a key the last one is stored. -/
theorem Manager.find?_obtainAll (m : Manager) (rs : List Request) (k : String) :
    (m.obtainAll rs).requests.find? k =
      (rs.reverse.find? fun r => r.key = k).or (m.requests.find? k) := by
  induction rs generalizing m with
  | nil => rfl
  | cons r rs ih =>
      show ((m.obtain r).obtainAll rs).requests.find? k = _
      rw [ih, Manager.obtain_requests, List.reverse_cons, List.find?_append]
      by_cases hk : k = r.key
      · simp [hk]
      · have hk' : ¬ r.key = k := fun heq => hk heq.symm
        simp [hk, hk']

/-- A worker without a key that reads has just been handed one. -/
theorem take_of_reading {e : FloorEvent} {i : Nat} {r : Request}
    {a : Option (Except Error (Option Secret))} (hstep : f.step? e = some g)
    (hidle : f.post i = .idle) (hpost : g.post i = .reading r a) : e = .take i := by
  by_cases hi : e.worker? = some i
  · exact (take_of_free hstep hi (by rw [hidle]; rfl)).1
  · rw [post_step_ne hstep hi, hidle] at hpost
    cases hpost

/-- A scan that asks for nothing for a key leaves its stored request. -/
theorem requests_renew {threshold : Int} {now : Instant} {listing : List Secret} {d : List Deed}
    (hd : (f.renew threshold now listing).journal = d ++ f.journal)
    (hquiet : ∀ x ∈ d, ¬ x.IsFor k) :
    (f.renew threshold now listing).manager.requests.find? k = f.manager.requests.find? k := by
  have heq : (listing.filterMap (f.manager.due? threshold now)).map
      (fun b => Deed.renewed b.toRequest) = d.reverse := by
    rw [← (List.append_left_inj f.journal).1 hd, List.reverse_reverse]
  show (f.manager.afterRenewalListing threshold now (.ok listing)).1.requests.find? k = _
  rw [Manager.afterRenewalListing_fst, Manager.find?_obtainAll, List.find?_eq_none.2]
  · rfl
  · -- what the scan asks for is for other keys
    intro r' hr'
    obtain ⟨b, hb, rfl⟩ := List.mem_map.1 (List.mem_reverse.1 hr')
    have hin : Deed.renewed b.toRequest ∈ d := by
      rw [← List.mem_reverse, ← heq]
      exact List.mem_map_of_mem hb
    have hother : b.toRequest.key ≠ k := hquiet _ hin
    simpa using hother

/-- A request stays stored until a worker takes it, unless its key is asked for or released. -/
theorem stored_move {r : Request} {d : List Deed} (hm : Move f g)
    (hd : g.journal = d ++ f.journal) (hquiet : ∀ x ∈ d, ¬ x.IsFor k)
    (h : f.manager.requests.find? k = some r) :
    g.manager.requests.find? k = some r ∨
      ∃ i, f.post i = .idle ∧ g.post i = .reading r none := by
  have hconclude : ∀ {m : Manager} {i : Nat} {r' : Request} (result : Except Error Unit),
      m.requests = f.manager.requests →
      ((f.setManager m).conclude i r' result).manager.requests.find? k = some r := by
    intro m i r' result hrequests
    obtain ⟨-, heq⟩ | ⟨-, -, heq⟩ := conclude_cases (f.setManager m) i r' result
    · rw [heq]
      show m.requests.find? k = some r
      rw [hrequests, h]
    · rw [heq]
      show (if m.requests.has r'.key then m.requests else m.requests.insert r'.key r').find? k = _
      rw [hrequests]
      split
      · exact h
      · next hfree =>
          -- the request that is stored again is for another key
          have hne : k ≠ r'.key := by
            rintro rfl
            rw [Table.has, h] at hfree
            exact hfree rfl
          rw [Table.find?_insert, if_neg hne, h]
  cases hm with
  | waited idle taken =>
      rw [← take_requests taken] at h
      exact Or.inl h
  | left idle taken =>
      rw [← take_requests taken] at h
      exact Or.inl h
  | @skipped i m j idle taken none =>
      have hne : k ≠ j := by
        rintro rfl
        rw [none] at h
        cases h
      left
      show ((m.startOn j).1.finish j).requests.find? k = some r
      rw [Manager.finish_requests]
      show (m.requests.erase j).find? k = Option.some r
      rw [take_requests taken, Table.find?_erase, if_neg hne, h]
  | @started i m j r' idle taken some =>
      by_cases hk : k = j
      · subst hk
        rw [some] at h
        cases h
        exact Or.inr ⟨i, idle, (post_of_posts (p := .reading r .none) (ne_ended_of_idle idle) rfl
          i).trans (if_pos rfl)⟩
      · left
        show (m.requests.erase j).find? k = Option.some r
        rw [take_requests taken, Table.find?_erase, if_neg hk, h]
  | failed e reading => exact Or.inl (hconclude (m := f.manager) _ rfl)
  | @gaveUp i r' result standing why =>
      exact Or.inl (hconclude (m := f.manager.rollback r') _ rfl)
  | @stored i r' sec storing unreleased =>
      exact Or.inl (hconclude (m := { f.manager with
        inFlight := f.manager.inFlight.erase r'.key
        quota := f.manager.quota.commit r'.key }) _ rfl)
  | cleared withdrawing => exact Or.inl (hconclude (m := f.manager) _ rfl)
  | renewed threshold now scan => exact Or.inl ((requests_renew hd hquiet).trans h)
  | asked r' =>
      have heq : d = [.asked r'] := (List.append_left_inj f.journal).1 hd.symm
      have hne : k ≠ r'.key := fun hk => hquiet (.asked r') (by simp [heq]) hk.symm
      left
      show (f.manager.obtain r').requests.find? k = some r
      rw [Manager.obtain_requests, if_neg hne, h]
  | released t =>
      have heq : d = [.released t] := (List.append_left_inj f.journal).1 hd.symm
      have hne : k ≠ t.key := fun hk => hquiet (.released t) (by simp [heq]) hk.symm
      have hrequests : (f.manager.release t).requests = f.manager.requests.erase t.key := by
        obtain ⟨-, heq⟩ | ⟨-, heq⟩ := Manager.release_cases f.manager t
        · rw [heq]
        · rw [heq]
      left
      show (f.manager.release t).requests.find? k = some r
      rw [hrequests, Table.find?_erase, if_neg hne, h]
  | _ => exact Or.inl h

/-- A request stays stored until a worker takes it, as long as its key is neither asked for nor
released. -/
theorem stored_run? {es : List FloorEvent} {r : Request} {d : List Deed} (hs : f.Sound)
    (hrun : f.run? es = some g) (hd : g.journal = d ++ f.journal)
    (hquiet : ∀ x ∈ d, ¬ x.IsFor k) (h : f.manager.requests.find? k = some r) :
    g.manager.requests.find? k = some r ∨ f.Takes es r := by
  induction es generalizing f d with
  | nil =>
      cases hrun
      exact Or.inl h
  | cons e es ih =>
      obtain ⟨f', d₁, d₂, hstep, hrest, h₁, h₂, rfl⟩ := run?_split hrun hd
      have hmove := move_of_step? hstep
      have hfirst := stored_move hmove h₁ (fun x hx => hquiet x (List.mem_append_right _ hx)) h
      rcases hfirst with hstays | ⟨i, hidle, hpost⟩
      · have hquiet' : ∀ x ∈ d₂, ¬ x.IsFor k := fun x hx => hquiet x (List.mem_append_left _ hx)
        exact (ih (hs.move hmove) hrest h₂ hquiet' hstays).imp_right fun h => h.cons hstep
      · obtain rfl := take_of_reading hstep hidle hpost
        exact Or.inr ⟨[], i, es, f, f', rfl, rfl, hstep, hpost⟩

/-- What a step asks for last is stored. -/
theorem stored_of_newest {r : Request} {d : List Deed} (hcurrent : g.Current)
    (hs : g.Sound) (hm : Move f g) (hd : g.journal = d ++ f.journal) (h : Newest r d) :
    g.manager.requests.find? r.key = some r := by
  obtain ⟨x, hx, hasks⟩ := h.asked
  have hhas : ∃ r', g.manager.requests.find? r.key = some r' := by
    rcases isFor_move hm hd with hneutral | ⟨r', rfl, hg⟩ | ⟨t, rfl, -⟩ | ⟨rs, rfl, hg, -⟩
    · exact absurd hasks.isFor (hneutral x hx r.key)
    · cases List.mem_singleton.1 hx
      rcases hasks with heq | heq
      · cases heq
        exact ⟨r, by rw [hg, Manager.obtain_requests, if_pos rfl]⟩
      · cases heq
    · cases List.mem_singleton.1 hx
      rcases hasks with heq | heq
      · cases heq
      · cases heq
    · obtain ⟨r', hr', rfl⟩ := List.mem_map.1 (List.mem_reverse.1 hx)
      rcases hasks with heq | heq
      · cases heq
      · cases heq
        rw [hg, Manager.find?_obtainAll]
        cases hfind : rs.reverse.find? fun r' => r'.key = r.key with
        | none => simpa using List.find?_eq_none.1 hfind r (List.mem_reverse.2 hr')
        | some r' => exact ⟨r', rfl⟩
  -- what is stored is the newest, and there is only one such
  obtain ⟨r', hstored⟩ := hhas
  have hnewest : Newest r g.journal := by
    rw [hd]
    exact Since.before h f.journal
  have heq := hnewest.unique (hcurrent.stored r.key r' hstored) (hs.keyed r.key r' hstored)
  rw [hstored, heq]

/-- What a worker takes on the way is the newest request for its key. -/
theorem Takes.newest {es : List FloorEvent} {r : Request} {d : List Deed} (hcurrent : f.Current)
    (hs : f.Sound) (hrun : f.run? es = some g) (hd : g.journal = d ++ f.journal)
    (h : f.Takes es r) : ∃ recent d', d = recent ++ d' ∧ Newest r (d' ++ f.journal) := by
  obtain ⟨before, i, after, a, b, rfl, hbefore, htake, hpost⟩ := h
  obtain ⟨k, hstored⟩ := (stored_of_take htake hpost).2
  have hnewest := (hcurrent.run? hs hbefore).stored k r hstored
  obtain ⟨d', hd'⟩ := journal_run? hbefore
  rw [run?_append, hbefore, Option.bind_some] at hrun
  obtain ⟨recent, hrecent⟩ := journal_run? hrun
  exact ⟨recent, d', journal_append hd hd' hrecent, hd' ▸ hnewest⟩

/-! ## Released -/

/-- A secret is released, and the run goes on. If nobody asks for it again then its request is
withdrawn for good: none is stored or scheduled, no write of it is started, one that was under way
is undone, and a delayed addition comes to nothing. If somebody asks for it again, and it is
neither asked for nor released after that, then the new request is the next one that a worker takes
for the key, and until then it is stored. -/
theorem release_is_final {settings : ManagerSettings} {max : Int}
    {listing : Except Error (List Secret)} {shelf : Snapshot Secret} {es es' : List FloorEvent}
    {f₀ f₁ f : Floor} {s : SecretRef} {d : List Deed}
    (hreach : (start settings max listing shelf).run? es = some f₀)
    (hrelease : f₀.step? (.release s) = some f₁) (hrun : f₁.run? es' = some f)
    (hd : f.journal = d ++ f₁.journal) :
    ((∀ x ∈ d, Unasking (fun r => r.key = s.key) x) → f.Final s.key (f₁.timers.count s.key)) ∧
      ∀ before e after a b d₁ d₂ r, es' = before ++ e :: after → f₁.run? before = some a →
        a.step? e = some b → b.journal = d₁ ++ a.journal → Newest r d₁ → r.key = s.key →
        f.journal = d₂ ++ b.journal → (∀ x ∈ d₂, ¬ x.IsFor s.key) →
        (f.manager.requests.find? s.key = some r ∨ b.Takes after r) ∧
          ∀ r', r'.key = s.key → b.Takes after r' → r' = r := by
  have hstart := sound_start settings max listing shelf
  have hs₀ : f₀.Sound := sound_run? hstart hreach
  have hcurrent₀ : f₀.Current := (current_start settings max listing shelf).run? hstart hreach
  have hmove := move_of_step? hrelease
  have hs₁ : f₁.Sound := hs₀.move hmove
  have hcurrent₁ : f₁.Current := hcurrent₀.move hs₀ hmove
  constructor
  · intro hasks
    have hrecalled : f₁.Recalled fun r => r.key = s.key := by
      cases hrelease
      exact (hs₀.recalled_release s).congr rfl rfl fun _ _ hr => hr
    have hend := run?_induction
      (P := fun g => g.Recalled (fun r => r.key = s.key) ∧
        g.timers.count s.key ≤ f₁.timers.count s.key)
      (Q := Unasking fun r => r.key = s.key)
      (fun hsa ha hm hx hall => ⟨ha.1.move hsa hm hx hall, (ha.1.count_timers hm).trans ha.2⟩)
      hs₁ ⟨hrecalled, le_rfl⟩ hrun hd hasks
    exact hend.1.final (sound_run? hs₁ hrun) hend.2
  · rintro before e after a b d₁ d₂ r rfl hbefore hstep h₁ hnewest hkey h₂ hquiet
    rw [run?_append, hbefore, Option.bind_some, run?_cons, hstep, Option.bind_some] at hrun
    have hsa : a.Sound := sound_run? hs₁ hbefore
    have hmove := move_of_step? hstep
    have hsb : b.Sound := hsa.move hmove
    have hcurrent : b.Current := (hcurrent₁.run? hs₁ hbefore).move hsa hmove
    have hstored := stored_of_newest hcurrent hsb hmove h₁ hnewest
    rw [hkey] at hstored
    refine ⟨stored_run? hsb hrun h₂ hquiet hstored, fun r' hkey' htakes => ?_⟩
    obtain ⟨recent, d', rfl, htaken⟩ := htakes.newest hcurrent hsb hrun h₂
    have hasked : Newest r (d' ++ b.journal) := by
      rw [h₁]
      refine (Since.before hnewest a.journal).append fun x hx => ?_
      rw [hkey]
      exact hquiet x (List.mem_append_right _ hx)
    exact hasked.unique htaken (hkey'.trans hkey.symm)

/-- A worker waits for the certificate of a host. -/
def waitingForCertificate : List FloorEvent :=
  [.obtain (requestFor "old.com"), .take 0, .serve 0 .done, .resume 0]

/-- The secret is released while the worker waits, and the authority asks for patience: the worker
does not try again. If another host is asked for meanwhile, that is what a worker takes next. -/
theorem release_is_final_whileOrdering :
    ∃ f₀ f₁ f b g, small.run? waitingForCertificate = some f₀ ∧
      f₀.step? (.release (requestFor "old.com").target) = some f₁ ∧
      f₁.run? [.order 0 (.error .pending)] = some f ∧ f.Final (requestFor "old.com").key 0 ∧
      f₁.step? (.obtain (requestFor "new.com")) = some b ∧
      b.run? [.order 0 (.error .pending), .take 0] = some g ∧
      b.Takes [.order 0 (.error .pending), .take 0] (requestFor "new.com") := by
  obtain ⟨f₀, f₁, f, b, g, hreach, hrelease, hpending, hjournal, htimers, hasked, hbefore, hrun,
      hafter, hstored⟩ : ∃ f₀ f₁ f b g, small.run? waitingForCertificate = some f₀ ∧
      f₀.step? (.release (requestFor "old.com").target) = some f₁ ∧
      f₁.run? [.order 0 (.error .pending)] = some f ∧ f.journal = f₁.journal ∧ f₁.timers = [] ∧
      f₁.step? (.obtain (requestFor "new.com")) = some b ∧
      b.journal = .asked (requestFor "new.com") :: f₁.journal ∧
      b.run? [.order 0 (.error .pending), .take 0] = some g ∧ g.journal = b.journal ∧
      g.manager.requests.find? (requestFor "old.com").key = none :=
    ⟨_, _, _, _, _, rfl, rfl, rfl, rfl, rfl, rfl, rfl, rfl, rfl, rfl⟩
  obtain ⟨hfinal, -⟩ := release_is_final (d := []) hreach hrelease hpending hjournal
  have hwhole : f₁.run? (.obtain (requestFor "new.com") ::
      [.order 0 (.error .pending), .take 0]) = some g := by
    rw [run?_cons, hasked, Option.bind_some, hrun]
  obtain ⟨-, hnext⟩ := release_is_final (d := [.asked (requestFor "new.com")]) hreach hrelease
    hwhole (hafter.trans hbefore)
  obtain ⟨hkept, -⟩ := hnext [] _ _ f₁ b [.asked (requestFor "new.com")] [] _ rfl rfl hasked
    hbefore (since_cons.2 (Or.inl (Or.inl rfl))) rfl hafter (fun x hx => by cases hx)
  have hdelayed := hfinal fun x hx => by cases hx
  rw [htimers] at hdelayed
  refine ⟨f₀, f₁, f, b, g, hreach, hrelease, hpending, hdelayed, hasked, hrun, ?_⟩
  rcases hkept with hstays | htakes
  · cases hstored.symm.trans hstays
  · exact htakes

end Floor

end IngressTls
