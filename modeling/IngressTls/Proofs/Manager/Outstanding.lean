import IngressTls.Proofs.Manager.Accounting
import IngressTls.Proofs.Manager.Charges
import IngressTls.Proofs.Manager.Finality

set_option autoImplicit false

/-! # What is asked of the authority at one time

However many workers there are, and whatever else happens between their calls: the orders that the
authority has not answered are for different keys, each has the hosts of its request reserved, and
all of them together are for no more hosts than the quota allows. This joins three invariants: no
two workers issue for one key, an order has its reservation pending, and the claims on the quota
stay below its ceiling.

A worker whose reservation is refused has only read since it took its key. It asks the authority
for nothing and writes nothing, and it leaves the quota as it is; a release that came for its key
meanwhile is carried out as it ends, and gives back what the key has acquired before.

A reservation is one step here. Its two tests may as well be made one after the other: what happens
in between makes no difference, by `Quota.reserve_eq_register`.

Main statements: `worked_run?`, `Sound.orders_apart`, `readsOnly_run?`, `turnedAway_of_refused` and
`orders_within_quota`.
-/

namespace IngressTls

namespace Floor

variable {f g : Floor}

/-! ## The quota of the manager -/

/-- An issuance that ends operates on the quota at most by a release. -/
theorem worked_conclude {q : Quota} {m : Manager} (h : q.Worked m.quota) (i : Nat) (r : Request)
    (result : Except Error Unit) :
    q.Worked ((f.setManager m).conclude i r result).manager.quota := by
  rw [quota_conclude]
  split
  · exact h.release r.key
  · exact h

/-- A step changes the quota only by operations. -/
theorem worked_move (hm : Move f g) : f.manager.quota.Worked g.manager.quota := by
  cases hm with
  | waited idle taken =>
      obtain ⟨q, -, rfl⟩ := Manager.take_eq taken
      exact .refl
  | left idle taken =>
      obtain ⟨q, -, rfl⟩ := Manager.take_eq taken
      exact .refl
  | @skipped i m k idle taken none =>
      obtain ⟨q, -, rfl⟩ := Manager.take_eq taken
      show f.manager.quota.Worked
        ((Manager.startOn { f.manager with queue := q } k).1.finish k).quota
      rw [Manager.finish_quota]
      split
      · exact Quota.Worked.refl.release k
      · exact .refl
  | started idle taken some =>
      obtain ⟨q, -, rfl⟩ := Manager.take_eq taken
      exact .refl
  | failed e reading => exact worked_conclude (m := f.manager) .refl _ _ _
  | reserved reading ours ok => exact .reserve .refl ok
  | @gaveUp i r result standing why => exact worked_conclude (.rollback .refl r.key) _ _ _
  | @recalled i r s storing released => exact .rollback .refl r.key
  | @stored i r s storing unreleased => exact worked_conclude (.commit .refl r.key) _ _ _
  | cleared withdrawing => exact worked_conclude (m := f.manager) .refl _ _ _
  | @renewed listing threshold now scan =>
      show f.manager.quota.Worked (f.manager.afterRenewalListing threshold now (.ok listing)).1.quota
      rw [Manager.afterRenewalListing_fst, (Manager.obtainAll_facts _ _).2.2.1]
      exact .refl
  | released s =>
      show f.manager.quota.Worked (f.manager.release s).quota
      obtain ⟨-, heq⟩ | ⟨-, heq⟩ := Manager.release_cases f.manager s
      · rw [heq]
        exact .refl
      · rw [heq]
        exact Quota.Worked.refl.release s.key
  | _ => exact .refl

theorem worked_run? {es : List FloorEvent} (hrun : f.run? es = some g) :
    f.manager.quota.Worked g.manager.quota := by
  induction es generalizing f with
  | nil =>
      cases hrun
      exact .refl
  | cons e es ih =>
      rw [run?_cons] at hrun
      obtain ⟨f', hstep, hrest⟩ := Option.bind_eq_some_iff.1 hrun
      exact (worked_move (move_of_step? hstep)).trans (ih hrest)

/-! ## Orders -/

end Floor

/-- The request that a worker waits for the authority with. -/
def Post.order? : Post → Option Request
  | ordering r => some r
  | idle | reading _ _ | storing _ _ _ | withdrawing _ _ | ended => none

theorem Post.order?_eq_some {p : Post} {r : Request} : p.order? = some r ↔ p = .ordering r := by
  cases p with
  | ordering r' => simp [order?]
  | _ => simp [order?]

namespace Floor

variable {f g : Floor}

/-- The orders that the authority has not answered. -/
def orders (f : Floor) : List Request := f.posts.filterMap Post.order?

theorem mem_orders {r : Request} : r ∈ f.orders ↔ ∃ i, f.post i = .ordering r := by
  simp only [orders, List.mem_filterMap, Post.order?_eq_some]
  constructor
  · rintro ⟨p, hp, rfl⟩
    obtain ⟨i, hi⟩ := List.mem_iff_getElem?.1 hp
    exact ⟨i, by rw [post, hi]; rfl⟩
  · rintro ⟨i, hi⟩
    have hat := getElem?_posts (ne_ended_of_request (r := r) (by rw [hi]; rfl))
    exact ⟨f.post i, List.mem_of_getElem? hat, hi⟩

/-- No two orders are for one key. -/
theorem Sound.orders_apart (h : f.Sound) : (f.orders.map Request.key).Nodup := by
  rw [orders, List.Nodup, List.pairwise_map, List.pairwise_filterMap, List.pairwise_iff_getElem]
  intro i j hi hj hij r hr r' hr' hkey
  have hat : ∀ {a : Nat} {r : Request} (ha : a < f.posts.length), f.posts[a].order? = some r →
      f.keyAt a = some r.key := by
    intro a r ha hr
    refine keyAt_of_request ?_
    rw [post, List.getElem?_eq_getElem ha, Option.getD_some, Post.order?_eq_some.1 hr]
    rfl
  have hsame := h.apart i j r.key (hat hi hr) (hkey ▸ hat hj hr')
  omega

theorem Sound.order_reserved (h : f.Sound) {r : Request} (hr : r ∈ f.orders) :
    f.manager.quota.pending.find? r.key = some (r.domains.size : Int) := by
  obtain ⟨i, hi⟩ := mem_orders.1 hr
  exact h.reserved i r (by rw [hi]; rfl)

/-- The hosts that certificates are ordered for. -/
def ordered (f : Floor) : Int := (f.orders.map fun r => (r.domains.size : Int)).foldr (· + ·) 0

/-- All orders together are covered by claims on the quota. -/
theorem Sound.ordered_le_exposure (h : f.Sound) (hq : f.manager.quota.Sound) :
    f.ordered ≤ f.manager.quota.exposure := by
  have hreserved : f.orders.map (fun r => (r.domains.size : Int)) =
      (f.orders.map Request.key).map f.manager.quota.pending.amount := by
    rw [List.map_map]
    refine List.map_congr_left fun r hr => ?_
    exact (Quota.amount_of_find? (h.order_reserved hr)).symm
  rw [ordered, hreserved]
  exact hq.sum_pending_le h.orders_apart

/-- A disabled quota lets nothing be ordered. -/
theorem Sound.orders_eq_nil (h : f.Sound) (hmax : f.manager.quota.max ≤ 0) : f.orders = [] := by
  refine List.eq_nil_iff_forall_not_mem.2 fun r hr => ?_
  have hnone := (h.disabled hmax r.key).2
  rw [h.order_reserved hr] at hnone
  cases hnone

/-! ## Who tells a worker of a release -/

/-- A release is noted only when it happens. -/
theorem release_of_noted {e : FloorEvent} {d : List Deed} {t : SecretRef}
    (hstep : f.step? e = some g) (hd : g.journal = d ++ f.journal) (h : .released t ∈ d) :
    e = .release t := by
  have hd' : ∀ {b}, g.journal = b ++ f.journal → d = b := fun heq =>
    (List.append_left_inj f.journal).1 (hd.symm.trans heq)
  have hfor : Deed.IsFor t.key (.released t) := rfl
  have hnothing : g.journal = f.journal → e = .release t := by
    intro heq
    rw [hd' (b := []) heq] at h
    cases h
  -- what a call of a worker notes is no release
  have hserved : ∀ {d'}, g.journal = d' ++ f.journal → (∀ y ∈ d', ∀ k, ¬ y.IsFor k) →
      e = .release t := by
    intro d' heq hd''
    rw [hd' heq] at h
    exact absurd hfor (hd'' _ h t.key)
  cases turn_of_step? hstep with
  | began idle awake => exact hnothing (journal_begin _ _)
  | read service reading => exact hserved rfl notes_not_isFor
  | wrote storing effect =>
      exact hserved (by rw [List.append_assoc]; rfl) (effect_not_isFor fun k => id)
  | unwritten storing effect => exact hserved rfl notes_not_isFor
  | withdrew withdrawing effect =>
      exact hserved (by rw [List.append_assoc]; rfl) (effect_not_isFor fun k => id)
  | unwithdrawn withdrawing effect => exact hserved rfl notes_not_isFor
  | informed reading => exact hnothing (journal_advance _ _ _ _)
  | stored storing => exact hnothing (journal_advance _ _ _ _)
  | cleared withdrawing => exact hnothing (journal_advance _ _ _ _)
  | ordered a ordering => exact hnothing (journal_advance _ _ _ _)
  | rang timer => exact hnothing rfl
  | listed unlisted => exact hnothing rfl
  | renewed now scan valid =>
      rw [hd' rfl] at h
      obtain ⟨b, -, hb⟩ := List.mem_map.1 (List.mem_reverse.1 h)
      cases hb
  | asked r =>
      rw [hd' (b := [.asked r]) rfl] at h
      cases List.mem_singleton.1 h
  | released s =>
      rw [hd' (b := [.released s]) rfl] at h
      cases List.mem_singleton.1 h
      rfl
  | looked s =>
      rw [hd' (b := [.looked s]) rfl] at h
      cases List.mem_singleton.1 h
  | removed s =>
      rw [hd' (b := [.removed s]) rfl] at h
      cases List.mem_singleton.1 h
  | @placed s named =>
      rw [hd' (b := [.placed s.ref]) rfl] at h
      cases List.mem_singleton.1 h
  | stopped => exact hnothing rfl

/-- A worker that issues for a key is told of its releases, and of nothing else. -/
theorem told_step {e : FloorEvent} {k : String} (hs : f.Sound) (hstep : f.step? e = some g)
    (hf : f.Busy k) (hg : g.Busy k) :
    g.manager.isReleased k = true ↔
      f.manager.isReleased k = true ∨ ∃ s : SecretRef, e = .release s ∧ s.key = k := by
  have hm := move_of_step? hstep
  constructor
  · intro hflag
    by_contra hnot
    rw [not_or, Bool.not_eq_true] at hnot
    obtain ⟨hunflagged, hother⟩ := hnot
    obtain ⟨d, hd⟩ := journal_move hm
    have hunreleased := unreleased_move hm hd
      (fun t ht hk => hother ⟨t, release_of_noted hstep hd ht, hk⟩) hunflagged
    cases hunreleased.symm.trans hflag
  · rintro (hflag | ⟨s, rfl, rfl⟩)
    · exact (stake_move hs hm k).isReleased hf hg hflag
    · cases hstep
      exact (hs.returned_or_told s).resolve_right fun hfree => hfree.1 hf

/-- A worker that has just taken a request has been told nothing. -/
theorem untold_of_take {i : Nat} {r : Request} {a : Option (Except Error (Option Secret))}
    (hs : f.Sound) (hstep : f.step? (.take i) = some g) (hpost : g.post i = .reading r a) :
    g.manager.isReleased r.key = false := by
  cases turn_of_step? hstep with
  | began idle awake =>
      have hend := fun p => (post_setPost (ne_ended_of_idle idle) p i).trans (if_pos rfl)
      have hbegun := begun f i
      generalize f.begin i = g at hbegun hpost
      cases hbegun with
      | waited taken => cases idle.symm.trans hpost
      | left taken => cases (hend .ended).symm.trans hpost
      | skipped taken none => cases idle.symm.trans hpost
      | @started m k r' taken some =>
          cases (hend (.reading r' none)).symm.trans hpost
          rw [Manager.isReleased_eq_false]
          show (m.inFlight.insert k false).find? r.key ≠ _
          rw [hs.keyed k r some, Table.find?_insert, if_pos rfl]
          simp

/-! ## Refused reservations -/

/-- A worker has taken a request on the way, and has only read its secret since. The key of the
request was released since exactly if the worker was told so. -/
structure ReadsOnly (f₀ : Floor) (es : List FloorEvent) (f : Floor) (i : Nat) (r : Request)
    (since : List FloorEvent) : Prop where
  /-- The worker had no key before, and was reading all the way. -/
  taken : ∃ before f₁, es = before ++ .take i :: since ∧ f₀.run? before = some f₁ ∧
    f₁.post i = .idle ∧ ∀ way, way <+: since →
      ∃ h a, f₀.run? (before ++ .take i :: way) = some h ∧ h.post i = .reading r a
  /-- Whether the key was released. -/
  told : f.manager.isReleased r.key = true ↔ ∃ s : SecretRef, .release s ∈ since ∧ s.key = r.key

theorem run?_snoc {f₀ : Floor} {es : List FloorEvent} {e : FloorEvent}
    (hrun : f₀.run? es = some f) (hstep : f.step? e = some g) :
    f₀.run? (es ++ [e]) = some g := by
  rw [run?_append, hrun, Option.bind_some, run?_cons, hstep]
  rfl

theorem ReadsOnly.step {f₀ : Floor} {es since : List FloorEvent} {e : FloorEvent} {i : Nat}
    {r : Request} {a b : Option (Except Error (Option Secret))} (hs : f.Sound)
    (h : ReadsOnly f₀ es f i r since) (hrun : f₀.run? es = some f)
    (hstep : f.step? e = some g) (hf : f.post i = .reading r a) (hg : g.post i = .reading r b) :
    ReadsOnly f₀ (es ++ [e]) g i r (since ++ [e]) := by
  obtain ⟨⟨before, f₁, rfl, hbefore, hidle, hway⟩, htold⟩ := h
  have hbusy : ∀ {h : Floor} {c}, h.post i = .reading r c → h.Busy r.key := fun hpost =>
    ⟨i, keyAt_of_request (by rw [hpost]; rfl)⟩
  refine ⟨⟨before, f₁, by simp, hbefore, hidle, fun way hprefix => ?_⟩, ?_⟩
  · rcases List.prefix_concat_iff.1 hprefix with rfl | hearlier
    · refine ⟨g, b, ?_, hg⟩
      have hlast := run?_snoc hrun hstep
      rwa [List.append_assoc, List.cons_append] at hlast
    · exact hway way hearlier
  · rw [told_step hs hstep (hbusy hf) (hbusy hg), htold]
    constructor
    · rintro (⟨s, hs, hkey⟩ | ⟨s, rfl, hkey⟩)
      · exact ⟨s, List.mem_append_left _ hs, hkey⟩
      · exact ⟨s, List.mem_append_right _ List.mem_cons_self, hkey⟩
    · rintro ⟨s, hmem, hkey⟩
      rcases List.mem_append.1 hmem with hmem | hmem
      · exact Or.inl ⟨s, hmem, hkey⟩
      · exact Or.inr ⟨s, (List.mem_singleton.1 hmem).symm, hkey⟩

/-- A worker that reads has done nothing else since it took its request. -/
theorem readsOnly_run? {f₀ : Floor} {es : List FloorEvent} {i : Nat} {r : Request}
    {a : Option (Except Error (Option Secret))} (hs : f₀.Sound)
    (hidle : (f₀.post i).request? = none) (hrun : f₀.run? es = some f)
    (hi : f.post i = .reading r a) : ∃ since, ReadsOnly f₀ es f i r since := by
  induction es using List.reverseRecOn generalizing f a with
  | nil =>
      cases hrun
      rw [hi] at hidle
      cases hidle
  | append_singleton es e ih =>
      rw [run?_append] at hrun
      obtain ⟨f₁, hbefore, hlast⟩ := Option.bind_eq_some_iff.1 hrun
      obtain ⟨f₂, hstep, heq⟩ := Option.bind_eq_some_iff.1 hlast
      cases heq
      have hs₁ := sound_run? hs hbefore
      have hextend : ∀ b, f₁.post i = .reading r b →
          ∃ since, ReadsOnly f₀ (es ++ [e]) f i r since := by
        intro b hb
        obtain ⟨since, hsince⟩ := ih hbefore hb
        exact ⟨since ++ [e], hsince.step hs₁ hbefore hstep hb hi⟩
      -- it was reading before, or has just taken the request
      have hm := move_of_step? hstep
      obtain ⟨d, hd⟩ := journal_move hm
      have hstride := stride_move hm hd i
      rw [hi] at hstride
      cases hstride with
      | stayed same => exact hextend _ same
      | read reading => exact hextend _ reading
      | started idle stored =>
          cases take_of_reading hstep idle hi
          have htold := untold_of_take hs₁ hstep hi
          refine ⟨[], ⟨es, f₁, rfl, hbefore, idle, fun way hprefix => ?_⟩, ?_⟩
          · rw [List.prefix_nil.1 hprefix]
            exact ⟨f, none, run?_snoc hbefore hstep, hi⟩
          · rw [htold]
            refine iff_of_false (by simp) ?_
            rintro ⟨s, hmem, -⟩
            cases hmem

/-- What the end of a refused request leaves as it was. -/
structure TurnedAway (f g : Floor) (i : Nat) (r : Request) : Prop where
  /-- The worker looks for another key. -/
  idle : g.post i = .idle
  /-- Nobody else moves. -/
  others : ∀ j, j ≠ i → g.post j = f.post j
  /-- Nothing is written or deleted. -/
  shelf : g.shelf = f.shelf
  /-- Nothing else happens to requests or secrets. -/
  journal : g.journal = f.journal
  /-- The request is not tried again. -/
  timers : g.timers = f.timers
  /-- Neither the acquired nor the pending amounts change. -/
  quota : f.manager.isReleased r.key = false → g.manager.quota = f.manager.quota
  /-- If the key was released meanwhile, the release is carried out now. -/
  released : f.manager.isReleased r.key = true →
    g.manager.quota = f.manager.quota.release r.key

/-- A worker whose reservation is refused ends. -/
theorem turnedAway_of_refused {i : Nat} {r : Request} {existing : Option Secret}
    {refusal : QuotaRefusal}
    (hi : f.post i = .reading r (some (.ok existing)))
    (hours : f.manager.isForeign existing = false)
    (hrefused : f.manager.quota.reserve r.key r.domains.size = .error refusal) :
    ∃ g, f.step? (.resume i) = some g ∧ TurnedAway f g i r := by
  have hafter : f.manager.afterRead r (.ok existing) =
      (f.manager, .ended (.error (.quota refusal))) := by
    rw [Manager.afterRead, hours, if_neg (by decide), hrefused]
  have hstep : f.step? (.resume i) = some (f.conclude i r (.error (.quota refusal))) := by
    rw [step?, resume?, hi]
    dsimp only
    rw [hafter]
    rfl
  have hsettle : f.manager.settle r.key r (.error (.quota refusal)) =
      (f.manager.forget r.key, .forgotten) := by
    show f.manager.settleFailure r.key r (.quota refusal) = _
    rw [Manager.settleFailure]
    split
    · rfl
    · rfl
  refine ⟨_, hstep, ?_⟩
  constructor
  · exact post_advance (by simp [hi]) r (f.manager, .ended (.error (.quota refusal)))
  · exact fun j hj => post_advance_ne hj r (f.manager, .ended (.error (.quota refusal)))
  · rfl
  · rfl
  · rw [conclude, hsettle]
  · intro hflag
    rw [quota_conclude, hflag]
    rfl
  · intro hflag
    rw [quota_conclude, hflag]
    rfl

/-! ## The statement -/

/-- Whatever happens between the calls of any number of workers: the orders that the authority has
not answered are for different keys, each has the hosts of its request reserved, and all together
are for no more hosts than the ceiling, none at all if the quota is disabled. A worker whose
reservation is refused has only read since it took the request, and goes on without having asked for
anything, written anything or changed the quota; only a release that came for the key since then
gives back, as it would have without the worker, what the key has acquired. -/
theorem orders_within_quota {settings : ManagerSettings} {max : Int}
    {listing : Except Error (List Secret)} {shelf : Snapshot Secret} {es : List FloorEvent}
    (hrun : (start settings max listing shelf).run? es = some f) :
    (f.orders.map Request.key).Nodup ∧
    (∀ r ∈ f.orders, f.manager.quota.pending.find? r.key = some (r.domains.size : Int)) ∧
    (0 < max → f.ordered ≤ max) ∧ (max ≤ 0 → f.orders = []) ∧
    ∀ i r existing refusal, f.post i = .reading r (some (.ok existing)) →
      f.manager.isForeign existing = false →
      f.manager.quota.reserve r.key r.domains.size = .error refusal →
      (∃ since, ReadsOnly (start settings max listing shelf) es f i r since) ∧
      ∃ g, f.step? (.resume i) = some g ∧ TurnedAway f g i r := by
  have hstart := sound_start settings max listing shelf
  have hs := sound_run? hstart hrun
  have hmax : f.manager.quota.max = max := (max_run? hrun).trans (max_start ..)
  refine ⟨hs.orders_apart, fun r hr => hs.order_reserved hr, fun hpositive => ?_, fun hdisabled => ?_,
    fun i r existing refusal hi hours hrefused => ⟨?_, turnedAway_of_refused hi hours hrefused⟩⟩
  · have hworked := (worked_start settings max listing shelf).trans (worked_run? hrun)
    have hq : f.manager.quota.Sound := hworked.sound (.new hpositive)
    calc f.ordered ≤ f.manager.quota.exposure := hs.ordered_le_exposure hq
      _ ≤ f.manager.quota.max := hq.exposure_le
      _ = max := hmax
  · exact hs.orders_eq_nil (hmax ▸ hdisabled)
  · exact readsOnly_run? hstart (post_start ..) hrun hi

/-- The request for a host of its own. -/
def requestOf (name : String) : Request := ⟨DomainSet.ofHosts [name], ⟨"default", name⟩⟩

/-- Two workers have read, and one has ordered. -/
def oneOrdered : List FloorEvent :=
  [.obtain (requestOf "one"), .obtain (requestOf "two"), .take 0, .take 1, .serve 0 .done,
    .serve 1 .done, .resume 0]

/-- There is one host to order for: the second worker is refused and ends. -/
theorem orders_within_quota_oneOrdered :
    ∃ f g, (start { ManagerSettings.standard with workers := 2 } 1 (.ok []) .empty).run?
        oneOrdered = some f ∧
      f.orders = [requestOf "one"] ∧ (f.orders.map Request.key).Nodup ∧ (0 : Int) < 1 ∧
      f.ordered ≤ 1 ∧ f.post 1 = .reading (requestOf "two") (some (.ok none)) ∧
      f.manager.isForeign none = false ∧
      f.manager.quota.reserve (requestOf "two").key (requestOf "two").domains.size =
        .error (.exceeded (requestOf "two").key 1 1 1) ∧
      f.step? (.resume 1) = some g ∧ TurnedAway f g 1 (requestOf "two") ∧
      g.manager.quota = f.manager.quota := by
  obtain ⟨f, hrun, horders, hpost, hours, hrefused, hunreleased⟩ : ∃ f,
      (start { ManagerSettings.standard with workers := 2 } 1 (.ok []) .empty).run? oneOrdered =
        some f ∧
      f.orders = [requestOf "one"] ∧ f.post 1 = .reading (requestOf "two") (some (.ok none)) ∧
      f.manager.isForeign none = false ∧
      f.manager.quota.reserve (requestOf "two").key (requestOf "two").domains.size =
        .error (.exceeded (requestOf "two").key 1 1 1) ∧
      f.manager.isReleased (requestOf "two").key = false :=
    ⟨_, rfl, rfl, rfl, rfl, rfl, rfl⟩
  obtain ⟨hapart, -, hwithin, -, hturned⟩ := orders_within_quota hrun
  obtain ⟨-, g, hstep, hg⟩ := hturned 1 (requestOf "two") none _ hpost hours hrefused
  exact ⟨f, g, hrun, horders, hapart, by decide, hwithin (by decide), hpost, hours, hrefused, hstep,
    hg, hg.quota hunreleased⟩

/-- A request for two hosts, under the name of the request for one. -/
def widerRequest : Request := ⟨DomainSet.ofHosts ["a.com", "b.com"], (requestOf "one").target⟩

/-- A certificate for one host is stored. The next request is for two hosts, and is withdrawn while
the worker reads. -/
def widenedAndReleased : List FloorEvent :=
  [.obtain (requestOf "one"), .take 0, .serve 0 .done, .resume 0,
    .order 0 (.ok ⟨[], [], [], default, default⟩), .serve 0 .done, .resume 0,
    .obtain widerRequest, .take 0, .serve 0 .done, .release widerRequest.target]

/-- Two hosts are refused, and the one host that was acquired is given back all the same. -/
theorem refused_can_change_acquired :
    ∃ f g existing, (start { ManagerSettings.standard with workers := 1 } 1 (.ok []) .empty).run?
        widenedAndReleased = some f ∧
      f.post 0 = .reading widerRequest (some (.ok existing)) ∧
      f.manager.isForeign existing = false ∧
      f.manager.quota.reserve widerRequest.key widerRequest.domains.size =
        .error (.exceeded widerRequest.key 2 1 1) ∧
      f.step? (.resume 0) = some g ∧
      f.manager.quota.acquiredBy widerRequest.key = 1 ∧
      g.manager.quota.acquiredBy widerRequest.key = 0 :=
  ⟨_, _, _, rfl, rfl, rfl, rfl, rfl, rfl, rfl⟩

end Floor

end IngressTls
