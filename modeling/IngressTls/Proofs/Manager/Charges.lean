import IngressTls.Proofs.Manager.Pursuit

set_option autoImplicit false

/-! # What quota is held for

A key is *charged* when quota is held for it, or a worker is about to take some because it has
written the secret, unless a worker that issues for the key was told of a release and gives
everything back. Only a worker's write of the secret makes a key charged, and a release or a
withdrawal of the secret ends it. So the journal tells of a charged key that its secret has been
written and neither withdrawn nor released since, or that it was charged from the start on.

Whether somebody else has deleted the secret meanwhile plays no part in this.

Main statements: `stake_move`, `charged_run?` and `ChargedSince.last`.
-/

namespace IngressTls

/-- What gives back the quota of a secret. -/
def Deed.Discharges (s : SecretRef) : Deed → Prop
  | withdrew t | released t => t = s
  | asked _ | renewed _ | looked _ | wrote _ | removed _ | placed _ | failed _ => False

/-- What changes a secret, or releases it. -/
def Deed.Alters (s : SecretRef) (x : Deed) : Prop := x.touched? = some s ∨ x = .released s

namespace Floor

variable {f g : Floor} {k : String} {d : List Deed}

/-- A worker has been told that its write for a key has succeeded. -/
def Landed (f : Floor) (k : String) : Prop :=
  ∃ i r sec, f.post i = .storing r sec (some (.ok ())) ∧ r.key = k

/-- Quota is held for a key, or is about to be, and no worker was told to give it back. -/
def Charged (f : Floor) (k : String) : Prop :=
  f.manager.isReleased k = false ∧
    (f.manager.quota.acquired.find? k ≠ none ∨ f.Landed k)

/-- Whoever withdraws a secret was told of a release. -/
def Told (f : Floor) : Prop :=
  ∀ i r a, f.post i = .withdrawing r a → f.manager.isReleased r.key = true

theorem Landed.busy (h : f.Landed k) : f.Busy k := by
  obtain ⟨i, r, sec, hi, rfl⟩ := h
  exact ⟨i, keyAt_of_request (by rw [hi]; rfl)⟩

/-! ## What a step does to the quota of a key -/

/-- What a step does to the quota that is held for a key, and to whether a worker was told of a
release of the key. -/
inductive Stake (f g : Floor) (k : String) : Prop where
  | kept (flag : g.manager.inFlight.find? k = f.manager.inFlight.find? k)
      (acquired : g.manager.quota.acquired.find? k = f.manager.quota.acquired.find? k)
  /-- A worker starts to issue for the key. -/
  | began (free : ¬ f.Busy k)
      (acquired : g.manager.quota.acquired.find? k = f.manager.quota.acquired.find? k)
  /-- A worker ends to issue for the key. -/
  | ended (free : ¬ g.Busy k)
      (due : g.manager.quota.acquired.find? k ≠ none → f.Charged k)
  /-- The key is released. -/
  | released (returned : g.manager.isReleased k = true ∨
      ¬ g.Busy k ∧ g.manager.quota.acquired.find? k = none)

theorem Stake.of_manager (hmanager : g.manager = f.manager) : Stake f g k :=
  .kept (by rw [hmanager]) (by rw [hmanager])

/-- A worker ends an issuance: it leaves the quota as it is, or gives it back if it was told. -/
theorem Stake.conclude (hs : f.Sound) {i : Nat} {r : Request} (hi : (f.post i).request? = some r)
    {m : Manager} (hm : Unreserved f.manager m r.key)
    (hinFlight : ∀ j, j ≠ r.key → m.inFlight.find? j = f.manager.inFlight.find? j)
    (hacquired : ∀ j, j ≠ r.key →
      m.quota.acquired.find? j = f.manager.quota.acquired.find? j)
    (hdue : m.isReleased r.key = false → m.quota.acquired.find? r.key ≠ none → f.Charged r.key)
    (result : Except Error Unit) : Stake f ((f.setManager m).conclude i r result) k := by
  have hquota : ((f.setManager m).conclude i r result).manager.quota =
      if m.isReleased r.key then m.quota.release r.key else m.quota :=
    quota_conclude (f.setManager m) i r result
  have hbusy := busy_setPost_end hs.apart hi (p := .idle) rfl r.key
  by_cases hk : k = r.key
  · subst hk
    refine .ended (fun hgoes => (hbusy.1 hgoes).1 rfl) fun hheld => ?_
    rw [hquota] at hheld
    split at hheld
    · exact absurd hm.returned hheld
    · next hunreleased => exact hdue (by simpa using hunreleased) hheld
  · refine .kept ?_ ?_
    · rw [inFlight_conclude]
      show (m.inFlight.erase r.key).find? k = _
      rw [Table.find?_erase, if_neg hk, hinFlight k hk]
    · rw [hquota, ← hacquired k hk]
      split
      · exact Quota.find?_release_ne _ hk
      · rfl

/-- A release gives the quota of its key back, or tells the worker that issues for it. -/
theorem Sound.returned_or_told (hs : f.Sound) (s : SecretRef) :
    (f.manager.release s).isReleased s.key = true ∨
      ¬ f.Busy s.key ∧ (f.manager.release s).quota.acquired.find? s.key = none := by
  obtain ⟨-, heq⟩ | ⟨hfree, heq⟩ := Manager.release_cases f.manager s
  · left
    rw [heq, Manager.isReleased_eq_true]
    show (f.manager.inFlight.insert s.key true).find? s.key = some true
    rw [Table.find?_insert, if_pos rfl]
  · right
    rw [heq]
    refine ⟨fun hbusy => ?_, hs.returned_free hfree⟩
    rw [(hs.inFlight s.key).2 hbusy] at hfree
    cases hfree

theorem stake_move (hs : f.Sound) (hm : Move f g) (k : String) : Stake f g k := by
  cases hm with
  | waited idle taken =>
      obtain ⟨q, -, rfl⟩ := Manager.take_eq taken
      exact .kept rfl rfl
  | left idle taken =>
      obtain ⟨q, -, rfl⟩ := Manager.take_eq taken
      exact .kept rfl rfl
  | skipped idle taken none =>
      obtain ⟨hquota, hinFlight⟩ := hs.skip_facts taken
      exact .kept (hinFlight k) (congrArg (fun q : Quota => q.acquired.find? k) hquota)
  | @started i m j r idle taken some =>
      obtain ⟨q, hq, rfl⟩ := Manager.take_eq taken
      obtain ⟨-, hnew, -⟩ := hs.tidy.take_key hq
      by_cases hk : k = j
      · subst hk
        exact .began (fun hbusy => hnew ((hs.held k).2 hbusy)) rfl
      · refine .kept ?_ rfl
        show (f.manager.inFlight.insert j false).find? k = _
        rw [Table.find?_insert, if_neg hk]
  | @failed i r a e reading =>
      have hi : (f.post i).request? = some r := by rw [reading]; rfl
      have hnone : (f.post i).reservation? = none := by rw [reading]; rfl
      exact .conclude hs hi (hs.unreserved_self (hs.pending_eq_none_of_unreserved hi hnone))
        (fun _ _ => rfl) (fun _ _ => rfl) (fun hflag hheld => ⟨hflag, Or.inl hheld⟩) _
  | @reserved i r a q reading ours ok =>
      obtain ⟨-, -, rfl⟩ := Quota.reserve_eq_ok ok
      exact .kept rfl rfl
  | @gaveUp i r result standing why =>
      exact .conclude hs (request_of_standing standing) (hs.unreserved_rollback r)
        (fun _ _ => rfl) (fun _ _ => rfl) (fun hflag hheld => ⟨hflag, Or.inl hheld⟩) _
  | @stored i r sec storing unreleased =>
      have hi : (f.post i).request? = some r := by rw [storing]; rfl
      have hres : (f.post i).reservation? = some r := by rw [storing]; rfl
      refine .conclude hs hi (hs.unreserved_commit r) (fun j hj => ?_) (fun j hj => ?_)
        (fun _ _ => ⟨unreleased, Or.inr ⟨i, r, sec, storing, rfl⟩⟩) _
      · show (f.manager.inFlight.erase r.key).find? j = _
        rw [Table.find?_erase, if_neg hj]
      · show (f.manager.quota.commit r.key).acquired.find? j = _
        rw [Quota.find?_commit (hs.reserved i r hres), if_neg hj]
  | @cleared i r a withdrawing =>
      have hi : (f.post i).request? = some r := by rw [withdrawing]; rfl
      have hnone : (f.post i).reservation? = none := by rw [withdrawing]; rfl
      exact .conclude hs hi (hs.unreserved_self (hs.pending_eq_none_of_unreserved hi hnone))
        (fun _ _ => rfl) (fun _ _ => rfl) (fun hflag hheld => ⟨hflag, Or.inl hheld⟩) _
  | @renewed listing threshold now scan =>
      let due := listing.filterMap (f.manager.due? threshold now)
      obtain ⟨-, hinFlight, hquota, -⟩ :=
        Manager.obtainAll_facts f.manager (due.map Bookkeeping.toRequest)
      have hm := Manager.afterRenewalListing_fst f.manager threshold now listing
      refine .kept ?_ ?_
      · show (f.manager.afterRenewalListing threshold now (.ok listing)).1.inFlight.find? k = _
        rw [hm, hinFlight]
      · show (f.manager.afterRenewalListing threshold now (.ok listing)).1.quota.acquired.find? k
          = _
        rw [hm, hquota]
  | released s =>
      by_cases hk : k = s.key
      · subst hk
        exact .released (hs.returned_or_told s)
      · obtain ⟨-, heq⟩ | ⟨-, heq⟩ := Manager.release_cases f.manager s
        · refine .kept ?_ ?_
          · show (f.manager.release s).inFlight.find? k = _
            rw [heq]
            show (f.manager.inFlight.insert s.key true).find? k = _
            rw [Table.find?_insert, if_neg hk]
          · show (f.manager.release s).quota.acquired.find? k = _
            rw [heq]
        · refine .kept ?_ ?_
          · show (f.manager.release s).inFlight.find? k = _
            rw [heq]
          · show (f.manager.release s).quota.acquired.find? k = _
            rw [heq]
            exact Quota.find?_release_ne _ hk
  | recalled storing released => exact .kept rfl rfl
  | rang timer => exact .kept rfl rfl
  | asked r => exact .kept rfl rfl
  | stopped => exact .kept rfl rfl
  | _ => exact .of_manager rfl

/-- A worker that was told of a release remembers it as long as it issues for the key. -/
theorem Stake.isReleased (h : Stake f g k) (hf : f.Busy k) (hg : g.Busy k)
    (hflag : f.manager.isReleased k = true) : g.manager.isReleased k = true := by
  cases h with
  | kept flag acquired =>
      rw [Manager.isReleased_eq_true] at hflag ⊢
      rwa [flag]
  | began free acquired => exact absurd hf free
  | ended free due => exact absurd hg free
  | released returned => exact returned.resolve_right fun hfree => hfree.1 hg

/-- A worker that has just been told of a successful write has written the secret. -/
theorem Landed.back (hm : Move f g) (hd : g.journal = d ++ f.journal) (h : g.Landed k) :
    f.Landed k ∨ ∃ r : Request, r.key = k ∧ .wrote r.target ∈ d := by
  obtain ⟨j, r, sec, hj, hkey⟩ := h
  have hstride := stride_move hm hd j
  rw [hj] at hstride
  cases hstride with
  | stayed same => exact Or.inl ⟨j, r, sec, same, hkey⟩
  | wrote storing noted => exact Or.inr ⟨r, hkey, noted⟩

theorem Told.move (hs : f.Sound) (h : f.Told) (hm : Move f g) : g.Told := by
  obtain ⟨d, hd⟩ := journal_move hm
  intro j r a hj
  have hg : g.Busy r.key := ⟨j, keyAt_of_request (by rw [hj]; rfl)⟩
  have hkeep : (f.post j).request? = some r → f.manager.isReleased r.key = true →
      g.manager.isReleased r.key = true := fun hreq =>
    (stake_move hs hm r.key).isReleased ⟨j, keyAt_of_request hreq⟩ hg
  have hstride := stride_move hm hd j
  rw [hj] at hstride
  cases hstride with
  | stayed same => exact hkeep (by rw [same]; rfl) (h j r a same)
  | recalled storing released => exact hkeep (by rw [storing]; rfl) released
  | withdrew withdrawing noted => exact hkeep (by rw [withdrawing]; rfl) (h j r none withdrawing)

theorem Told.run? {es : List FloorEvent} (hs : f.Sound) (h : f.Told) (hrun : f.run? es = some g) :
    g.Told := by
  obtain ⟨d, hd⟩ := journal_run? hrun
  exact run?_induction (P := Told) (Q := fun _ => True) (fun hs h hm _ _ => h.move hs hm) hs h hrun
    hd fun _ _ => trivial

theorem told_start (settings : ManagerSettings) (max : Int)
    (listing : Except Error (List Secret)) (shelf : Snapshot Secret) :
    (start settings max listing shelf).Told := by
  intro i r a hi
  have hnone := post_start settings max listing shelf i
  rw [hi] at hnone
  cases hnone

/-! ## What makes a key charged, and what ends it -/

/-- A key that is charged was so before, or its secret has just been written. -/
theorem Charged.back (hs : f.Sound) (hm : Move f g) (hd : g.journal = d ++ f.journal)
    (h : g.Charged k) : f.Charged k ∨ ∃ r : Request, r.key = k ∧ .wrote r.target ∈ d := by
  obtain ⟨hflag, hheld⟩ := h
  have hlanded : g.Landed k → f.Landed k ∨ ∃ r : Request, r.key = k ∧ .wrote r.target ∈ d :=
    Landed.back hm hd
  -- it is enough that no worker was told before, and that what is held now was held before
  have hbefore : f.manager.isReleased k = false →
      g.manager.quota.acquired.find? k = f.manager.quota.acquired.find? k →
      f.Charged k ∨ ∃ r : Request, r.key = k ∧ .wrote r.target ∈ d := by
    intro hflag hacquired
    rw [hacquired] at hheld
    rcases hheld with hheld | hg
    · exact Or.inl ⟨hflag, Or.inl hheld⟩
    · exact (hlanded hg).imp_left fun hf => ⟨hflag, Or.inr hf⟩
  cases stake_move hs hm k with
  | kept flag acquired =>
      refine hbefore ?_ acquired
      rw [Manager.isReleased_eq_false] at hflag ⊢
      rwa [← flag]
  | began free acquired =>
      refine hbefore (Manager.isReleased_eq_false.2 fun htold => free ?_) acquired
      exact (hs.inFlight k).1 (by rw [Table.has, htold]; rfl)
  | ended free due =>
      rcases hheld with hheld | hg
      · exact Or.inl (due hheld)
      · exact absurd hg.busy free
  | released returned =>
      rcases returned with htold | ⟨hfree, hnone⟩
      · cases hflag.symm.trans htold
      · rcases hheld with hheld | hg
        · exact absurd hnone hheld
        · exact absurd hg.busy hfree

/-- A release or a withdrawal leaves its key not charged. -/
theorem not_charged_of_discharge {s : SecretRef} (hs : f.Sound) (ht : f.Told) (hm : Move f g)
    (hd : g.journal = d ++ f.journal) {x : Deed} (hx : x ∈ d) (hdischarges : x.Discharges s) :
    ¬ g.Charged s.key := by
  rintro ⟨hflag, hheld⟩
  cases x with
  | withdrew t =>
      obtain rfl : t = s := hdischarges
      have htouch := touch_move hs hm hd t
      have hmem : .withdrew t ∈ touching t d := mem_touching.2 ⟨hx, rfl⟩
      generalize touching t d = l at htouch hmem
      -- whoever has withdrawn the secret was told of a release
      cases htouch with
      | none same => cases hmem
      | wrote target storing present => cases List.mem_singleton.1 hmem
      | @withdrew i r a target withdrawing answered absent =>
          have htold := ht.move hs hm i r _ answered
          rw [Request.key, target] at htold
          cases hflag.symm.trans htold
      | removed absent => cases List.mem_singleton.1 hmem
      | placed present => cases List.mem_singleton.1 hmem
  | released t =>
      obtain rfl : t = s := hdischarges
      rcases isFor_move hm hd with hneutral | ⟨r, rfl, -⟩ | ⟨t', rfl, rfl⟩ | ⟨rs, rfl, -, -⟩
      · exact hneutral _ hx t.key rfl
      · cases List.mem_singleton.1 hx
      · cases List.mem_singleton.1 hx
        rcases hs.returned_or_told t with htold | ⟨hfree, hnone⟩
        · cases hflag.symm.trans htold
        · rcases hheld with hheld | hg
          · exact hheld hnone
          · exact hfree hg.busy
      · obtain ⟨r, -, heq⟩ := List.mem_map.1 (List.mem_reverse.1 hx)
        cases heq
  | _ => exact hdischarges

/-- How a key came to be charged: its secret has been written, and nothing has given its quota back
since; or it has been charged before and nothing has given its quota back at all. -/
def ChargedSince (f₀ : Floor) (s : SecretRef) (d : List Deed) : Prop :=
  Since (· = .wrote s) (Deed.Discharges s) d ∨ f₀.Charged s.key ∧ ∀ x ∈ d, ¬ x.Discharges s

theorem charged_move {f₀ : Floor} {s : SecretRef} {d' : List Deed} (hs : f.Sound) (ht : f.Told)
    (hplain : s.IsPlain) (hm : Move f g) (hd : g.journal = d' ++ f.journal)
    (h : f.Charged s.key → ChargedSince f₀ s d) (hg : g.Charged s.key) :
    ChargedSince f₀ s (d' ++ d) := by
  have hkept : ∀ x ∈ d', ¬ x.Discharges s := fun x hx hdischarges =>
    not_charged_of_discharge hs ht hm hd hx hdischarges hg
  rcases hg.back hs hm hd with hf | ⟨r, hkey, hwrote⟩
  · rcases h hf with hsince | ⟨h₀, hnone⟩
    · exact Or.inl (hsince.append hkept)
    · refine Or.inr ⟨h₀, fun x hx => ?_⟩
      rcases List.mem_append.1 hx with hx | hx
      · exact hkept x hx
      · exact hnone x hx
  · rw [SecretRef.key_inj hplain hkey] at hwrote
    have hsince : Since (· = .wrote s) (Deed.Discharges s) d' := .of_mem hwrote rfl hkept
    exact Or.inl (hsince.before d)

/-- In every run: the secret of a charged key has been written and neither withdrawn nor released
since, or its key was charged from the start on. -/
theorem charged_run? {s : SecretRef} {es : List FloorEvent} (hs : f.Sound) (ht : f.Told)
    (hplain : s.IsPlain) (hrun : f.run? es = some g) (hd : g.journal = d ++ f.journal)
    (hg : g.Charged s.key) : ChargedSince f s d := by
  have key : g.Told ∧ ∃ d', g.journal = d' ++ f.journal ∧
      (g.Charged s.key → ChargedSince f s d') := by
    refine run?_induction (P := fun g => g.Told ∧ ∃ d', g.journal = d' ++ f.journal ∧
      (g.Charged s.key → ChargedSince f s d')) (Q := fun _ => True) ?_ hs
      ⟨ht, [], rfl, fun h => Or.inr ⟨h, fun x hx => by cases hx⟩⟩ hrun hd fun _ _ => trivial
    rintro a b x hsa ⟨hta, da, hda, hca⟩ hm hx -
    exact ⟨hta.move hsa hm, x ++ da, by rw [hx, hda, List.append_assoc],
      charged_move hsa hta hplain hm hx hca⟩
  obtain ⟨-, d', hd', hcharged⟩ := key
  have heq : d = d' := (List.append_left_inj f.journal).1 (hd.symm.trans hd')
  rw [heq]
  exact hcharged hg

/-- What happened last to the secret of a charged key was not a withdrawal, and it was not released
since. -/
theorem ChargedSince.last {f₀ : Floor} {s : SecretRef} (h : ChargedSince f₀ s d) :
    touching s d = [] ∧ f₀.Charged s.key ∨
      ∃ x, (touching s d).head? = some x ∧ x ≠ .withdrew s ∧ Since (· = x) (Deed.Alters s) d := by
  have halters : ∀ {y : Deed}, y.touched? ≠ some s → ¬ y.Discharges s → ¬ y.Alters s := by
    rintro y htouched hkept (htouched' | rfl)
    · exact htouched htouched'
    · exact hkept rfl
  cases hlast : touching s d with
  | nil =>
      have huntouched : ∀ x ∈ d, x.touched? ≠ some s := by
        simpa [touching, List.filter_eq_nil_iff] using hlast
      rcases h with ⟨recent, x, before, rfl, rfl, -⟩ | ⟨h₀, -⟩
      · exact absurd rfl (huntouched (.wrote s) (by simp))
      · exact Or.inl ⟨rfl, h₀⟩
  | cons x rest =>
      right
      obtain ⟨recent, before, rfl, hrecent, hx, -⟩ := List.filter_eq_cons_iff.1 hlast
      rw [decide_eq_true_iff] at hx
      have huntouched : ∀ y ∈ recent, y.touched? ≠ some s := by simpa using hrecent
      -- going back from the end, the last change comes no later than the last write
      have hkept : (∀ y ∈ recent, ¬ y.Discharges s) ∧ (x = .wrote s ∨ ¬ x.Discharges s) := by
        rcases h with hwrote | ⟨-, hnone⟩
        · rcases since_append.1 hwrote with ⟨later, y, earlier, rfl, rfl, -⟩ | ⟨hrecent, hrest⟩
          · exact absurd rfl (huntouched (.wrote s) (by simp))
          · exact ⟨hrecent, (since_cons.1 hrest).imp_right And.left⟩
        · refine ⟨fun y hy => hnone y (List.mem_append_left _ hy), Or.inr ?_⟩
          exact hnone x (List.mem_append_right _ List.mem_cons_self)
      refine ⟨x, rfl, ?_, recent, x, before, rfl, rfl, fun y hy => ?_⟩
      · rintro rfl
        rcases hkept.2 with heq | hnot
        · cases heq
        · exact hnot rfl
      · exact halters (huntouched y hy) (hkept.1 y hy)

end Floor

end IngressTls
