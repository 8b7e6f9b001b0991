import IngressTls.Proofs.Manager.Retention

set_option autoImplicit false

/-! # What the manager holds quota for

An issuance reserves, and commits or gives up what it has reserved; a release gives back what was
committed, at once or through the worker that issues for the key. Between them they account for the
quota of a key: as soon as no worker issues for it, the key holds the number of hosts of the last
certificate that was stored for it without a release during the issuance or afterwards. An issuance
that fails changes nothing, and after a release nothing is held.

The operations never meet: no transaction is opened for a key that has one open.

Main statements: `Accounted.step` and `quota_accounted`.
-/

namespace IngressTls

/-- What counts for the quota that a key holds. -/
inductive Mark where
  /-- A worker has taken a request. -/
  | began (request : Request)
  /-- A worker has learned that its certificate is stored. -/
  | stored (request : Request)
  /-- A secret was released. -/
  | released (secret : SecretRef)
  deriving DecidableEq

namespace Mark

/-- A worker has taken a request for a key. -/
def IsStart (k : String) : Mark → Prop
  | began r => r.key = k
  | stored _ | released _ => False

/-- A key was released. -/
def IsRelease (k : String) : Mark → Prop
  | released s => s.key = k
  | began _ | stored _ => False

/-- A certificate for a key was stored, or the key was released. -/
def Settles (k : String) : Mark → Prop
  | stored r => r.key = k
  | released s => s.key = k
  | began _ => False

theorem IsRelease.settles {k : String} {x : Mark} (h : x.IsRelease k) : x.Settles k := by
  cases x with
  | released s => exact h
  | began r => exact h.elim
  | stored r => exact h.elim

end Mark

variable {k : String} {n₀ n : Int} {r : Request} {x : Mark} {marks : List Mark}

/-- The key was not released since a worker has taken the last request for it. -/
def Undisturbed (k : String) (marks : List Mark) : Prop :=
  Since (Mark.IsStart k) (Mark.IsRelease k) marks

/-- The certificate for a request is the last one that was stored for its key, and the key was
released neither during the issuance nor afterwards. -/
def Secures (r : Request) (marks : List Mark) : Prop :=
  ∃ later earlier, marks = later ++ .stored r :: earlier ∧ (∀ x ∈ later, ¬ x.Settles r.key) ∧
    Undisturbed r.key earlier

theorem undisturbed_cons (hstart : ¬ x.IsStart k) (hrelease : ¬ x.IsRelease k) :
    Undisturbed k (x :: marks) ↔ Undisturbed k marks := by
  rw [Undisturbed, since_cons, or_iff_right hstart, and_iff_right hrelease]
  rfl

theorem secures_cons : Secures r (x :: marks) ↔
    (x = .stored r ∧ Undisturbed r.key marks) ∨ (¬ x.Settles r.key ∧ Secures r marks) := by
  constructor
  · rintro ⟨later, earlier, heq, hlater, hundisturbed⟩
    cases later with
    | nil =>
        obtain ⟨rfl, rfl⟩ := List.cons.inj heq
        exact Or.inl ⟨rfl, hundisturbed⟩
    | cons y later =>
        obtain ⟨rfl, rfl⟩ := List.cons.inj heq
        refine Or.inr ⟨hlater x List.mem_cons_self, later, earlier, rfl, ?_, hundisturbed⟩
        exact fun y hy => hlater y (List.mem_cons_of_mem _ hy)
  · rintro (⟨rfl, hundisturbed⟩ | ⟨hx, later, earlier, rfl, hlater, hundisturbed⟩)
    · exact ⟨[], marks, rfl, (fun y hy => by cases hy), hundisturbed⟩
    · refine ⟨x :: later, earlier, rfl, fun y hy => ?_, hundisturbed⟩
      rcases List.mem_cons.1 hy with rfl | hy
      · exact hx
      · exact hlater y hy

theorem Secures.undisturbed (h : Secures r marks) : Undisturbed r.key marks := by
  obtain ⟨later, earlier, rfl, hlater, hundisturbed⟩ := h
  have hstored : Undisturbed r.key (.stored r :: earlier) :=
    (undisturbed_cons id id).2 hundisturbed
  exact Since.append hstored fun y hy hrelease => hlater y hy hrelease.settles

/-! ## The amount of a key -/

/-- What a key holds that held an amount before. -/
structure HoldsAmount (k : String) (n₀ : Int) (marks : List Mark) (n : Int) : Prop where
  /-- The number of hosts of the last certificate that was stored and not released. -/
  secured : ∀ r, r.key = k → Secures r marks → n = r.domains.size
  /-- Nothing after a release, if there is no such certificate. -/
  returned : (∀ r, r.key = k → ¬ Secures r marks) → (∃ x ∈ marks, x.IsRelease k) → n = 0
  /-- What it held before, if it was not released either. -/
  untouched : (∀ r, r.key = k → ¬ Secures r marks) → (∀ x ∈ marks, ¬ x.IsRelease k) → n = n₀

theorem HoldsAmount.nil (k : String) (n₀ : Int) : HoldsAmount k n₀ [] n₀ where
  secured := by
    rintro r - ⟨later, earlier, heq, -⟩
    simp at heq
  returned := by
    rintro - ⟨x, hx, -⟩
    cases hx
  untouched := fun _ _ => rfl

/-- What settles nothing for the key changes nothing. -/
theorem HoldsAmount.other (h : HoldsAmount k n₀ marks n) (hx : ¬ x.Settles k) :
    HoldsAmount k n₀ (x :: marks) n := by
  have hsecures : ∀ r, r.key = k → (Secures r (x :: marks) ↔ Secures r marks) := by
    rintro r rfl
    rw [secures_cons, or_iff_right, and_iff_right hx]
    rintro ⟨rfl, -⟩
    exact hx rfl
  have hnone : (∀ r, r.key = k → ¬ Secures r (x :: marks)) →
      ∀ r, r.key = k → ¬ Secures r marks := fun hall r hr => (hsecures r hr).not.1 (hall r hr)
  refine ⟨fun r hr hsec => h.secured r hr ((hsecures r hr).1 hsec), fun hall hex => ?_,
    fun hall hnot => ?_⟩
  · obtain ⟨y, hy, hrelease⟩ := hex
    rcases List.mem_cons.1 hy with rfl | hy
    · exact absurd hrelease.settles hx
    · exact h.returned (hnone hall) ⟨y, hy, hrelease⟩
  · exact h.untouched (hnone hall) fun y hy => hnot y (List.mem_cons_of_mem _ hy)

/-- A certificate is stored after an issuance without a release. -/
theorem HoldsAmount.stored (r : Request) (hundisturbed : Undisturbed r.key marks) :
    HoldsAmount r.key n₀ (.stored r :: marks) r.domains.size := by
  have hself : Secures r (.stored r :: marks) := secures_cons.2 (Or.inl ⟨rfl, hundisturbed⟩)
  refine ⟨fun r' hr' hsec => ?_, fun hall _ => absurd hself (hall r rfl),
    fun hall _ => absurd hself (hall r rfl)⟩
  rcases secures_cons.1 hsec with ⟨heq, -⟩ | ⟨hnot, -⟩
  · rw [Mark.stored.inj heq]
  · exact absurd hr'.symm hnot

/-- A certificate is stored although the key was released during the issuance. -/
theorem HoldsAmount.disturbed (h : HoldsAmount r.key n₀ marks n)
    (hdisturbed : ¬ Undisturbed r.key marks) : HoldsAmount r.key n₀ (.stored r :: marks) n := by
  have hnone : ∀ r', r'.key = r.key → ¬ Secures r' marks := by
    intro r' hr' hsec
    rw [← hr'] at hdisturbed
    exact hdisturbed hsec.undisturbed
  refine ⟨fun r' hr' hsec => ?_, fun _ hex => ?_, fun _ hnot => ?_⟩
  · rcases secures_cons.1 hsec with ⟨-, hundisturbed⟩ | ⟨-, hsec⟩
    · rw [hr'] at hundisturbed
      exact absurd hundisturbed hdisturbed
    · exact absurd hsec (hnone r' hr')
  · obtain ⟨y, hy, hrelease⟩ := hex
    rcases List.mem_cons.1 hy with rfl | hy
    · exact hrelease.elim
    · exact h.returned hnone ⟨y, hy, hrelease⟩
  · exact h.untouched hnone fun y hy => hnot y (List.mem_cons_of_mem _ hy)

theorem HoldsAmount.released (s : SecretRef) : HoldsAmount s.key n₀ (.released s :: marks) 0 := by
  refine ⟨fun r hr hsec => ?_, fun _ _ => rfl, fun _ hnot => ?_⟩
  · rcases secures_cons.1 hsec with ⟨heq, -⟩ | ⟨hnot, -⟩
    · cases heq
    · exact absurd hr.symm hnot
  · exact absurd rfl (hnot _ List.mem_cons_self)

/-! ## The manager -/

/-- The manager accounts for the quota of a key. -/
structure Accounted (m : Manager) (k : String) (n₀ : Int) (marks : List Mark) : Prop where
  /-- Nobody issues for the key. -/
  free : m.inFlight.find? k = none → HoldsAmount k n₀ marks (m.quota.acquiredBy k)
  /-- A worker issues for it and has not been told of a release. -/
  issuing : m.inFlight.find? k = some false →
    Undisturbed k marks ∧ HoldsAmount k n₀ marks (m.quota.acquiredBy k)
  /-- A worker has been told, and will give back what is held. -/
  told : m.inFlight.find? k = some true → ¬ Undisturbed k marks ∧ HoldsAmount k n₀ marks 0

theorem Accounted.of_free {m : Manager} (hk : m.inFlight.find? k = none)
    (h : HoldsAmount k n₀ marks (m.quota.acquiredBy k)) : Accounted m k n₀ marks where
  free := fun _ => h
  issuing := fun hin => by cases hk.symm.trans hin
  told := fun hin => by cases hk.symm.trans hin

theorem Accounted.of_issuing {m : Manager} (hk : m.inFlight.find? k = some false)
    (hundisturbed : Undisturbed k marks)
    (h : HoldsAmount k n₀ marks (m.quota.acquiredBy k)) : Accounted m k n₀ marks where
  free := fun hin => by cases hk.symm.trans hin
  issuing := fun _ => ⟨hundisturbed, h⟩
  told := fun hin => by cases hk.symm.trans hin

theorem Accounted.of_told {m : Manager} (hk : m.inFlight.find? k = some true)
    (hdisturbed : ¬ Undisturbed k marks) (h : HoldsAmount k n₀ marks 0) :
    Accounted m k n₀ marks where
  free := fun hin => by cases hk.symm.trans hin
  issuing := fun hin => by cases hk.symm.trans hin
  told := fun _ => ⟨hdisturbed, h⟩

theorem Accounted.congr {m m' : Manager} (h : Accounted m k n₀ marks)
    (hinFlight : m'.inFlight.find? k = m.inFlight.find? k)
    (hacquired : m'.quota.acquiredBy k = m.quota.acquiredBy k) : Accounted m' k n₀ marks := by
  refine ⟨fun hk => ?_, fun hk => ?_, fun hk => ?_⟩
  · rw [hacquired]
    exact h.free (hinFlight ▸ hk)
  · rw [hacquired]
    exact h.issuing (hinFlight ▸ hk)
  · exact h.told (hinFlight ▸ hk)

/-- What concerns another key. -/
theorem Accounted.other {m : Manager} (h : Accounted m k n₀ marks) (hstart : ¬ x.IsStart k)
    (hsettles : ¬ x.Settles k) : Accounted m k n₀ (x :: marks) := by
  have hrelease : ¬ x.IsRelease k := fun hx => hsettles hx.settles
  refine ⟨fun hk => (h.free hk).other hsettles, fun hk => ?_, fun hk => ?_⟩
  · obtain ⟨hundisturbed, hholds⟩ := h.issuing hk
    exact ⟨(undisturbed_cons hstart hrelease).2 hundisturbed, hholds.other hsettles⟩
  · obtain ⟨hdisturbed, hholds⟩ := h.told hk
    exact ⟨(undisturbed_cons hstart hrelease).not.2 hdisturbed, hholds.other hsettles⟩

namespace Quota

/-- A transaction is refused as pending only if one is open. -/
theorem reserve_ne_pending {q : Quota} {resource : String}
    (hopen : q.pending.find? resource = none) (amount : Int) (other : String) :
    q.reserve resource amount ≠ .error (.pending other) := by
  have hfree : q.pending.has resource = false := Table.has_eq_false_iff.2 hopen
  have hcheck : q.check resource amount ≠ .error (.pending other) := by
    rw [check, hfree]
    split
    · next habsurd => cases habsurd
    · split
      · simp
      · simp
  have hpre : q.precheck resource amount ≠ .error (.pending other) := by
    rw [precheck]
    split
    · simp
    · split
      · simp
      · split
        · simp
        · exact hcheck
  rw [reserve]
  split
  · next e he =>
      intro heq
      cases heq
      exact hpre he
  · rw [register, hfree]
    split
    · simp
    · cases hok : q.check resource amount with
      | error e =>
          intro heq
          rw [hok] at hcheck
          exact hcheck (by simpa [Except.map] using heq)
      | ok _ => simp [Except.map]

end Quota

/-! ## Steps -/

namespace Floor

/-- What a step says that counts for the quota. -/
def mark? (f : Floor) (e : FloorEvent) (g : Floor) : Option Mark :=
  match e with
  | .take i =>
    match g.post i with
    | .reading r none => some (.began r)
    | _ => none
  | .resume i =>
    match f.post i with
    | .storing r _ (some (.ok ())) => some (.stored r)
    | _ => none
  | .release s => some (.released s)
  | _ => none

/-- What a run says that counts for the quota, the last of it first. -/
def history (f : Floor) : List FloorEvent → List Mark
  | [] => []
  | e :: es =>
    match f.step? e with
    | none => []
    | some g => history g es ++ (mark? f e g).toList

end Floor

open Floor

variable {f g : Floor}

/-- A worker ends an issuance. If it was told of a release it gives back what the key holds. -/
theorem Accounted.conclude {m : Manager} (h : Accounted m k n₀ marks) (henabled : 0 < m.quota.max)
    (hopen : m.quota.pending.find? r.key = none) (i : Nat) (result : Except Error Unit) :
    Accounted ((f.setManager m).conclude i r result).manager k n₀ marks := by
  have hinFlight := inFlight_conclude (f.setManager m) i r result
  have hquota := quota_conclude (f.setManager m) i r result
  change _ = m.inFlight.erase r.key at hinFlight
  change _ = if m.isReleased r.key then m.quota.release r.key else m.quota at hquota
  by_cases hk : k = r.key
  · subst hk
    have hgone : ((f.setManager m).conclude i r result).manager.inFlight.find? r.key = none := by
      rw [hinFlight, Table.find?_erase, if_pos rfl]
    refine .of_free hgone ?_
    rw [hquota]
    cases hflag : m.inFlight.find? r.key with
    | none =>
        rw [Manager.isReleased_eq_false.2 (by simp [hflag])]
        exact h.free hflag
    | some flag =>
        cases flag with
        | false =>
            rw [Manager.isReleased_eq_false.2 (by simp [hflag])]
            exact (h.issuing hflag).2
        | true =>
            rw [if_pos (Manager.isReleased_eq_true.2 hflag),
              Quota.acquiredBy_release henabled hopen, if_pos rfl]
            exact (h.told hflag).2
  · refine h.congr ?_ ?_
    · rw [hinFlight, Table.find?_erase, if_neg hk]
    · rw [hquota]
      split
      · rw [Quota.acquiredBy_release henabled hopen, if_neg hk]
      · rfl

/-- A worker looks for a key, and begins with a request if there is one. -/
theorem Accounted.begin (hs : f.Sound) (h : Accounted f.manager k n₀ marks) {i : Nat}
    (hi : f.post i = .idle) : Accounted (f.begin i).manager k n₀
      ((f.mark? (.take i) (f.begin i)).toList ++ marks) := by
  have hend := fun p => (post_setPost (ne_ended_of_idle hi) p i).trans (if_pos rfl)
  have hbegun := begun f i
  generalize f.begin i = g at hbegun ⊢
  have hmark : ∀ {p : Post}, g.post i = p → f.mark? (.take i) g =
      match p with
      | .reading r none => some (.began r)
      | _ => none := fun heq => by rw [← heq]; rfl
  cases hbegun with
  | @waited m taken =>
      obtain ⟨q, -, rfl⟩ := Manager.take_eq taken
      rw [hmark hi]
      exact h.congr rfl rfl
  | @left m taken =>
      obtain ⟨q, -, rfl⟩ := Manager.take_eq taken
      rw [hmark (hend .ended)]
      exact h.congr rfl rfl
  | @skipped m j taken none =>
      obtain ⟨hquota, hinFlight⟩ := hs.skip_facts taken
      rw [hmark hi]
      exact h.congr (hinFlight k) (congrArg (fun q : Quota => q.acquiredBy k) hquota)
  | @started m j r taken some =>
      have hkey : r.key = j := hs.keyed j r some
      obtain ⟨q, hq, rfl⟩ := Manager.take_eq taken
      obtain ⟨-, hnew, -⟩ := hs.tidy.take_key hq
      rw [hmark (hend (.reading r .none))]
      show Accounted _ k n₀ (.began r :: marks)
      by_cases hk : k = j
      · -- nobody issued for the key, and now a worker does that has not been told
        have hfree : f.manager.inFlight.find? k = .none := by
          refine Table.has_eq_false_iff.1 (Bool.eq_false_iff.2 fun hin => ?_)
          exact hnew (hk ▸ (hs.held k).2 ((hs.inFlight k).1 hin))
        refine .of_issuing ?_ (since_cons.2 (Or.inl (hkey.trans hk.symm))) ((h.free hfree).other id)
        show (f.manager.inFlight.insert j false).find? k = Option.some false
        rw [Table.find?_insert, if_pos hk]
      · have hother : r.key ≠ k := fun heq => hk (heq.symm.trans hkey)
        refine Accounted.other (x := .began r) (h.congr ?_ rfl) hother id
        show (f.manager.inFlight.insert j false).find? k = _
        rw [Table.find?_insert, if_neg hk]

theorem Accounted.release (hs : f.Sound) (henabled : 0 < f.manager.quota.max)
    (h : Accounted f.manager k n₀ marks) (s : SecretRef) :
    Accounted (f.manager.release s) k n₀ (.released s :: marks) := by
  obtain ⟨hflight, heq⟩ | ⟨hfree, heq⟩ := Manager.release_cases f.manager s
  · rw [heq]
    by_cases hk : k = s.key
    · -- the worker is told
      subst hk
      have hflag : (f.manager.inFlight.insert s.key true).find? s.key = some true := by
        rw [Table.find?_insert, if_pos rfl]
      refine .of_told hflag (fun hundisturbed => ?_) (.released s)
      rcases since_cons.1 hundisturbed with hstart | ⟨hrelease, -⟩
      · exact hstart
      · exact hrelease rfl
    · have hother : s.key ≠ k := fun heq => hk heq.symm
      refine Accounted.other (x := .released s) (h.congr ?_ rfl) id hother
      show (f.manager.inFlight.insert s.key true).find? k = _
      rw [Table.find?_insert, if_neg hk]
  · rw [heq]
    have hopen : f.manager.quota.pending.find? s.key = none := hs.pending_free hfree
    have hacquired := Quota.acquiredBy_release henabled hopen k
    by_cases hk : k = s.key
    · subst hk
      refine .of_free (Table.has_eq_false_iff.1 hfree) ?_
      show HoldsAmount _ _ _ ((f.manager.quota.release s.key).acquiredBy s.key)
      rw [hacquired, if_pos rfl]
      exact .released s
    · have hother : s.key ≠ k := fun heq => hk heq.symm
      exact Accounted.other (x := .released s) (h.congr rfl (hacquired.trans (if_neg hk))) id hother

/-- A worker learns that its certificate is stored, and commits. -/
theorem Accounted.commit (hs : f.Sound) (h : Accounted f.manager k n₀ marks) {i : Nat}
    {sec : Secret} {a : Option (Except Error Unit)} (hi : f.post i = .storing r sec a)
    (hunreleased : f.manager.isReleased r.key = false) :
    Accounted { f.manager with
      inFlight := f.manager.inFlight.erase r.key
      quota := f.manager.quota.commit r.key } k n₀ (.stored r :: marks) := by
  have hpending := hs.reserved i r (by rw [hi]; rfl)
  have hacquired := Quota.acquiredBy_commit hpending k
  have hbusy : f.manager.inFlight.has r.key = true :=
    (hs.inFlight r.key).2 ⟨i, keyAt_of_request (by rw [hi]; rfl)⟩
  by_cases hk : k = r.key
  · subst hk
    have hissuing : f.manager.inFlight.find? r.key = some false := by
      rw [Manager.isReleased_eq_false] at hunreleased
      cases hflag : f.manager.inFlight.find? r.key with
      | none =>
          rw [Table.has, hflag] at hbusy
          cases hbusy
      | some flag =>
          cases flag with
          | false => rfl
          | true => exact absurd hflag hunreleased
    have hgone : (f.manager.inFlight.erase r.key).find? r.key = none := by
      rw [Table.find?_erase, if_pos rfl]
    refine .of_free hgone ?_
    show HoldsAmount _ _ _ ((f.manager.quota.commit r.key).acquiredBy r.key)
    rw [hacquired, if_pos rfl]
    exact .stored r (h.issuing hissuing).1
  · have hother : r.key ≠ k := fun heq => hk heq.symm
    refine Accounted.other (x := .stored r) (h.congr ?_ (hacquired.trans (if_neg hk))) id hother
    show (f.manager.inFlight.erase r.key).find? k = _
    rw [Table.find?_erase, if_neg hk]

/-- A worker learns that its certificate is stored, and has been told of a release. -/
theorem Accounted.recall {m : Manager} (h : Accounted m k n₀ marks)
    (hreleased : m.isReleased r.key = true) : Accounted m k n₀ (.stored r :: marks) := by
  by_cases hk : k = r.key
  · subst hk
    have hflag := Manager.isReleased_eq_true.1 hreleased
    obtain ⟨hdisturbed, hholds⟩ := h.told hflag
    exact .of_told hflag ((undisturbed_cons id id).not.2 hdisturbed) (hholds.disturbed hdisturbed)
  · have hother : r.key ≠ k := fun heq => hk heq.symm
    exact Accounted.other (x := .stored r) h id hother

theorem Accounted.step {e : FloorEvent} (hs : f.Sound) (henabled : 0 < f.manager.quota.max)
    (h : Accounted f.manager k n₀ marks) (hstep : f.step? e = some g) :
    Accounted g.manager k n₀ ((f.mark? e g).toList ++ marks) := by
  have hrollback : ∀ r : Request, Accounted (f.manager.rollback r) k n₀ marks := fun _ =>
    h.congr rfl rfl
  have hgiven : ∀ r : Request, (f.manager.rollback r).quota.pending.find? r.key = none := by
    intro r
    exact (Quota.pending_find?_rollback _ _ _).trans (if_pos rfl)
  cases turn_of_step? hstep with
  | began idle awake => exact h.begin hs idle
  | @informed i r a reading =>
      have hi : (f.post i).request? = some r := by rw [reading]; rfl
      have hopen := hs.pending_eq_none_of_unreserved hi (by rw [reading]; rfl)
      have hnone : ∀ g, f.mark? (.resume i) g = none := fun g => by simp [mark?, reading]
      rw [hnone]
      obtain ⟨e, heq⟩ | ⟨existing, q, -, -, hq, heq⟩ := f.manager.afterRead_cases r a
      · rw [heq, advance_ended]
        exact h.conclude henabled hopen i _
      · obtain ⟨-, -, rfl⟩ := Quota.reserve_eq_ok hq
        rw [heq]
        exact h.congr rfl rfl
  | @ordered i r a ordering =>
      obtain ⟨result, heq, -⟩ | ⟨c, -, -, heq⟩ := f.manager.afterOrder_cases r a
      · rw [heq, advance_ended]
        exact (hrollback r).conclude henabled (hgiven r) i _
      · rw [heq]
        exact h
  | @stored i r sec a storing =>
      obtain ⟨e, rfl, heq⟩ | ⟨rfl, hreleased, heq⟩ | ⟨rfl, hunreleased, heq⟩ :=
        f.manager.afterStore_cases r a
      · have hnone : ∀ g, f.mark? (.resume i) g = none := fun g => by simp [mark?, storing]
        rw [hnone, heq, advance_ended]
        exact (hrollback r).conclude henabled (hgiven r) i _
      · have hmark : ∀ g, f.mark? (.resume i) g = some (.stored r) := fun g => by
          simp [mark?, storing]
        rw [hmark, heq]
        exact Accounted.recall (hrollback r) hreleased
      · have hmark : ∀ g, f.mark? (.resume i) g = some (.stored r) := fun g => by
          simp [mark?, storing]
        rw [hmark, heq, advance_ended]
        refine (h.commit hs storing hunreleased).conclude ?_ ?_ i _
        · exact lt_of_lt_of_eq henabled (Quota.max_commit _ _).symm
        · exact (Quota.pending_find?_commit _ _ _).trans (if_pos rfl)
  | @cleared i r a withdrawing =>
      have hi : (f.post i).request? = some r := by rw [withdrawing]; rfl
      have hopen := hs.pending_eq_none_of_unreserved hi (by rw [withdrawing]; rfl)
      have hnone : ∀ g, f.mark? (.resume i) g = none := fun g => by simp [mark?, withdrawing]
      rw [hnone, Manager.afterWithdraw, advance_ended]
      exact h.conclude henabled hopen i _
  | @renewed listing threshold now scan valid =>
      obtain ⟨-, hinFlight, hquota, -⟩ := Manager.obtainAll_facts f.manager
        ((listing.filterMap (f.manager.due? threshold now)).map Bookkeeping.toRequest)
      rw [← Manager.afterRenewalListing_fst] at hinFlight hquota
      refine h.congr ?_ ?_
      · exact congrArg (fun t : Table Bool => t.find? k) hinFlight
      · exact congrArg (fun q : Quota => q.acquiredBy k) hquota
  | released s => exact h.release hs henabled s
  | rang timer => exact h.congr rfl rfl
  | asked r => exact h.congr rfl rfl
  | stopped => exact h.congr rfl rfl
  | _ => exact h

/-- No step changes the ceiling. -/
theorem Floor.max_move (hm : Move f g) : g.manager.quota.max = f.manager.quota.max := by
  have hconclude : ∀ (m : Manager) (i : Nat) (r : Request) (result : Except Error Unit),
      ((f.setManager m).conclude i r result).manager.quota.max = m.quota.max := by
    intro m i r result
    rw [quota_conclude]
    split
    · exact Quota.max_release _ _
    · rfl
  cases hm with
  | waited idle taken =>
      obtain ⟨q, -, rfl⟩ := Manager.take_eq taken
      rfl
  | left idle taken =>
      obtain ⟨q, -, rfl⟩ := Manager.take_eq taken
      rfl
  | @skipped i m k idle taken none =>
      obtain ⟨q, -, rfl⟩ := Manager.take_eq taken
      show ((Manager.startOn { f.manager with queue := q } k).1.finish k).quota.max = _
      rw [Manager.finish_quota]
      split
      · exact Quota.max_release _ _
      · rfl
  | started idle taken some =>
      obtain ⟨q, -, rfl⟩ := Manager.take_eq taken
      rfl
  | failed e reading => exact hconclude f.manager _ _ _
  | reserved reading ours ok =>
      obtain ⟨-, -, rfl⟩ := Quota.reserve_eq_ok ok
      rfl
  | gaveUp standing why => exact hconclude _ _ _ _
  | stored storing unreleased => exact (hconclude _ _ _ _).trans (Quota.max_commit _ _)
  | cleared withdrawing => exact hconclude f.manager _ _ _
  | @renewed listing threshold now scan =>
      show (f.manager.afterRenewalListing threshold now (.ok listing)).1.quota.max = _
      rw [Manager.afterRenewalListing_fst, (Manager.obtainAll_facts _ _).2.2.1]
  | released s =>
      show (f.manager.release s).quota.max = _
      obtain ⟨-, heq⟩ | ⟨-, heq⟩ := Manager.release_cases f.manager s
      · rw [heq]
      · rw [heq]
        exact Quota.max_release _ _
  | _ => rfl

theorem Floor.max_run? {es : List FloorEvent} (hrun : f.run? es = some g) :
    g.manager.quota.max = f.manager.quota.max := by
  induction es generalizing f with
  | nil =>
      cases hrun
      rfl
  | cons e es ih =>
      rw [run?_cons] at hrun
      obtain ⟨f', hstep, hrest⟩ := Option.bind_eq_some_iff.1 hrun
      exact (ih hrest).trans (max_move (move_of_step? hstep))

theorem Floor.max_start (settings : ManagerSettings) (max : Int)
    (listing : Except Error (List Secret)) (shelf : Snapshot Secret) :
    (start settings max listing shelf).manager.quota.max = max := by
  obtain ⟨q, -, hmax, -, heq⟩ := restored_eq settings max listing
  have hmanager : (start settings max listing shelf).manager =
      ⟨settings, .empty, .empty, .empty, true, q⟩ := heq
  rw [hmanager]
  exact hmax

theorem Accounted.run? {es : List FloorEvent} (hs : f.Sound) (henabled : 0 < f.manager.quota.max)
    (h : Accounted f.manager k n₀ marks) (hrun : f.run? es = some g) :
    Accounted g.manager k n₀ (f.history es ++ marks) := by
  induction es generalizing f marks with
  | nil =>
      cases hrun
      exact h
  | cons e es ih =>
      rw [run?_cons] at hrun
      obtain ⟨f', hstep, hrest⟩ := Option.bind_eq_some_iff.1 hrun
      have hmove := move_of_step? hstep
      have hend := ih (hs.move hmove) ((max_move hmove).symm ▸ henabled)
        (h.step hs henabled hstep) hrest
      rw [history, hstep]
      dsimp only
      rwa [List.append_assoc]

/-! ## Transactions -/

namespace Floor

/-- An answer reaches a worker, and this is how it goes on. -/
inductive GoesOn (f : Floor) : FloorEvent → Request → Manager × Progress → Prop where
  | informed {i : Nat} {r : Request} {a : Except Error (Option Secret)}
      (reading : f.post i = .reading r (some a)) :
      GoesOn f (.resume i) r (f.manager.afterRead r a)
  | ordered {i : Nat} {r : Request} (a : Except AuthorityError Certificate)
      (ordering : f.post i = .ordering r) : GoesOn f (.order i a) r (f.manager.afterOrder r a)
  | stored {i : Nat} {r : Request} {s : Secret} {a : Except Error Unit}
      (storing : f.post i = .storing r s (some a)) :
      GoesOn f (.resume i) r (f.manager.afterStore r a)
  | cleared {i : Nat} {r : Request} {a : Except Error Unit}
      (withdrawing : f.post i = .withdrawing r (some a)) :
      GoesOn f (.resume i) r (f.manager.afterWithdraw a)

/-- An event opens a transaction on a state of the quota, for a key and an amount. -/
inductive Opens (f : Floor) : FloorEvent → Quota → String → Int → Prop where
  /-- A worker reserves what a request needs. -/
  | reserve {i : Nat} {r : Request} {existing : Option Secret}
      (reading : f.post i = .reading r (some (.ok existing)))
      (ours : f.manager.isForeign existing = false) :
      Opens f (.resume i) f.manager.quota r.key r.domains.size
  /-- A key that nobody issues for gives back what it holds. -/
  | release {s : SecretRef} (free : f.manager.inFlight.has s.key = false) :
      Opens f (.release s) f.manager.quota s.key 0
  /-- A worker that was told of a release ends, and gives back what the key holds. -/
  | finish {e : FloorEvent} {r : Request} {m : Manager} {result : Except Error Unit}
      (ends : f.GoesOn e r (m, .ended result))
      (told : (m.settle r.key r result).1.isReleased r.key = true) :
      Opens f e (m.settle r.key r result).1.quota r.key 0
  /-- A worker is done with a key without a request. -/
  | skip {i : Nat} {m : Manager} {k : String} (idle : f.post i = .idle)
      (taken : f.manager.take i = (m, .key k)) (none : f.manager.requests.find? k = none)
      (told : (m.startOn k).1.isReleased k = true) :
      Opens f (.take i) (m.startOn k).1.quota k 0

/-- A worker that ends has nothing pending. -/
theorem GoesOn.unreserved {e : FloorEvent} {m : Manager} {result : Except Error Unit}
    (hs : f.Sound) (h : f.GoesOn e r (m, .ended result)) : m.quota.pending.find? r.key = none := by
  have hgiven := (Quota.pending_find?_rollback f.manager.quota r.key r.key).trans (if_pos rfl)
  generalize hnext : (m, Progress.ended result) = next at h
  cases h with
  | @informed i _ a reading =>
      have hi : (f.post i).request? = some r := by rw [reading]; rfl
      obtain ⟨e, heq⟩ | ⟨existing, q, -, -, -, heq⟩ := f.manager.afterRead_cases r a
      · cases hnext.trans heq
        exact hs.pending_eq_none_of_unreserved hi (by rw [reading]; rfl)
      · cases hnext.trans heq
  | @ordered i _ a ordering =>
      obtain ⟨result, heq, -⟩ | ⟨c, -, -, heq⟩ := f.manager.afterOrder_cases r a
      · cases hnext.trans heq
        exact hgiven
      · cases hnext.trans heq
  | @stored i _ s a storing =>
      obtain ⟨e, -, heq⟩ | ⟨-, -, heq⟩ | ⟨-, -, heq⟩ := f.manager.afterStore_cases r a
      · cases hnext.trans heq
        exact hgiven
      · cases hnext.trans heq
      · cases hnext.trans heq
        exact (Quota.pending_find?_commit _ _ _).trans (if_pos rfl)
  | @cleared i _ a withdrawing =>
      have hi : (f.post i).request? = some r := by rw [withdrawing]; rfl
      cases hnext
      exact hs.pending_eq_none_of_unreserved hi (by rw [withdrawing]; rfl)

/-- Where a transaction is opened none is open. -/
theorem Opens.unreserved {e : FloorEvent} {q : Quota} {amount : Int} (hs : f.Sound)
    (h : f.Opens e q k amount) : q.pending.find? k = none := by
  cases h with
  | @reserve i r existing reading ours =>
      have hi : (f.post i).request? = some r := by rw [reading]; rfl
      exact hs.pending_eq_none_of_unreserved hi (by rw [reading]; rfl)
  | release free => exact hs.pending_free free
  | @finish _ r m result ends told =>
      rw [(Manager.settled_settle m r.key r result).quota]
      exact ends.unreserved hs
  | skip idle taken none told =>
      obtain ⟨q, hq, rfl⟩ := Manager.take_eq taken
      obtain ⟨-, hnew, -⟩ := hs.tidy.take_key hq
      exact hs.pending_eq_none fun hbusy => hnew ((hs.held k).2 hbusy)

/-- In every run with a quota, no transaction is refused because another one is open for its key.
Between two moments at which no worker issues for a key, the key comes to hold the number of hosts
of the last certificate that was stored for it without a release during the issuance or afterwards;
without such a certificate it holds what it held before, or nothing if it was released. Nothing is
pending for it. -/
theorem quota_accounted {settings : ManagerSettings} {max : Int}
    {listing : Except Error (List Secret)} {shelf : Snapshot Secret} {es₀ es : List FloorEvent}
    {f₀ f : Floor} (henabled : 0 < max)
    (hreach : (start settings max listing shelf).run? es₀ = some f₀)
    (hrun : f₀.run? es = some f) :
    (∀ e q key amount other, f.Opens e q key amount →
      q.reserve key amount ≠ .error (.pending other)) ∧
    ∀ k, ¬ f₀.Busy k → ¬ f.Busy k → f.manager.quota.pending.find? k = none ∧
      HoldsAmount k (f₀.manager.quota.acquiredBy k) (f₀.history es) (f.manager.quota.acquiredBy k) := by
  have hs₀ : f₀.Sound := sound_run? (sound_start settings max listing shelf) hreach
  have hs : f.Sound := sound_run? hs₀ hrun
  have hmax : f₀.manager.quota.max = max :=
    (max_run? hreach).trans (max_start settings max listing shelf)
  have hfree : ∀ {g : Floor} {k : String}, g.Sound → ¬ g.Busy k →
      g.manager.inFlight.find? k = none := fun hs hk =>
    Table.has_eq_false_iff.1 (Bool.eq_false_iff.2 fun hin => hk ((hs.inFlight _).1 hin))
  refine ⟨fun e q key amount other hopens => ?_, fun k hk₀ hk => ⟨hs.pending_eq_none hk, ?_⟩⟩
  · exact Quota.reserve_ne_pending (hopens.unreserved hs) amount other
  · have hstart : Accounted f₀.manager k (f₀.manager.quota.acquiredBy k) [] :=
      .of_free (hfree hs₀ hk₀) (.nil _ _)
    have hend := hstart.run? hs₀ (hmax.symm ▸ henabled) hrun
    rw [List.append_nil] at hend
    exact hend.free (hfree hs hk)

/-- A certificate for one host is stored, and a later attempt to get one for another host fails. -/
def failsAfterStore : List FloorEvent :=
  [.obtain (requestFor "old.com"), .take 0, .serve 0 .done, .resume 0,
    .order 0 (.ok ⟨[], [], [], default, default⟩), .serve 0 .done, .resume 0,
    .obtain (requestFor "new.com"), .take 0, .serve 0 .done, .resume 0,
    .order 0 (.error (.platform 400 "refused"))]

/-- The secret still holds one host. -/
theorem quota_accounted_failsAfterStore :
    ∃ f, small.run? failsAfterStore = some f ∧
      f.manager.quota.pending.find? (requestFor "old.com").key = none ∧
      f.manager.quota.acquiredBy (requestFor "old.com").key = 1 := by
  obtain ⟨f, hrun, hidle, hhistory⟩ : ∃ f, small.run? failsAfterStore = some f ∧
      f.posts = [.idle] ∧ small.history failsAfterStore = [.began (requestFor "new.com"),
        .stored (requestFor "old.com"), .began (requestFor "old.com")] := ⟨_, rfl, rfl, rfl⟩
  have hstart : small.run? [] = some small := rfl
  obtain ⟨hpending, hholds⟩ := (quota_accounted (by decide) hstart hrun).2 _
    (not_busy_of_idle rfl) (not_busy_of_idle hidle)
  refine ⟨f, hrun, hpending, hholds.secured (requestFor "old.com") rfl ?_⟩
  rw [hhistory]
  refine ⟨[.began (requestFor "new.com")], [.began (requestFor "old.com")], rfl, ?_, ?_⟩
  · intro x hx
    cases List.mem_singleton.1 hx
    exact id
  · exact since_cons.2 (Or.inl rfl)

end Floor

end IngressTls
