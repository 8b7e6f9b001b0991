import IngressTls.Proofs.Manager.Recall

set_option autoImplicit false

/-! # What is left of a released secret

Four kinds of deeds change the secret at a place: a worker's write and its withdrawal of
what it wrote, and deletions and writes from outside. The last of them decides whether the
secret exists. A write of a secret, or its withdrawal, is *under way* while a worker has asked
for it and has not been told that it failed.

After a release of which all workers have been told nothing new comes under way. What was
under way ends with a withdrawal, unless a call fails. So the secret is missing in the end
exactly if it was missing at the release, or something was under way for it, or somebody outside
has deleted it since.

Main statements: `settles_run?`, `Recalled.absent_iff` and `Recalled.returned`.
-/

namespace IngressTls

/-- The secret that a deed changes. -/
def Deed.touched? : Deed → Option SecretRef
  | wrote s | withdrew s | removed s | placed s => some s
  | asked _ | renewed _ | released _ | looked _ | failed _ => none

/-- The deeds that change a secret. -/
def touching (s : SecretRef) (d : List Deed) : List Deed := d.filter fun x => x.touched? = some s

theorem mem_touching {s : SecretRef} {d : List Deed} {x : Deed} :
    x ∈ touching s d ↔ x ∈ d ∧ x.touched? = some s := by
  rw [touching, List.mem_filter, decide_eq_true_iff]

theorem touching_notes (s t : SecretRef) (service : Service) :
    touching s (service.notes t) = [] := by
  cases service with
  | done => rfl
  | refused e => rfl
  | lost e => rfl

theorem touching_append (s : SecretRef) (d d' : List Deed) :
    touching s (d ++ d') = touching s d ++ touching s d' :=
  List.filter_append _ _

theorem touching_singleton {s t : SecretRef} {x : Deed} (h : x.touched? = some t) :
    touching s [x] = if t = s then [x] else [] := by
  rw [touching, List.filter_singleton]
  simp [h]

theorem SecretRef.place_inj {s t : SecretRef} : s.place = t.place ↔ s = t := by
  constructor
  · intro h
    cases s
    cases t
    simpa [place] using h
  · rintro rfl
    rfl

/-- Whether a worker has asked for a write or a withdrawal of a secret and has not been told
that it failed. -/
def Post.IsUnderWay (s : SecretRef) : Post → Prop
  | storing r _ a => r.target = s ∧ ∀ e, a ≠ some (.error e)
  | withdrawing r a => r.target = s ∧ a = none
  | idle | reading _ _ | ordering _ | ended => False

theorem Post.IsUnderWay.request {s : SecretRef} {p : Post} (h : p.IsUnderWay s) :
    ∃ r, p.request? = some r ∧ r.target = s := by
  cases p with
  | storing r sec a => exact ⟨r, rfl, h.1⟩
  | withdrawing r a => exact ⟨r, rfl, h.1⟩
  | idle => exact h.elim
  | reading r a => exact h.elim
  | ordering r => exact h.elim
  | ended => exact h.elim

namespace Floor

/-! ## The secret at a place -/

theorem secret?_insert {f : Floor} {sec : Secret} {t : SecretRef}
    (h : sec.metadata.key = t.place) (s : SecretRef) :
    (f.insert sec).secret? s = if t = s then some sec else f.secret? s := by
  simp only [secret?, insert, h, Snapshot.lookup_insert, SecretRef.place_inj]
  by_cases hts : t = s
  · simp [hts]
  · have hst : ¬ s = t := fun heq => hts heq.symm
    simp [hts, hst]

theorem secret?_erase (f : Floor) (t s : SecretRef) :
    (f.erase t).secret? s = if t = s then none else f.secret? s := by
  simp only [secret?, erase, Snapshot.lookup_erase, SecretRef.place_inj]
  by_cases hts : t = s
  · simp [hts]
  · have hst : ¬ s = t := fun heq => hts heq.symm
    simp [hts, hst]

/-! ## Where secrets stand -/

/-- Every secret stands where it says. -/
def Filed (f : Floor) : Prop :=
  ∀ k o, f.shelf.lookup k = some o → o.metadata.key = k ∧ o.ref.place = k

section Filed

variable {f g : Floor} {s : SecretRef}

theorem Filed.insert (h : f.Filed) {o : Secret} (ho : o.metadata.key = o.ref.place) :
    (f.insert o).Filed := by
  intro k o' ho'
  change (f.shelf.insert o.metadata.key o).lookup k = some o' at ho'
  rw [Snapshot.lookup_insert] at ho'
  split at ho'
  · next hk =>
      cases ho'
      exact ⟨hk.symm, ho.symm.trans hk.symm⟩
  · exact h k o' ho'

theorem Filed.erase (h : f.Filed) (t : SecretRef) : (f.erase t).Filed := by
  intro k o ho
  change (f.shelf.erase t.place).lookup k = some o at ho
  rw [Snapshot.lookup_erase] at ho
  split at ho
  · cases ho
  · exact h k o ho

theorem Filed.move (hs : f.Sound) (h : f.Filed) (hm : Move f g) : g.Filed := by
  cases hm with
  | @wrote i r sec service storing effect =>
      obtain ⟨c, rfl⟩ := hs.written i r sec none storing
      exact h.insert rfl
  | @withdrew i r service withdrawing effect => exact h.erase r.target
  | removed t => exact h.erase t
  | placed named => exact h.insert named
  | _ => exact h

/-- The secret at a place says so. -/
theorem Filed.ref_eq (h : f.Filed) {o : Secret} (ho : f.secret? s = some o) : o.ref = s :=
  SecretRef.place_inj.1 (h s.place o ho).2

/-- The secret of a place is not looked for outside namespaces. -/
theorem Filed.find?_eq (h : f.Filed) (s : SecretRef) : f.shelf.find? s.place = f.secret? s := by
  have hnone : f.shelf.lookup ⟨none, s.name⟩ = none := by
    cases ho : f.shelf.lookup ⟨none, s.name⟩ with
    | none => rfl
    | some o => cases (h _ o ho).2
  show (f.shelf.lookup s.place).or (f.shelf.lookup ⟨none, s.name⟩) = _
  rw [hnone, Option.or_none]
  rfl

end Filed

/-! ## How a step changes a secret -/

/-- What a step does to a secret and notes about it. -/
inductive Touch (f g : Floor) (s : SecretRef) : List Deed → Prop where
  | none (same : g.secret? s = f.secret? s) : Touch f g s []
  | wrote {i : Nat} {r : Request} {c : Certificate} (target : r.target = s)
      (storing : f.post i = .storing r
        (managedSecret r c f.manager.settings.controllerName) .none)
      (present : g.secret? s = some (managedSecret r c f.manager.settings.controllerName)) :
      Touch f g s [.wrote s]
  | withdrew {i : Nat} {r : Request} {a : Except Error Unit} (target : r.target = s)
      (withdrawing : f.post i = .withdrawing r .none)
      (answered : g.post i = .withdrawing r (some a)) (absent : g.secret? s = .none) :
      Touch f g s [.withdrew s]
  | removed (absent : g.secret? s = .none) : Touch f g s [.removed s]
  | placed (present : (g.secret? s).isSome) : Touch f g s [.placed s]

/-- A step that leaves the shelf as it is and notes nothing about secrets. -/
theorem touch_of_shelf {f g : Floor} (hshelf : g.shelf = f.shelf) (s : SecretRef)
    {d : List Deed} (hd : touching s d = []) : Touch f g s (touching s d) := by
  rw [hd]
  exact .none (by rw [secret?, secret?, hshelf])

theorem touch_move {f g : Floor} {d : List Deed} (hs : f.Sound) (hm : Move f g)
    (hd : g.journal = d ++ f.journal) (s : SecretRef) : Touch f g s (touching s d) := by
  -- the journal of the move says what `d` is
  have hd' : ∀ {d'}, g.journal = d' ++ f.journal → d = d' := fun h =>
    (List.append_left_inj f.journal).1 (hd.symm.trans h)
  cases hm with
  | @read i r service reading =>
      have heq : d = service.notes r.target := hd' rfl
      refine touch_of_shelf ?_ s ?_
      · rfl
      · rw [heq, touching_notes]
  | @unwritten i r sec service storing effect =>
      have heq : d = service.notes r.target := hd' rfl
      refine touch_of_shelf ?_ s ?_
      · rfl
      · rw [heq, touching_notes]
  | @unwithdrawn i r service withdrawing effect =>
      have heq : d = service.notes r.target := hd' rfl
      refine touch_of_shelf ?_ s ?_
      · rfl
      · rw [heq, touching_notes]
  | @wrote i r sec service storing effect =>
      have heq : d = service.notes r.target ++ [.wrote r.target] :=
        hd' (by rw [List.append_assoc]; rfl)
      obtain ⟨c, rfl⟩ := hs.written i r sec none storing
      have hkey : (managedSecret r c f.manager.settings.controllerName).metadata.key =
          r.target.place := rfl
      have hsecret := secret?_insert (f := f) hkey s
      rw [heq, touching_append, touching_notes, List.nil_append,
        touching_singleton (t := r.target) rfl]
      split
      · next ht =>
          subst ht
          rw [if_pos rfl] at hsecret
          exact .wrote rfl storing hsecret
      · next ht =>
          rw [if_neg ht] at hsecret
          exact .none hsecret
  | @withdrew i r service withdrawing effect =>
      have heq : d = service.notes r.target ++ [.withdrew r.target] :=
        hd' (by rw [List.append_assoc]; rfl)
      have hsecret := secret?_erase f r.target s
      rw [heq, touching_append, touching_notes, List.nil_append,
        touching_singleton (t := r.target) rfl]
      split
      · next ht =>
          subst ht
          rw [if_pos rfl] at hsecret
          have hi : (f.post i).request? = some r := by rw [withdrawing]; rfl
          refine .withdrew (a := service.answer ()) rfl withdrawing ?_ hsecret
          exact (post_of_posts (ne_ended_of_request hi) rfl i).trans (if_pos rfl)
      · next ht =>
          rw [if_neg ht] at hsecret
          exact .none hsecret
  | @renewed listing threshold now scan =>
      have heq := hd' rfl
      refine touch_of_shelf ?_ s ?_
      · rfl
      · rw [heq, touching, List.filter_eq_nil_iff]
        intro x hx
        obtain ⟨b, -, rfl⟩ := List.mem_map.1 (List.mem_reverse.1 hx)
        simp [Deed.touched?]
  | asked r =>
      have heq : d = [.asked r] := hd' rfl
      refine touch_of_shelf ?_ s ?_
      · rfl
      · rw [heq]
        rfl
  | released t =>
      have heq : d = [.released t] := hd' rfl
      refine touch_of_shelf ?_ s ?_
      · rfl
      · rw [heq]
        rfl
  | looked t =>
      have heq : d = [.looked t] := hd' rfl
      refine touch_of_shelf ?_ s ?_
      · rfl
      · rw [heq]
        rfl
  | removed t =>
      have heq : d = [.removed t] := hd' rfl
      have hsecret := secret?_erase f t s
      rw [heq, touching_singleton (t := t) rfl]
      split
      · next ht =>
          subst ht
          rw [if_pos rfl] at hsecret
          exact .removed hsecret
      · next ht =>
          rw [if_neg ht] at hsecret
          exact .none hsecret
  | @placed sec named =>
      have heq : d = [.placed sec.ref] := hd' rfl
      have hsecret := secret?_insert (f := f) named s
      rw [heq, touching_singleton (t := sec.ref) rfl]
      split
      · next ht =>
          subst ht
          rw [if_pos rfl] at hsecret
          exact .placed (congrArg Option.isSome hsecret)
      · next ht =>
          rw [if_neg ht] at hsecret
          exact .none hsecret
  | _ =>
      have heq : d = [] := hd' rfl
      refine touch_of_shelf ?_ s ?_
      · rfl
      · rw [heq]
        rfl

/-- What has touched a secret since some state decides whether it exists. -/
def Settles (f₀ f : Floor) (s : SecretRef) : List Deed → Prop
  | [] => f.secret? s = f₀.secret? s
  | x :: _ => f.secret? s = none ↔ x = .withdrew s ∨ x = .removed s

theorem Settles.move {f₀ f g : Floor} {s : SecretRef} {d d' : List Deed} (hs : f.Sound)
    (h : Settles f₀ f s (touching s d)) (hm : Move f g) (hd : g.journal = d' ++ f.journal) :
    Settles f₀ g s (touching s (d' ++ d)) := by
  rw [touching_append]
  have htouch := touch_move hs hm hd s
  generalize touching s d' = t at htouch
  cases htouch with
  | none same =>
      rw [List.nil_append]
      generalize touching s d = t at h
      cases t with
      | nil => exact same.trans h
      | cons x t =>
          show g.secret? s = none ↔ _
          rw [same]
          exact h
  | wrote target storing present =>
      refine iff_of_false (fun habsent => ?_) (by simp)
      rw [present] at habsent
      cases habsent
  | withdrew target withdrawing answered absent => exact iff_of_true absent (Or.inl rfl)
  | removed absent => exact iff_of_true absent (Or.inr rfl)
  | placed present =>
      refine iff_of_false (fun habsent => ?_) (by simp)
      rw [habsent] at present
      cases present

/-- The last deed that touched a secret decides whether it exists; without one it is what it
was. -/
theorem settles_run? {f g : Floor} {es : List FloorEvent} {d : List Deed} (hs : f.Sound)
    (hrun : f.run? es = some g) (hd : g.journal = d ++ f.journal) (s : SecretRef) :
    Settles f g s (touching s d) := by
  have key : ∃ d', g.journal = d' ++ f.journal ∧ Settles f g s (touching s d') := by
    refine run?_induction
      (P := fun g => ∃ d', g.journal = d' ++ f.journal ∧ Settles f g s (touching s d'))
      (Q := fun _ => True) ?_ hs ⟨[], rfl, rfl⟩ hrun hd fun _ _ => trivial
    rintro a b x hsa ⟨da, hda, hsettles⟩ hm hx -
    exact ⟨x ++ da, by rw [hx, hda, List.append_assoc], hsettles.move hsa hm hx⟩
  obtain ⟨d', hd', hsettles⟩ := key
  have heq : d = d' := (List.append_left_inj f.journal).1 (hd.symm.trans hd')
  rwa [heq]

/-! ## What is under way -/

/-- A write of a secret, or its withdrawal, is under way. -/
def UnderWay (f : Floor) (s : SecretRef) : Prop := ∃ i, (f.post i).IsUnderWay s

/-- Nothing new comes under way for a recalled request. -/
theorem UnderWay.back {f g : Floor} {P : Request → Prop} {s : SecretRef}
    (hr : f.Recalled P) (hP : ∀ r, r.target = s → P r) (hm : Move f g) (h : g.UnderWay s) :
    f.UnderWay s := by
  obtain ⟨d, hd⟩ := journal_move hm
  obtain ⟨j, hj⟩ := h
  have hstride := stride_move hm hd j
  generalize g.post j = p at hj hstride
  cases hstride with
  | stayed same => exact ⟨j, same ▸ hj⟩
  | @ordered r sec ordering unreleased =>
      -- the worker was told, and so it does not ask for a write
      have hi : (f.post j).request? = some r := by rw [ordering]; rfl
      rw [hr.told j r hi (hP r hj.1)] at unreleased
      cases unreleased
  | wrote storing noted => exact ⟨j, by rw [storing]; exact ⟨hj.1, fun e heq => by cases heq⟩⟩
  | unwritten storing noted => exact absurd rfl (hj.2 _)
  | recalled storing released =>
      exact ⟨j, by rw [storing]; exact ⟨hj.1, fun e heq => by cases heq⟩⟩
  | withdrew withdrawing noted => cases hj.2
  | _ => exact hj.elim

/-- What is under way for a recalled request stays so until the withdrawal takes effect, unless
a call fails. -/
theorem UnderWay.forth {f g : Floor} {P : Request → Prop} {s : SecretRef} {d : List Deed}
    (hr : f.Recalled P) (hP : ∀ r, r.target = s → P r) (hm : Move f g)
    (hd : g.journal = d ++ f.journal) (h : f.UnderWay s) :
    g.UnderWay s ∨ .withdrew s ∈ d ∨ .failed s ∈ d := by
  obtain ⟨j, hj⟩ := h
  have hstride := stride_move hm hd j
  have hunder : (g.post j).IsUnderWay s → g.UnderWay s := fun hg => ⟨j, hg⟩
  generalize g.post j = p at hunder hstride
  cases hstride with
  | stayed same => exact Or.inl (hunder (same ▸ hj))
  | wrote storing noted =>
      rw [storing] at hj
      exact Or.inl (hunder ⟨hj.1, fun e heq => by cases heq⟩)
  | unwritten storing noted =>
      rw [storing] at hj
      exact Or.inr (Or.inr (hj.1 ▸ noted))
  | recalled storing released =>
      rw [storing] at hj
      exact Or.inl (hunder ⟨hj.1, rfl⟩)
  | withdrew withdrawing noted =>
      rw [withdrawing] at hj
      exact Or.inr (hj.1 ▸ noted)
  | gaveUp standing =>
      -- a write that failed is not under way
      rcases standing with hpost | ⟨sec, e, hpost⟩
      · rw [hpost] at hj
        exact hj.elim
      · rw [hpost] at hj
        exact absurd rfl (hj.2 e)
  | @stored r sec storing unreleased =>
      -- the worker was told, and so it does not commit
      have hi : (f.post j).request? = some r := by rw [storing]; rfl
      rw [storing] at hj
      rw [hr.told j r hi (hP r hj.1)] at unreleased
      cases unreleased
  | cleared withdrawing =>
      rw [withdrawing] at hj
      cases hj.2
  | left idle =>
      rw [idle] at hj
      exact hj.elim
  | started idle stored =>
      rw [idle] at hj
      exact hj.elim
  | read reading =>
      rw [reading] at hj
      exact hj.elim
  | reserved reading =>
      rw [reading] at hj
      exact hj.elim
  | ordered ordering unreleased =>
      rw [ordering] at hj
      exact hj.elim
  | failed reading =>
      rw [reading] at hj
      exact hj.elim

/-! ## From the release to the end -/

/-- How the state after a release has come about: `d` is what has happened since. -/
structure Tracked (f₀ f : Floor) (s : SecretRef) (d : List Deed) : Prop where
  /-- A secret that was withdrawn is gone, and nothing is under way for it. -/
  withdrawn : .withdrew s ∈ d → f.secret? s = none ∧ ¬ f.UnderWay s
  /-- What was under way ends with the withdrawal, unless a call fails. -/
  busy : f₀.UnderWay s → f.UnderWay s ∨ .withdrew s ∈ d ∨ .failed s ∈ d
  /-- If nothing was under way nothing is, and only a deletion from outside changes the secret. -/
  idle : ¬ f₀.UnderWay s →
    ¬ f.UnderWay s ∧ (f.secret? s = none ↔ f₀.secret? s = none ∨ .removed s ∈ d)

theorem Tracked.start (f : Floor) (s : SecretRef) : Tracked f f s [] where
  withdrawn := fun h => by cases h
  busy := Or.inl
  idle := fun h => ⟨h, (or_iff_left List.not_mem_nil).symm⟩

/-- A worker whose withdrawal was answered is the only one that had the secret under way. -/
theorem Sound.withdraw_alone {f : Floor} (hs : f.Sound) {i : Nat} {r : Request} {s : SecretRef}
    {a : Except Error Unit} (hi : f.post i = .withdrawing r (some a)) (hr : r.target = s) :
    ¬ f.UnderWay s := by
  rintro ⟨j, hj⟩
  obtain ⟨r', hreq, ht⟩ := hj.request
  have hji : j = i := by
    refine hs.apart j i r.key ?_ (keyAt_of_request (by rw [hi]; rfl))
    rw [keyAt_of_request hreq, Request.key, Request.key, ht, hr]
  rw [hji, hi] at hj
  cases hj.2

theorem Tracked.move {f₀ f g : Floor} {P : Request → Prop} {s : SecretRef} {d d' : List Deed}
    (hs : f.Sound) (hr : f.Recalled P) (hP : ∀ r, r.target = s → P r)
    (h : Tracked f₀ f s d) (hm : Move f g) (hd : g.journal = d' ++ f.journal)
    (hplaced : .placed s ∉ d') : Tracked f₀ g s (d' ++ d) := by
  have hback : g.UnderWay s → f.UnderWay s := UnderWay.back hr hP hm
  have hmem : ∀ {x : Deed}, x.touched? = some s → (x ∈ d' ↔ x ∈ touching s d') := fun hx =>
    ⟨fun h => mem_touching.2 ⟨h, hx⟩, fun h => (mem_touching.1 h).1⟩
  have hwithdrew : .withdrew s ∈ d' ++ d ↔ .withdrew s ∈ touching s d' ∨ .withdrew s ∈ d := by
    rw [List.mem_append, hmem rfl]
  have hremoved : .removed s ∈ d' ++ d ↔ .removed s ∈ touching s d' ∨ .removed s ∈ d := by
    rw [List.mem_append, hmem rfl]
  have hbusy : f₀.UnderWay s → g.UnderWay s ∨ .withdrew s ∈ d' ++ d ∨ .failed s ∈ d' ++ d := by
    intro h₀
    rcases h.busy h₀ with hf | hold | hold
    · rcases UnderWay.forth hr hP hm hd hf with hg | hnew | hnew
      · exact Or.inl hg
      · exact Or.inr (Or.inl (List.mem_append_left _ hnew))
      · exact Or.inr (Or.inr (List.mem_append_left _ hnew))
    · exact Or.inr (Or.inl (List.mem_append_right _ hold))
    · exact Or.inr (Or.inr (List.mem_append_right _ hold))
  rw [hmem rfl] at hplaced
  have htouch := touch_move hs hm hd s
  generalize touching s d' = t at hwithdrew hremoved hplaced htouch
  cases htouch with
  | none same =>
      rw [or_iff_right List.not_mem_nil] at hwithdrew hremoved
      refine ⟨fun hw => ?_, hbusy, fun h₀ => ?_⟩
      · obtain ⟨habsent, hidle⟩ := h.withdrawn (hwithdrew.1 hw)
        exact ⟨same.trans habsent, fun hg => hidle (hback hg)⟩
      · obtain ⟨hidle, habsent⟩ := h.idle h₀
        rw [same, hremoved]
        exact ⟨fun hg => hidle (hback hg), habsent⟩
  | @wrote i r c target storing present =>
      -- a write that was under way: nothing has been withdrawn before
      have hunder : f.UnderWay s := ⟨i, by rw [storing]; exact ⟨target, fun e he => by cases he⟩⟩
      refine ⟨fun hw => ?_, hbusy, fun h₀ => absurd hunder (h.idle h₀).1⟩
      rcases hwithdrew.1 hw with hnew | hold
      · cases List.mem_singleton.1 hnew
      · exact absurd hunder (h.withdrawn hold).2
  | @withdrew i r a target withdrawing answered absent =>
      have hunder : f.UnderWay s := ⟨i, by rw [withdrawing]; exact ⟨target, rfl⟩⟩
      exact ⟨fun _ => ⟨absent, (hs.move hm).withdraw_alone answered target⟩, hbusy,
        fun h₀ => absurd hunder (h.idle h₀).1⟩
  | removed absent =>
      refine ⟨fun hw => ?_, hbusy, fun h₀ => ⟨fun hg => (h.idle h₀).1 (hback hg), ?_⟩⟩
      · rcases hwithdrew.1 hw with hnew | hold
        · cases List.mem_singleton.1 hnew
        · exact ⟨absent, fun hg => (h.withdrawn hold).2 (hback hg)⟩
      · exact iff_of_true absent (Or.inr (hremoved.2 (Or.inl (List.mem_singleton_self _))))
  | placed present => exact absurd (List.mem_singleton_self _) hplaced

/-- What a harmless deed after the release of a secret is: it asks for no recalled request, and
nobody outside writes the secret. -/
def Harmless (P : Request → Prop) (s : SecretRef) (x : Deed) : Prop :=
  Unasking P x ∧ x ≠ .placed s

theorem Recalled.tracked {f g : Floor} {P : Request → Prop} {s : SecretRef}
    {es : List FloorEvent} {d : List Deed} (hs : f.Sound) (hr : f.Recalled P)
    (hP : ∀ r, r.target = s → P r) (hrun : f.run? es = some g)
    (hd : g.journal = d ++ f.journal) (hharm : ∀ x ∈ d, Harmless P s x) : Tracked f g s d := by
  have key : g.Recalled P ∧ ∃ d', g.journal = d' ++ f.journal ∧ Tracked f g s d' := by
    refine run?_induction (P := fun g => g.Recalled P ∧
      ∃ d', g.journal = d' ++ f.journal ∧ Tracked f g s d') (Q := Harmless P s) ?_ hs
      ⟨hr, [], rfl, .start f s⟩ hrun hd hharm
    rintro a b x hsa ⟨hra, da, hda, hta⟩ hm hx hharmless
    refine ⟨hra.move hsa hm hx fun y hy => (hharmless y hy).1, x ++ da, ?_, ?_⟩
    · rw [hx, hda, List.append_assoc]
    · exact hta.move hsa hra hP hm hx fun hin => (hharmless _ hin).2 rfl
  obtain ⟨-, d', hd', ht⟩ := key
  have heq : d = d' := (List.append_left_inj f.journal).1 (hd.symm.trans hd')
  rwa [heq]

theorem request_of_quiet {f : Floor} (h : f.IsQuiet) (i : Nat) : (f.post i).request? = none := by
  by_cases hlt : i < f.posts.length
  · refine h.2.1 (f.post i) ?_
    rw [post, List.getElem?_eq_getElem hlt]
    exact List.getElem_mem hlt
  · rw [post, List.getElem?_eq_none (by omega)]
    rfl

theorem not_underWay_of_quiet {f : Floor} (h : f.IsQuiet) (s : SecretRef) : ¬ f.UnderWay s := by
  rintro ⟨i, hi⟩
  obtain ⟨r, hr, -⟩ := hi.request
  rw [request_of_quiet h i] at hr
  cases hr

/-- When the floor has become quiet after a release, and no call for the secret failed, the
secret is missing exactly if it was missing at the release, its write or its withdrawal was under
way then, or somebody outside has deleted it since. -/
theorem Recalled.absent_iff {f g : Floor} {P : Request → Prop} {s : SecretRef}
    {es : List FloorEvent} {d : List Deed} (hs : f.Sound) (hr : f.Recalled P)
    (hP : ∀ r, r.target = s → P r) (hrun : f.run? es = some g)
    (hd : g.journal = d ++ f.journal) (hharm : ∀ x ∈ d, Harmless P s x) (hquiet : g.IsQuiet)
    (hfailed : .failed s ∉ d) :
    g.secret? s = none ↔ f.secret? s = none ∨ f.UnderWay s ∨ .removed s ∈ d := by
  have ht := hr.tracked hs hP hrun hd hharm
  by_cases hunder : f.UnderWay s
  · have hw : .withdrew s ∈ d := by
      rcases ht.busy hunder with hg | hw | hf
      · exact absurd hg (not_underWay_of_quiet hquiet s)
      · exact hw
      · exact absurd hf hfailed
    exact iff_of_true (ht.withdrawn hw).1 (Or.inr (Or.inl hunder))
  · rw [(ht.idle hunder).2, or_iff_right hunder]

/-- When the floor has become quiet after a release, nothing is acquired or pending for the
key. -/
theorem Recalled.returned {f g : Floor} {P : Request → Prop} {k : String}
    {es : List FloorEvent} {d : List Deed} (hs : f.Sound) (hr : f.Recalled P)
    (hP : ∀ r, r.key = k → P r) (hk : f.Returned k) (hrun : f.run? es = some g)
    (hd : g.journal = d ++ f.journal) (hasks : ∀ x ∈ d, Unasking P x) (hquiet : g.IsQuiet) :
    g.manager.quota.acquired.find? k = none ∧ g.manager.quota.pending.find? k = none := by
  have key : g.Recalled P ∧ g.Returned k := by
    refine run?_induction (P := fun g => g.Recalled P ∧ g.Returned k) (Q := Unasking P) ?_ hs
      ⟨hr, hk⟩ hrun hd hasks
    rintro a b x hsa ⟨hra, hka⟩ hm hx hall
    exact ⟨hra.move hsa hm hx hall, hka.move hsa hra hP hm⟩
  have hsg := sound_run? hs hrun
  have hfree : ¬ g.Busy k := by
    rintro ⟨i, hi⟩
    rw [keyAt_of_idle (request_of_quiet hquiet i)] at hi
    cases hi
  refine ⟨key.2 ?_, hsg.pending_eq_none hfree⟩
  cases hin : g.manager.inFlight.has k with
  | false => rfl
  | true => exact absurd ((hsg.inFlight k).1 hin) hfree

end Floor

end IngressTls
