import IngressTls.Proofs.Manager.Pursuit

set_option autoImplicit false

/-! # Demand that is abandoned

A release takes back whatever was asked for before it. If the secret has been deleted by then, the
demand for it is *abandoned*: no request is stored any more, and a worker that is still at work
deletes what it writes. So the secret stays away until somebody asks for it again.

Main statements: `abandoned_append_iff` and `Forsaken.move`.
-/

namespace IngressTls

/-- The last deed that changed a secret deleted it. -/
def Gone (s : SecretRef) (d : List Deed) : Prop :=
  (touching s d).head? = some (.removed s) ∨ (touching s d).head? = some (.withdrew s)

/-- A secret was released after it had been deleted, and nobody has asked for it since. -/
def Abandoned (s : SecretRef) (d : List Deed) : Prop :=
  ∃ recent before, d = recent ++ .released s :: before ∧ (∀ x ∈ recent, ¬ x.IsFor s.key) ∧
    Gone s before

variable {s : SecretRef} {d : List Deed}

theorem abandoned_cons {x : Deed} :
    Abandoned s (x :: d) ↔ x = .released s ∧ Gone s d ∨ ¬ x.IsFor s.key ∧ Abandoned s d := by
  constructor
  · rintro ⟨recent, before, heq, hrecent, hgone⟩
    cases recent with
    | nil =>
        obtain ⟨rfl, rfl⟩ := List.cons.inj heq
        exact Or.inl ⟨rfl, hgone⟩
    | cons y recent =>
        obtain ⟨rfl, rfl⟩ := List.cons.inj heq
        refine Or.inr ⟨hrecent x List.mem_cons_self, recent, before, rfl, fun z hz => ?_, hgone⟩
        exact hrecent z (List.mem_cons_of_mem _ hz)
  · rintro (⟨rfl, hgone⟩ | ⟨hx, recent, before, rfl, hrecent, hgone⟩)
    · exact ⟨[], d, rfl, fun y hy => (by cases hy), hgone⟩
    · refine ⟨x :: recent, before, rfl, fun y hy => ?_, hgone⟩
      rcases List.mem_cons.1 hy with rfl | hy
      · exact hx
      · exact hrecent y hy

/-- Deeds that are not for a secret neither abandon it nor take that back. -/
theorem abandoned_append_iff {recent : List Deed} (h : ∀ x ∈ recent, ¬ x.IsFor s.key) :
    Abandoned s (recent ++ d) ↔ Abandoned s d := by
  induction recent with
  | nil => exact Iff.rfl
  | cons x recent ih =>
      have hx := h x List.mem_cons_self
      rw [List.cons_append, abandoned_cons, ih fun y hy => h y (List.mem_cons_of_mem _ hy)]
      constructor
      · rintro (⟨rfl, -⟩ | ⟨-, hd⟩)
        · exact absurd rfl hx
        · exact hd
      · exact fun hd => Or.inr ⟨hx, hd⟩

/-- A secret that has been asked for is not abandoned unless it is released again. -/
theorem not_abandoned_append {recent : List Deed} {x : Deed} (hx : x ∈ recent)
    (hfor : x.IsFor s.key) (hreleased : .released s ∉ recent) : ¬ Abandoned s (recent ++ d) := by
  induction recent with
  | nil => cases hx
  | cons y recent ih =>
      rw [List.mem_cons, not_or] at hreleased
      rw [List.cons_append, abandoned_cons]
      rintro (⟨rfl, -⟩ | ⟨hy, hrest⟩)
      · exact hreleased.1 rfl
      · rcases List.mem_cons.1 hx with rfl | hx
        · exact hy hfor
        · exact ih hx hreleased.2 hrest

namespace Floor

variable {f g : Floor} {D : DomainSet}

/-! ## What the journal tells about a secret -/

/-- The last deed that changed a secret tells whether it is there, and for which hosts. -/
structure Recorded (f : Floor) (s : SecretRef) (D : DomainSet) : Prop where
  /-- A secret that was deleted is not there. -/
  gone : Gone s f.journal → f.secret? s = none
  /-- A secret that was written is there. -/
  written : (touching s f.journal).head? = some (.wrote s) → f.Meets s D

theorem Meets.congr (h : f.Meets s D) (hsecret : g.secret? s = f.secret? s)
    (hsettings : g.manager.settings = f.manager.settings) : g.Meets s D := by
  rw [Meets, hsecret, hsettings]
  exact h

theorem Recorded.move (hs : f.Sound) (h : f.Recorded s D) (hm : Move f g)
    (hd : g.journal = d ++ f.journal) (hplaced : .placed s ∉ d)
    (hdomains : ∀ i r, (f.post i).request? = some r → r.target = s → r.domains = D)
    (hcommas : ∀ host ∈ D.hosts, ',' ∉ host.toList) : g.Recorded s D := by
  have hsettings := settings_move hm
  have htouch := touch_move hs hm hd s
  have hnone : .placed s ∉ touching s d := fun hmem => hplaced (mem_touching.1 hmem).1
  have happend : touching s g.journal = touching s d ++ touching s f.journal := by
    rw [hd, touching_append]
  generalize touching s d = t at htouch hnone happend
  -- a deletion leaves nothing, and what a worker writes is for the hosts that were asked for
  have hlast : ∀ {x}, t = [x] → (touching s g.journal).head? = some x := by
    rintro x rfl
    rw [happend]
    rfl
  cases htouch with
  | none same =>
      rw [List.nil_append] at happend
      refine ⟨fun hgone => ?_, fun hwrote => ?_⟩
      · rw [Gone, happend] at hgone
        exact same.trans (h.gone hgone)
      · rw [happend] at hwrote
        exact (h.written hwrote).congr same hsettings
  | @wrote i r c target storing present =>
      have hD : r.domains = D := hdomains i r (by rw [storing]; rfl) target
      subst target hD
      refine ⟨fun hgone => ?_, fun _ => meets_of_written (c := c) ?_ hcommas⟩
      · rw [Gone, hlast rfl] at hgone
        rcases hgone with heq | heq
        · cases heq
        · cases heq
      · rw [hsettings]
        exact present
  | withdrew target withdrawing answered absent =>
      refine ⟨fun _ => absent, fun hwrote => ?_⟩
      cases (hlast rfl).symm.trans hwrote
  | removed absent =>
      refine ⟨fun _ => absent, fun hwrote => ?_⟩
      cases (hlast rfl).symm.trans hwrote
  | placed present => exact absurd (List.mem_singleton_self _) hnone

/-- A secret that has been deleted once is gone, or it was written since. -/
theorem Recorded.gone_or_meets (h : f.Recorded s D) (hplaced : .placed s ∉ f.journal)
    (hremoved : .removed s ∈ f.journal) : Gone s f.journal ∨ f.Meets s D := by
  cases hlast : touching s f.journal with
  | nil =>
      have hmem : .removed s ∈ touching s f.journal := mem_touching.2 ⟨hremoved, rfl⟩
      rw [hlast] at hmem
      cases hmem
  | cons x t =>
      have hhead : (touching s f.journal).head? = some x := by rw [hlast]; rfl
      have hmem : x ∈ touching s f.journal := by rw [hlast]; exact List.mem_cons_self
      obtain ⟨hx, htouched⟩ := mem_touching.1 hmem
      cases x with
      | wrote t =>
          cases htouched
          exact Or.inr (h.written hhead)
      | withdrew t =>
          cases htouched
          exact Or.inl (Or.inr hhead)
      | removed t =>
          cases htouched
          exact Or.inl (Or.inl hhead)
      | placed t =>
          cases htouched
          exact absurd hx hplaced
      | _ => cases htouched

/-! ## What is left of abandoned demand -/

/-- Nothing is asked for a secret that is away, or that a worker is going to delete. -/
structure Forsaken (f : Floor) (s : SecretRef) : Prop where
  /-- Every request for the key has been recalled. -/
  recalled : f.Recalled fun r => r.key = s.key
  /-- The secret is away, or it is under way. -/
  away : f.secret? s = none ∨ f.UnderWay s

/-- The secret of abandoned demand stays away. -/
theorem Forsaken.move (hs : f.Sound) (h : f.Forsaken s) (hm : Move f g)
    (hd : g.journal = d ++ f.journal) (hplaced : .placed s ∉ d) (hfailed : .failed s ∉ d)
    (hneutral : ∀ x ∈ d, ¬ x.IsFor s.key) : g.Forsaken s := by
  have hkey : ∀ r : Request, r.target = s → r.key = s.key := by
    rintro r rfl
    rfl
  refine ⟨h.recalled.move hs hm hd fun x hx => ?_, ?_⟩
  · have hx := hneutral x hx
    cases x with
    | asked r => exact hx
    | renewed r => exact hx
    | _ => trivial
  · -- what is under way ends with the deletion of the secret
    have hforth : f.UnderWay s → .withdrew s ∉ d → g.UnderWay s := by
      intro hunder hwithdrew
      rcases UnderWay.forth h.recalled hkey hm hd hunder with hg | hmem | hmem
      · exact hg
      · exact absurd hmem hwithdrew
      · exact absurd hmem hfailed
    have htouch := touch_move hs hm hd s
    have hmem : ∀ {x : Deed}, x.touched? = some s → x ∈ d → x ∈ touching s d :=
      fun hx hin => mem_touching.2 ⟨hin, hx⟩
    have hnone : .placed s ∉ touching s d := fun hin => hplaced (mem_touching.1 hin).1
    have hwithdrew : .withdrew s ∉ touching s d → .withdrew s ∉ d := mt (hmem rfl)
    generalize touching s d = t at htouch hnone hwithdrew
    cases htouch with
    | none same =>
        refine h.away.imp (fun habsent => same.trans habsent) fun hunder => ?_
        exact hforth hunder (hwithdrew List.not_mem_nil)
    | @wrote i r c target storing present =>
        have hunder : f.UnderWay s := ⟨i, by rw [storing]; exact ⟨target, fun e he => by cases he⟩⟩
        exact Or.inr (hforth hunder (hwithdrew (by simp)))
    | withdrew target withdrawing answered absent => exact Or.inl absent
    | removed absent => exact Or.inl absent
    | placed present => exact absurd (List.mem_singleton_self _) hnone

/-- The demand for a secret was abandoned, and nothing is left of it. -/
def Forsakes (f : Floor) (s : SecretRef) : Prop := Abandoned s f.journal → f.Forsaken s

theorem Forsakes.move (hs : f.Sound) (h : f.Forsakes s) (hrecorded : f.Recorded s D)
    (hm : Move f g) (hd : g.journal = d ++ f.journal) (hplaced : .placed s ∉ d)
    (hfailed : .failed s ∉ d) : g.Forsakes s := by
  intro habandoned
  rw [hd] at habandoned
  have hkept : (∀ x ∈ d, ¬ x.IsFor s.key) → g.Forsaken s := fun hneutral =>
    (h ((abandoned_append_iff hneutral).1 habandoned)).move hs hm hd hplaced hfailed hneutral
  -- whoever asks for the key takes the demand up again
  have hasked : .released s ∉ d → g.Forsaken s := by
    intro hreleased
    refine hkept fun x hx hfor => ?_
    exact not_abandoned_append hx hfor hreleased habandoned
  rcases isFor_move hm hd with hneutral | ⟨r, rfl, -⟩ | ⟨t, rfl, hg⟩ | ⟨rs, rfl, -, -⟩
  · exact hkept fun x hx => hneutral x hx s.key
  · exact hasked (by simp)
  · by_cases ht : t = s
    · -- this release abandons the demand: the secret is gone, and all requests are recalled
      subst ht
      have hgone : Gone t f.journal := by
        rcases abandoned_cons.1 habandoned with ⟨-, hgone⟩ | ⟨hnot, -⟩
        · exact hgone
        · exact absurd rfl hnot
      subst hg
      refine ⟨(hs.recalled_release t).congr rfl rfl fun _ _ hr => hr, Or.inl ?_⟩
      exact hrecorded.gone hgone
    · exact hasked (by simpa using fun heq => ht heq.symm)
  · exact hasked (by simp)

/-- When nothing is queued or in flight, the secret of abandoned demand is not there. -/
theorem Forsaken.absent (h : f.Forsaken s) (hquiet : f.IsQuiet) : f.secret? s = none :=
  h.away.resolve_right (not_underWay_of_quiet hquiet s)

end Floor

end IngressTls
