import IngressTls.Proofs.Cluster.World
import IngressTls.Proofs.Manager.Aftermath
import IngressTls.Proofs.Manager.Start

set_option autoImplicit false

/-! # When a reclaimed secret comes back

The controller reclaims a secret in two steps: the deletion takes effect first, and only when it
has been answered is the secret released. The release is what stops a worker; so a worker that
writes the secret after the deletion took effect, and is told of its success before the release,
keeps what it wrote. Nobody deletes it then.

After the release nothing new is written, unless the renewal scan still holds a listing from
before the deletion. A write that is under way at the release is withdrawn again. So the
secret stays away exactly if it was missing at the release or a worker had its write under
way. The quota is given back in any case.

Main statement: `reclaimed_absent_iff`.
-/

namespace IngressTls

namespace World

/-- The floor of a world that was reached from a start is sound. -/
theorem sound_floor {settings : ManagerSettings} {max : Int}
    {listing : Except Error (List Secret)} {shelf : Snapshot Secret} {es : List WorldEvent}
    {w : World} (h : (start settings max listing shelf).run? es = some w) : w.floor.Sound := by
  obtain ⟨fs, hfs⟩ := floor_run? h
  exact Floor.sound_run? (Floor.sound_start settings max listing shelf) hfs

/-- A secret that the controller has deleted and then released, in a run that becomes quiet
without the controller asking for it again. If no renewal asks for it either, its quota is given
back, and unless a call of a worker fails it is missing in the end exactly if at the release it
was missing or its write or withdrawal was under way, or if it was deleted once more. In any
case the last deed since the release that touched it decides whether it exists. -/
theorem reclaimed_absent_iff {settings : ManagerSettings} {max : Int}
    {listing : Except Error (List Secret)} {shelf : Snapshot Secret} {es es' : List WorldEvent}
    {w w₁ w₂ : World} {k : Kind} {s : SecretRef} {rest : List SecretRef} {d : List Deed}
    (hreach : (start settings max listing shelf).run? es = some w)
    (hdeleted : (w.lane k).errand = .deleting s (some (.ok ())) rest)
    (hrelease : w.step? (.resume k) = some w₁) (hrun : w₁.run? es' = some w₂)
    (hquiet : w₂.IsQuiet) (hd : w₂.floor.journal = d ++ w₁.floor.journal)
    (hasked : ∀ r, .asked r ∈ d → r.key ≠ s.key) :
    ((∀ r, .renewed r ∈ d → r.key ≠ s.key) →
      w₂.floor.manager.quota.acquired.find? s.key = none ∧
      w₂.floor.manager.quota.pending.find? s.key = none ∧
      (.failed s ∉ d → (w₂.floor.secret? s = none ↔
        w₁.floor.secret? s = none ∨ w₁.floor.UnderWay s ∨ .removed s ∈ d))) ∧
    Floor.Settles w₁.floor w₂.floor s (touching s d) := by
  have hs : w.floor.Sound := sound_floor hreach
  obtain ⟨fs, hfs⟩ := floor_run? hrun
  -- the release has recalled every request for the key
  have hfloor : w₁.floor = (w.floor.setManager (w.floor.manager.release s)).note (.released s) := by
    rw [step?, hdeleted] at hrelease
    cases hrelease
    rfl
  have hs₁ : w₁.floor.Sound := by
    rw [hfloor]
    exact hs.move (.released s)
  have hrecalled : w₁.floor.Recalled fun r => r.key = s.key := by
    rw [hfloor]
    exact (hs.recalled_release s).congr rfl rfl fun _ _ h => h
  have hreturned : w₁.floor.Returned s.key := by
    rw [hfloor]
    exact (hs.returned_release s).congr rfl rfl
  -- from here on the floor runs by itself, without the requests that were recalled
  have hkey : ∀ r : Request, r.target = s → r.key = s.key := by
    rintro r rfl
    rfl
  obtain ⟨d', hd', hworldly⟩ := worldly_run? hrun
  have hdd : d = d' := (List.append_left_inj w₁.floor.journal).1 (hd.symm.trans hd')
  subst hdd
  refine ⟨fun hrenewed => ?_, Floor.settles_run? hs₁ hfs hd s⟩
  have hunasking : ∀ x ∈ d, Floor.Unasking (fun r => r.key = s.key) x := by
    intro x hx
    cases x with
    | asked r => exact hasked r hx
    | renewed r => exact hrenewed r hx
    | _ => trivial
  have hharmless : ∀ x ∈ d, Floor.Harmless (fun r => r.key = s.key) s x := by
    refine fun x hx => ⟨hunasking x hx, ?_⟩
    rintro rfl
    exact hworldly _ hx
  obtain ⟨hacquired, hpending⟩ :=
    hrecalled.returned hs₁ (fun _ h => h) hreturned hfs hd hunasking hquiet.1
  exact ⟨hacquired, hpending,
    fun hfailed => hrecalled.absent_iff hs₁ hkey hfs hd hharmless hquiet.1 hfailed⟩

/-! ## A write between the deletion and the release -/

/-- The only worker is asked for a certificate twice and stores the first one; its second
write is on the way when the route is deleted. The deletion of the secret takes effect, then the
write does, and the worker is told of its success before the controller is told of its own. -/
def writeBeforeRelease : List WorldEvent :=
  [.put .route (routeFor "1" "a.com"), .handle .route, .work (.take 0),
    .put .route (routeFor "2" "b.com"), .handle .route,
    .work (.serve 0 .done), .work (.resume 0), .work (.order 0 (.ok anyCertificate)),
    .work (.serve 0 .done), .work (.resume 0),
    .work (.take 0), .work (.serve 0 .done), .work (.resume 0),
    .work (.order 0 (.ok anyCertificate)),
    .drop .route ⟨some "default", "web"⟩, .handle .route, .look .route, .serve .route .done,
    .work (.serve 0 .done), .work (.resume 0)]

theorem writeBeforeRelease_runs :
    ∃ w w₁ w₂, alone.run? writeBeforeRelease = some w ∧
      (w.lane .route).errand = .deleting sharedSecret (some (.ok ())) [] ∧
      w.step? (.resume .route) = some w₁ ∧ w₁.run? [.handle .secret] = some w₂ ∧
      w₂.IsQuiet ∧ w₂.floor.journal = w₁.floor.journal ∧
      (w₂.floor.secret? sharedSecret).isSome = true := by
  refine ⟨_, _, _, rfl, rfl, rfl, rfl, ⟨⟨rfl, ?_, rfl, rfl⟩, ?_⟩, rfl, rfl⟩
  · intro p hp
    cases List.mem_singleton.1 hp
    rfl
  · intro k
    cases k with
    | _ => rfl

/-- The secret exists in the end, and so it existed at the release with nothing under way. Its
quota has been given back. -/
theorem reclaimed_absent_iff_writeBeforeRelease :
    ∃ w w₁ w₂, alone.run? writeBeforeRelease = some w ∧ w.step? (.resume .route) = some w₁ ∧
      w₁.run? [.handle .secret] = some w₂ ∧ (w₂.floor.secret? sharedSecret).isSome = true ∧
      w₂.floor.manager.quota.acquired.find? sharedSecret.key = none ∧
      w₁.floor.secret? sharedSecret ≠ none ∧ ¬ w₁.floor.UnderWay sharedSecret := by
  obtain ⟨w, w₁, w₂, hreach, hdeleted, hrelease, hrun, hquiet, hd, hpresent⟩ :=
    writeBeforeRelease_runs
  obtain ⟨hstays, -⟩ := reclaimed_absent_iff (d := []) hreach hdeleted hrelease hrun hquiet hd
    (fun r hr => by cases hr)
  obtain ⟨hacquired, -, habsent⟩ := hstays fun r hr => by cases hr
  have hback : w₂.floor.secret? sharedSecret ≠ none := Option.isSome_iff_ne_none.1 hpresent
  rw [Ne, habsent List.not_mem_nil, not_or, not_or] at hback
  exact ⟨w, w₁, w₂, hreach, hrelease, hrun, hpresent, hacquired, hback.1, hback.2.1⟩

/-- It is not true that a reclaimed secret never comes back. -/
theorem reclaimed_secrets_can_come_back :
    ¬ ∀ (settings : ManagerSettings) (max : Int) (listing : Except Error (List Secret))
      (shelf : Snapshot Secret) (es es' : List WorldEvent) (w w₁ w₂ : World) (k : Kind)
      (s : SecretRef) (rest : List SecretRef) (d : List Deed),
      (start settings max listing shelf).run? es = some w →
      (w.lane k).errand = .deleting s (some (.ok ())) rest →
      w.step? (.resume k) = some w₁ → w₁.run? es' = some w₂ → w₂.IsQuiet →
      w₂.floor.journal = d ++ w₁.floor.journal → (∀ r, .asked r ∈ d → r.key ≠ s.key) →
      (∀ e ∈ es ++ es', e.succeeds = true) →
      w₂.floor.secret? s = none ∧ w₂.floor.manager.quota.acquired.find? s.key = none ∧
        w₂.floor.manager.quota.pending.find? s.key = none := by
  intro hall
  obtain ⟨w, w₁, w₂, hreach, hdeleted, hrelease, hrun, hquiet, hd, hpresent⟩ :=
    writeBeforeRelease_runs
  obtain ⟨habsent, -, -⟩ := hall _ _ _ _ writeBeforeRelease [.handle .secret] w w₁ w₂ .route
    sharedSecret [] [] hreach hdeleted hrelease hrun hquiet hd (fun r hr => by cases hr)
    (List.all_eq_true.1 rfl)
  rw [habsent] at hpresent
  cases hpresent

end World

end IngressTls
