import IngressTls.Proofs.Cluster.Orphans
import IngressTls.Proofs.Manager.Charges

set_option autoImplicit false

/-! # Stranded quota

The quota of a secret is given back when the secret is released, and the controller releases a
secret only after it has deleted it. A secret that somebody else has deleted is not there any
more when the controller looks at it, so that it is neither deleted nor released: its quota is
stranded.

That is the only way to hold quota for a secret that is not there. When a cluster without failing
calls has become quiet, a secret for which quota is held is missing exactly if somebody else has
deleted it, and it has been neither written nor deleted nor released since.

Main statement: `missing_iff_lost`.
-/

namespace IngressTls

namespace Floor

/-- A secret that was changed last by a worker's write is there, and managed. -/
theorem managed_of_wrote {f g : Floor} {s : SecretRef} {es : List FloorEvent} {d : List Deed}
    (hs : f.Sound) (hrun : f.run? es = some g) (hd : g.journal = d ++ f.journal)
    (hwrote : (touching s d).head? = some (.wrote s)) :
    ∃ o, g.secret? s = some o ∧
      o.metadata.isManagedBy g.manager.settings.controllerName = true := by
  let Managed (g : Floor) : Prop :=
    ∃ o, g.secret? s = some o ∧
      o.metadata.isManagedBy g.manager.settings.controllerName = true
  have key : ∃ d', g.journal = d' ++ f.journal ∧
      ((touching s d').head? = some (.wrote s) → Managed g) := by
    refine run?_induction (P := fun g => ∃ d', g.journal = d' ++ f.journal ∧
      ((touching s d').head? = some (.wrote s) → Managed g)) (Q := fun _ => True) ?_ hs
      ⟨[], rfl, fun h => by cases h⟩ hrun hd fun _ _ => trivial
    rintro a b x hsa ⟨da, hda, hmanaged⟩ hm hx -
    refine ⟨x ++ da, by rw [hx, hda, List.append_assoc], fun hhead => ?_⟩
    rw [touching_append] at hhead
    have hsettings := settings_move hm
    have htouch := touch_move hsa hm hx s
    generalize touching s x = t at hhead htouch
    cases htouch with
    | none same =>
        obtain ⟨o, ho, hown⟩ := hmanaged hhead
        exact ⟨o, same.trans ho, hsettings ▸ hown⟩
    | @wrote i r c target storing present =>
        exact ⟨_, present, hsettings ▸ isManagedBy_managedSecret r c _⟩
    | withdrew target withdrawing answered absent => cases hhead
    | removed absent => cases hhead
    | placed present => cases hhead
  obtain ⟨d', hd', hmanaged⟩ := key
  have heq : d = d' := (List.append_left_inj f.journal).1 (hd.symm.trans hd')
  exact hmanaged (heq ▸ hwrote)

/-- When nothing is in flight, a key for which quota is held is charged. -/
theorem charged_of_quiet {f : Floor} {k : String} (hs : f.Sound) (hquiet : f.IsQuiet)
    (hheld : 0 < f.manager.quota.acquiredBy k) : f.Charged k := by
  refine ⟨Manager.isReleased_eq_false.2 fun htold => ?_, Or.inl fun hnone => ?_⟩
  · obtain ⟨i, hi⟩ := (hs.inFlight k).1 (by rw [Table.has, htold]; rfl)
    rw [keyAt_of_idle (request_of_quiet hquiet i)] at hi
    cases hi
  · rw [Quota.acquiredBy, hnone] at hheld
    exact absurd hheld (by simp)

/-- A key that is charged at the start is the key of a secret that was listed. -/
theorem listed_of_charged {settings : ManagerSettings} {max : Int}
    {listing : Except Error (List Secret)} {shelf : Snapshot Secret} {k : String}
    (h : (start settings max listing shelf).Charged k) :
    ∃ secrets, listing = .ok secrets ∧ ∃ o ∈ secrets, o.ref.key = k := by
  rcases h.2 with hheld | ⟨i, r, sec, hi, -⟩
  · obtain ⟨secrets, hlisting, o, ho, b, hread, hkey⟩ := listed_of_restored hheld
    exact ⟨secrets, hlisting, o, ho, (Bookkeeping.of_read hread).1 ▸ hkey⟩
  · have hnone := post_start settings max listing shelf i
    rw [hi] at hnone
    cases hnone

end Floor

namespace World

variable {w₀ w w' : World} {s : SecretRef} {es : List WorldEvent} {e : WorldEvent}
  {d : List Deed}

theorem run?_append (w : World) (es es' : List WorldEvent) :
    w.run? (es ++ es') = (w.run? es).bind fun w' => w'.run? es' := by
  induction es generalizing w with
  | nil => rfl
  | cons e es ih =>
      rw [List.cons_append, run?_cons, run?_cons]
      cases w.step? e with
      | none => rfl
      | some w' => exact ih w'

/-! ## Who has deleted the secret -/

/-- Somebody else has deleted the secret in a run, and it has been neither changed nor released
since. -/
def Lost (w₀ : World) (es : List WorldEvent) (w : World) (s : SecretRef) : Prop :=
  ∃ before after w₁ d, es = before ++ .lose s :: after ∧ w₀.run? before = some w₁ ∧
    w.floor.journal = d ++ .removed s :: w₁.floor.journal ∧ ∀ x ∈ d, ¬ x.Alters s

/-- The controller was told that it has deleted the secret, and is going to release it. -/
def Owes (w : World) (s : SecretRef) : Prop :=
  ∃ k rest, (w.lane k).errand = .deleting s (some (.ok ())) rest

theorem Lost.append (h : Lost w₀ es w s) (hd : w'.floor.journal = d ++ w.floor.journal)
    (hkept : ∀ x ∈ d, ¬ x.Alters s) (e : WorldEvent) : Lost w₀ (es ++ [e]) w' s := by
  obtain ⟨before, after, w₁, d₁, rfl, hrun, hjournal, hkept₁⟩ := h
  refine ⟨before, after ++ [e], w₁, d ++ d₁, by simp, hrun, ?_, fun x hx => ?_⟩
  · rw [hd, hjournal, List.append_assoc]
  · rcases List.mem_append.1 hx with hx | hx
    · exact hkept x hx
    · exact hkept₁ x hx

/-- A secret that was lost is not there. -/
theorem Lost.missing (h : Lost w₀ es w s)
    (hsettles : Floor.Settles w₀.floor w.floor s (touching s w.floor.journal)) :
    w.floor.secret? s = none := by
  obtain ⟨before, after, w₁, d, -, -, hjournal, hkept⟩ := h
  have huntouched : touching s d = [] := by
    refine List.filter_eq_nil_iff.2 fun x hx => ?_
    simpa using fun htouched => hkept x hx (Or.inl htouched)
  have hlast : touching s w.floor.journal = .removed s :: touching s w₁.floor.journal := by
    rw [hjournal, touching_append, huntouched, List.nil_append]
    exact List.filter_cons_of_pos (by simp [Deed.touched?])
  rw [hlast] at hsettles
  exact hsettles.2 (Or.inr rfl)

/-- What the controller owes stays owed until it has released the secret. -/
theorem Owes.turn (h : w.Owes s) (hturn : Turn w e w')
    (hd : w'.floor.journal = d ++ w.floor.journal) (hreleased : .released s ∉ d) : w'.Owes s := by
  obtain ⟨k, rest, hk⟩ := h
  have hother : ∀ {j errand}, (w.lane j).errand = errand →
      (∀ rest, errand ≠ .deleting s (some (.ok ())) rest) → k ≠ j := by
    rintro j errand rfl hne rfl
    exact hne rest hk
  cases hturn with
  | worked inner step => exact ⟨k, rest, by rw [withFloor, errand_enqueue]; exact hk⟩
  | put other news => exact ⟨k, rest, by rw [put, errand_enqueue]; exact hk⟩
  | dropped other known => exact ⟨k, rest, by rw [drop, errand_enqueue]; exact hk⟩
  | lost t => exact ⟨k, rest, by rw [withFloor, errand_enqueue]; exact hk⟩
  | @handled j c changes waiting =>
      have hkj := hother (j := j) (by rw [waiting]) (by simp)
      refine ⟨k, rest, ?_⟩
      rw [show (w.handle j c changes).lane k = w.lane k from lane_set_ne _ _ hkj]
      exact hk
  | @looked j t rest' looking =>
      refine ⟨k, rest, ?_⟩
      rw [look, errand_setErrand, if_neg (hother looking (by simp))]
      exact hk
  | @served j t rest' service deleting =>
      refine ⟨k, rest, ?_⟩
      rw [serve, errand_setErrand, if_neg (hother deleting (by simp))]
      split
      · rw [withFloor, errand_enqueue]
        exact hk
      · exact hk
  | @resumed j t a rest' deleting =>
      by_cases hkj : k = j
      · subst hkj
        cases deleting.symm.trans hk
        -- the answer arrives, and the secret is released
        have heq : d = [.released s] := (List.append_left_inj w.floor.journal).1 hd.symm
        rw [heq] at hreleased
        exact absurd (List.mem_singleton_self _) hreleased
      · refine ⟨k, rest, ?_⟩
        cases a with
        | ok _ =>
            rw [resume, errand_setErrand, if_neg hkj]
            exact hk
        | error e =>
            rw [resume, errand_setErrand, if_neg hkj]
            exact hk

/-- Only the controller and somebody else delete secrets from outside the manager. -/
theorem removed_turn (hturn : Turn w e w') (hd : w'.floor.journal = d ++ w.floor.journal)
    (hsucceeds : e.succeeds = true) (hremoved : .removed s ∈ d) :
    w'.Owes s ∨ e = .lose s ∧ d = [.removed s] := by
  have hd' : ∀ {d'}, w'.floor.journal = d' ++ w.floor.journal → d = d' := fun heq =>
    (List.append_left_inj w.floor.journal).1 (hd.symm.trans heq)
  have hnone : ∀ {l}, w'.floor.journal = l ++ w.floor.journal → .removed s ∉ l →
      w'.Owes s ∨ e = .lose s ∧ d = [.removed s] := fun heq hnot =>
    absurd (hd' heq ▸ hremoved) hnot
  cases hturn with
  | worked inner step => cases inner_deeds step inner hd _ hremoved
  | put other news => exact hnone (l := []) rfl List.not_mem_nil
  | dropped other known => exact hnone (l := []) rfl List.not_mem_nil
  | lost t =>
      have heq : d = [.removed t] := hd' rfl
      rw [heq] at hremoved
      cases List.mem_singleton.1 hremoved
      exact Or.inr ⟨rfl, heq⟩
  | @handled k c rest waiting =>
      exact hnone (journal_asks w.floor (w.controller.react c).requests) (by simp)
  | @looked k t rest looking => exact hnone (l := [.looked t]) rfl (by simp)
  | @served k t rest service deleting =>
      cases service with
      | done =>
          have heq : d = [.removed t] := hd' rfl
          rw [heq] at hremoved
          cases List.mem_singleton.1 hremoved
          refine Or.inl ⟨k, rest, ?_⟩
          rw [serve, errand_setErrand, if_pos rfl]
          rfl
      | refused e => cases hsucceeds
      | lost e => cases hsucceeds
  | @resumed k t a rest deleting =>
      cases a with
      | ok _ => exact hnone (l := [.released t]) rfl (by simp)
      | error e => exact hnone (l := []) rfl List.not_mem_nil

/-- A secret that was deleted last from outside the manager, and not released since, is going to be
released, or somebody else has deleted it. -/
def Explained (w₀ : World) (es : List WorldEvent) (w : World) (s : SecretRef) : Prop :=
  Since (· = .removed s) (Deed.Alters s) w.floor.journal → w.Owes s ∨ Lost w₀ es w s

theorem Explained.step (h : Explained w₀ es w s) (hrun : w₀.run? es = some w)
    (hstep : w.step? e = some w') (hsucceeds : e.succeeds = true) :
    Explained w₀ (es ++ [e]) w' s := by
  intro hremoved
  have hturn := turn_of_step? hstep
  obtain ⟨d, hd, -⟩ := worldly_turn hturn
  rw [hd] at hremoved
  rcases since_append.1 hremoved with ⟨later, x, earlier, hnew, rfl, -⟩ | ⟨hkept, hold⟩
  · have hmem : .removed s ∈ d := by rw [hnew]; simp
    refine (removed_turn hturn hd hsucceeds hmem).imp_right ?_
    rintro ⟨rfl, rfl⟩
    exact ⟨es, [], w, [], rfl, hrun, hd, fun x hx => by cases hx⟩
  · have hreleased : .released s ∉ d := fun hmem => hkept _ hmem (Or.inr rfl)
    exact (h hold).imp (fun howes => howes.turn hturn hd hreleased)
      fun hlost => hlost.append hd hkept e

theorem Explained.run? {es' : List WorldEvent} (h : Explained w₀ es w s)
    (hrun : w₀.run? es = some w) (hrun' : w.run? es' = some w')
    (hsucceed : ∀ e ∈ es', e.succeeds = true) : Explained w₀ (es ++ es') w' s := by
  induction es' generalizing w es with
  | nil =>
      cases hrun'
      rwa [List.append_nil]
  | cons e es' ih =>
      rw [run?_cons] at hrun'
      obtain ⟨w₁, hfirst, hrest⟩ := Option.bind_eq_some_iff.1 hrun'
      have hrun₁ : w₀.run? (es ++ [e]) = some w₁ := by
        rw [run?_append, hrun]
        show (w.step? e).bind some = some w₁
        rw [hfirst]
        rfl
      have hrest := ih (h.step hrun hfirst (hsucceed e List.mem_cons_self)) hrun₁ hrest
        fun e' he' => hsucceed e' (List.mem_cons_of_mem _ he')
      rwa [List.append_assoc] at hrest

/-! ## The end -/

/-- A secret for which quota was held at the start is there as long as nobody changes it. -/
theorem manages_of_charged {settings : ManagerSettings} {max : Int}
    {listing : Except Error (List Secret)} {shelf : Snapshot Secret} (hplain : s.IsPlain)
    (hlisted : ∀ secrets, listing = .ok secrets → ∀ o ∈ secrets,
      shelf.lookup o.ref.place = some o ∧
        o.metadata.isManagedBy settings.controllerName = true)
    (hsettings : w.floor.manager.settings = settings)
    (hcharged : (Floor.start settings max listing shelf).Charged s.key)
    (hsame : w.floor.secret? s = shelf.lookup s.place) : w.Manages s := by
  obtain ⟨secrets, rfl, o, ho, hkey⟩ := Floor.listed_of_charged hcharged
  obtain ⟨hstored, hmanaged⟩ := hlisted secrets rfl o ho
  rw [SecretRef.key_inj hplain hkey] at hstored
  exact ⟨o, hsame.trans hstored, hsettings ▸ hmanaged⟩

theorem not_owes_of_quiet (h : w.IsQuiet) : ¬ w.Owes s := by
  rintro ⟨k, rest, hk⟩
  rw [h.2 k] at hk
  cases hk

/-- In a cluster in which no call fails, and where the manager has listed managed secrets that are
there when it started: when it has become quiet, a secret for which quota is held is missing
exactly if somebody else has deleted it, and it has been neither written nor deleted nor released
since. -/
theorem missing_iff_lost {settings : ManagerSettings} {max : Int}
    {listing : Except Error (List Secret)} {shelf : Snapshot Secret} (hplain : s.IsPlain)
    (hlisted : ∀ secrets, listing = .ok secrets → ∀ o ∈ secrets,
      shelf.lookup o.ref.place = some o ∧
        o.metadata.isManagedBy settings.controllerName = true)
    (hrun : (start settings max listing shelf).run? es = some w)
    (hsucceed : ∀ e ∈ es, e.succeeds = true) (hquiet : w.IsQuiet)
    (hheld : 0 < w.floor.manager.quota.acquiredBy s.key) :
    ¬ w.Manages s ↔ Lost (start settings max listing shelf) es w s := by
  have hs := Floor.sound_start settings max listing shelf
  obtain ⟨fs, hfs⟩ := floor_run? hrun
  obtain ⟨d, hd, hworldly⟩ := worldly_run? hrun
  have hjournal : w.floor.journal = d := hd.trans (List.append_nil d)
  subst hjournal
  have hsettles := Floor.settles_run? hs hfs hd s
  have hexplained : Explained (start settings max listing shelf) ([] ++ es) w s :=
    Explained.run? (fun h => absurd h not_since_nil) rfl hrun hsucceed
  refine ⟨fun hmissing => ?_, fun hlost => not_manages_of_absent (hlost.missing hsettles)⟩
  have hcharged := Floor.charged_of_quiet (Floor.sound_run? hs hfs) hquiet.1 hheld
  have hsince := Floor.charged_run? hs (Floor.told_start _ _ _ _) hplain hfs hd hcharged
  rcases hsince.last with ⟨huntouched, hstart⟩ | ⟨x, hhead, hwithdrew, hlast⟩
  · rw [huntouched] at hsettles
    have hsettings := (Floor.settings_run? hfs).trans (Floor.settings_start settings max _ _)
    exact absurd (manages_of_charged hplain hlisted hsettings hstart hsettles) hmissing
  · obtain ⟨hmem, htouched⟩ := mem_touching.1 (List.mem_of_mem_head? hhead)
    -- of the four ways to change a secret, only a deletion from outside leaves quota behind
    cases x with
    | wrote t =>
        cases htouched
        exact absurd (Floor.managed_of_wrote hs hfs hd hhead) hmissing
    | withdrew t =>
        cases htouched
        exact absurd rfl hwithdrew
    | removed t =>
        cases htouched
        exact (hexplained hlast).resolve_left (not_owes_of_quiet hquiet)
    | placed t => exact (hworldly _ hmem).elim
    | _ => cases htouched

/-- The only worker stores a secret for a route. Somebody deletes the secret and the route, and both
changes are handled. -/
def lostWithRoute : List WorldEvent :=
  [.put .route (routeFor "1" "a.com"), .handle .route,
    .work (.take 0), .work (.serve 0 .done), .work (.resume 0),
    .work (.order 0 (.ok anyCertificate)), .work (.serve 0 .done), .work (.resume 0),
    .lose sharedSecret, .drop .route ⟨some "default", "web"⟩,
    .handle .secret, .handle .route, .look .route]

theorem lostWithRoute_runs :
    ∃ w, alone.run? lostWithRoute = some w ∧ w.IsQuiet ∧
      0 < w.floor.manager.quota.acquiredBy sharedSecret.key ∧
      w.floor.secret? sharedSecret = none := by
  refine ⟨_, rfl, ⟨⟨rfl, ?_, rfl, rfl⟩, ?_⟩, by decide, rfl⟩
  · intro p hp
    cases List.mem_singleton.1 hp
    rfl
  · intro k
    cases k with
    | _ => rfl

theorem missing_iff_lost_lostWithRoute :
    ∃ w, alone.run? lostWithRoute = some w ∧
      0 < w.floor.manager.quota.acquiredBy sharedSecret.key ∧ ¬ w.Manages sharedSecret ∧
      Lost alone lostWithRoute w sharedSecret := by
  obtain ⟨w, hrun, hquiet, hheld, habsent⟩ := lostWithRoute_runs
  have hmissing := not_manages_of_absent habsent
  refine ⟨w, hrun, hheld, hmissing, ?_⟩
  refine (missing_iff_lost (by decide) ?_ hrun (List.all_eq_true.1 rfl) hquiet hheld).1 hmissing
  intro secrets hlisting o ho
  cases hlisting
  cases ho

/-- It is not true that quota is only held for secrets that are there when the cluster has become
quiet. -/
theorem quota_can_be_stranded :
    ¬ ∀ (settings : ManagerSettings) (max : Int) (listing : Except Error (List Secret))
      (shelf : Snapshot Secret) (es : List WorldEvent) (w : World) (s : SecretRef), 0 < max →
      s.IsPlain →
      (∀ secrets, listing = .ok secrets → ∀ o ∈ secrets, shelf.lookup o.ref.place = some o ∧
        o.metadata.isManagedBy settings.controllerName = true) →
      (start settings max listing shelf).run? es = some w → (∀ e ∈ es, e.succeeds = true) →
      w.IsQuiet → 0 < w.floor.manager.quota.acquiredBy s.key → w.Manages s := by
  intro hall
  obtain ⟨w, hrun, hquiet, hheld, habsent⟩ := lostWithRoute_runs
  refine not_manages_of_absent habsent ?_
  refine hall _ 5 (.ok []) .empty lostWithRoute w sharedSecret (by decide) (by decide) ?_ hrun
    (List.all_eq_true.1 rfl) hquiet hheld
  intro secrets hlisting o ho
  cases hlisting
  cases ho

end World

end IngressTls
