import IngressTls.Proofs.Cluster.Steady

set_option autoImplicit false

/-! # Live demand

In a cluster that runs smoothly a demanded secret is taken care of from the moment when the
controller learns of the demand: it is there, or it is being issued, or the controller is going to
learn of its deletion and ask for it again. Only a release can put an end to this, and it does so
if the secret has been deleted and not been written again: the release also withdraws what was
asked for after the deletion.

So when the cluster has become quiet, a demanded secret is missing exactly if its demand was
abandoned: it was released after it had been deleted, and nobody has asked for it since.

Main statements: `Attended.step` and `demand_met_iff`.
-/

namespace IngressTls

namespace Floor

variable {f g : Floor} {s : SecretRef} {D : DomainSet}

theorem Foreign.congr (h : f.Foreign s) (hsecret : g.secret? s = f.secret? s)
    (hsettings : g.manager.settings = f.manager.settings) : g.Foreign s := by
  rw [Foreign, hsecret, Manager.isForeign, hsettings]
  exact h

theorem not_foreign_of_absent (h : f.secret? s = none) : ¬ f.Foreign s := by
  rw [Foreign, h]
  exact Bool.false_ne_true

/-- A secret that meets the demand, or belongs to somebody else, is there. -/
theorem present_of_stands (h : f.Meets s D ∨ f.Foreign s) : ∃ o, f.secret? s = some o := by
  rcases h with ⟨o, ho, -⟩ | hforeign
  · exact ⟨o, ho⟩
  · cases hsecret : f.secret? s with
    | some o => exact ⟨o, rfl⟩
    | none => exact absurd hforeign (not_foreign_of_absent hsecret)

/-- It stays like this until it is deleted. -/
theorem stands_move {d : List Deed} (hs : f.Sound) (hm : Move f g)
    (hd : g.journal = d ++ f.journal) (hplaced : .placed s ∉ d) (hg : g.Recorded s D)
    (h : f.Meets s D ∨ f.Foreign s) : (g.Meets s D ∨ g.Foreign s) ∨ g.secret? s = none := by
  have hsettings := settings_move hm
  have htouch := touch_move hs hm hd s
  have hnone : .placed s ∉ touching s d := fun hmem => hplaced (mem_touching.1 hmem).1
  have happend : touching s g.journal = touching s d ++ touching s f.journal := by
    rw [hd, touching_append]
  generalize touching s d = t at htouch hnone happend
  cases htouch with
  | none same =>
      exact Or.inl (h.imp (fun hmeets => hmeets.congr same hsettings)
        fun hforeign => hforeign.congr same hsettings)
  | wrote target storing present => exact Or.inl (Or.inl (hg.written (by rw [happend]; rfl)))
  | withdrew target withdrawing answered absent => exact Or.inr absent
  | removed absent => exact Or.inr absent
  | placed present => exact absurd (List.mem_singleton_self _) hnone

/-- Whether something is pursued is a matter of the manager and of where the workers stand. -/
theorem Pursued.congr (h : f.Pursued s) (hmanager : g.manager = f.manager)
    (hposts : g.posts = f.posts) : g.Pursued s := by
  obtain ⟨m, shelf, posts, timers, scan, journal⟩ := g
  subst hmanager hposts
  exact h

/-- Asking leaves what is pursued. -/
theorem asks_eq (f : Floor) (rs : List Request) :
    (rs.foldl World.ask f).manager = f.manager.obtainAll rs ∧
      (rs.foldl World.ask f).posts = f.posts := by
  induction rs generalizing f with
  | nil => exact ⟨rfl, rfl⟩
  | cons r rs ih => exact ih (World.ask f r)

theorem Pursued.asks (h : f.Pursued s) (hopen : f.manager.queue.closed = false)
    (rs : List Request) : (rs.foldl World.ask f).Pursued s := by
  obtain ⟨hmanager, hposts⟩ := asks_eq f rs
  obtain ⟨-, hinFlight, -, hsettings, -⟩ := Manager.obtainAll_facts f.manager rs
  refine h.imp (fun hqueued => ?_) fun hpromised => ?_
  · rw [hmanager]
    exact hqueued.obtainAll hopen rs
  · obtain ⟨hunreleased, i, hi⟩ := hpromised
    refine ⟨?_, i, ?_⟩
    · rw [hmanager, Manager.isReleased, hinFlight]
      exact hunreleased
    · rw [post, hposts, hmanager]
      exact hi.congr hsettings

end Floor

namespace World

variable {w w' : World} {s : SecretRef} {D : DomainSet}

/-! ## What is taken care of -/

/-- The controller is going to learn of an object as it is now. -/
def Heralds (w : World) (k : Kind) (o : k.Object) : Prop :=
  ∃ c ∈ (w.lane k).changes, c.Brings k o

/-- The controller is going to learn that a secret was deleted. -/
def Misses (w : World) (s : SecretRef) : Prop :=
  ∃ sec : Secret, sec.ref = s ∧ (⟨.secret, .deleted sec⟩ : KindChange) ∈ (w.lane .secret).changes

/-- The demand for a secret is taken care of, or it was abandoned. -/
inductive Cares (w : World) (s : SecretRef) (D : DomainSet) : Prop where
  /-- The secret is there, or one of somebody else is. -/
  | stands (h : w.floor.Meets s D ∨ w.floor.Foreign s)
  /-- The secret was deleted, and the controller is going to ask for it again. -/
  | missed (h : w.Misses s)
  /-- The secret is queued or being issued. -/
  | pursued (h : w.floor.Pursued s)
  /-- The demand was abandoned. -/
  | abandoned (h : Abandoned s w.floor.journal)

/-- All demand for a secret that the controller knows of is taken care of. -/
def Attended (w : World) (s : SecretRef) (D : DomainSet) : Prop :=
  ∀ k o, w.Demands s k o → w.Heralds k o ∨ w.Cares s D

theorem Misses.mono (h : w.Misses s)
    (hchanges : ∀ c ∈ (w.lane .secret).changes, c ∈ (w'.lane .secret).changes) : w'.Misses s := by
  obtain ⟨sec, href, hwaits⟩ := h
  exact ⟨sec, href, hchanges _ hwaits⟩

/-- A secret that vanishes is missed. -/
theorem misses_of_absent {g : Floor} {o : Secret} (hfiled : w.floor.Filed)
    (ho : w.floor.secret? s = some o) (habsent : g.secret? s = none) :
    (w.withFloor g).Misses s := by
  obtain ⟨hkey, -⟩ := hfiled s.place o ho
  refine ⟨o, hfiled.ref_eq ho, mem_changes_enqueue.2 (Or.inr ⟨rfl, ?_⟩)⟩
  refine List.mem_map.2 ⟨o, List.mem_filter.2 ⟨Snapshot.mem_objects.2 ⟨s.place, ho⟩, ?_⟩, rfl⟩
  rw [hkey, show g.shelf.lookup s.place = none from habsent]
  rfl

/-- The floor stays as it is, and no change is lost. -/
theorem Cares.congr (h : w.Cares s D) (hfloor : w'.floor = w.floor)
    (hchanges : ∀ c ∈ (w.lane .secret).changes, c ∈ (w'.lane .secret).changes) : w'.Cares s D := by
  cases h with
  | stands h => exact .stands (by rwa [hfloor])
  | missed h => exact .missed (h.mono hchanges)
  | pursued h => exact .pursued (by rwa [hfloor])
  | abandoned h => exact .abandoned (by rwa [hfloor])

/-- Something happens on the floor that is no release of the secret. -/
theorem Cares.floor {e : FloorEvent} {d : List Deed} (hinformed : w.Informed s D)
    (hinformed' : w'.Informed s D) (hplain : s.IsPlain)
    (hcommas : ∀ host ∈ D.hosts, ',' ∉ host.toList) (h : w.Cares s D)
    (hstep : w.floor.step? e = some w'.floor) (hsmooth : e.isSmooth = true)
    (hadmits : w.floor.admits s e = true) (hd : w'.floor.journal = d ++ w.floor.journal)
    (hreleased : .released s ∉ d)
    (hchanges : ∀ c ∈ (w.lane .secret).changes, c ∈ (w'.lane .secret).changes)
    (hmisses : ∀ o, w.floor.secret? s = some o → w'.floor.secret? s = none → w'.Misses s) :
    w'.Cares s D := by
  have hmove := Floor.move_of_step? hstep
  have hs := hinformed.steady.sound
  have hopen := hinformed.steady.opened
  cases h with
  | stands h =>
      -- a secret that stands is deleted, or goes on standing
      have hplaced : .placed s ∉ d := fun hmem => by
        cases Floor.smooth_deeds hstep hsmooth hd _ hmem
      rcases Floor.stands_move hs hmove hd hplaced hinformed'.steady.recorded h with hg | habsent
      · exact .stands hg
      · obtain ⟨o, ho⟩ := Floor.present_of_stands h
        exact .missed (hmisses o ho habsent)
  | missed h => exact .missed (h.mono hchanges)
  | pursued h =>
      have hdomains := hinformed.steady.domains hinformed.asked
      rcases Floor.pursued_step hs hplain hopen hstep hsmooth hadmits hdomains hcommas hd hreleased
        h with hg | hforeign | hmeets
      · exact .pursued hg
      · exact .stands (Or.inr hforeign)
      · exact .stands (Or.inl hmeets)
  | abandoned h =>
      by_cases hfor : ∃ x ∈ d, x.IsFor s.key
      · obtain ⟨x, hx, hfor⟩ := hfor
        -- the renewal scan asks for the secret
        have hqueues : ∀ r : Request, x.AsksFor r → r.key = s.key → w'.Cares s D := by
          intro r hasksFor hkey
          refine .pursued (Or.inl ?_)
          rw [← hkey]
          exact Floor.queues_of_asksFor hopen hmove hd hx hasksFor
        cases x with
        | asked r => exact hqueues r (Or.inl rfl) hfor
        | renewed r => exact hqueues r (Or.inr rfl) hfor
        | released t => exact absurd (SecretRef.key_inj hplain hfor ▸ hx) hreleased
        | _ => exact hfor.elim
      · refine .abandoned ?_
        rw [hd]
        exact (abandoned_append_iff fun x hx hx' => hfor ⟨x, hx, hx'⟩).2 h

/-- The secret is released. -/
theorem Cares.released {k : Kind} {rest : List SecretRef} (hinformed : w.Informed s D)
    (herrand : (w.lane k).errand = .deleting s (some (.ok ())) rest) :
    (w.resume k s (.ok ()) rest).Cares s D := by
  have hplaced : .placed s ∉ w.floor.journal := fun hmem => by
    cases hinformed.steady.smooth _ hmem
  have hremoved := hinformed.answered k rest herrand
  -- a secret that has been written again is there, and any other is given up
  rcases hinformed.steady.recorded.gone_or_meets hplaced hremoved with hgone | hmeets
  · exact .abandoned (abandoned_cons.2 (Or.inl ⟨rfl, hgone⟩))
  · exact .stands (Or.inl (hmeets.congr rfl (Manager.release_settings _ _)))

/-- A change is handled while a resource demands the secret. -/
theorem Cares.handled {k j : Kind} {o : j.Object} {c : KindChange} {rest : List KindChange}
    (hinformed : w.Informed s D) (hlane : w.lane k = ⟨c :: rest, .looking []⟩)
    (hdemands : w.Demands s j o) (h : w.Heralds j o ∨ w.Cares s D) :
    (w.handle k c rest).Heralds j o ∨ (w.handle k c rest).Cares s D := by
  let rs := (w.controller.react c).requests
  have hfiled := hinformed.steady.filed
  have hopen := hinformed.steady.opened
  have huniform := hinformed.stock j o hdemands.live
  obtain ⟨hshelf, hsettings⟩ := asks_unchanged w.floor rs
  obtain ⟨hmanager, -⟩ := Floor.asks_eq w.floor rs
  have hsecret : (w.handle k c rest).floor.secret? s = w.floor.secret? s :=
    congrArg (fun shelf : Snapshot Secret => shelf.lookup s.place) hshelf
  have hstands : w.floor.Meets s D ∨ w.floor.Foreign s → (w.handle k c rest).Cares s D := fun h =>
    .stands (h.imp (fun hmeets => hmeets.congr hsecret hsettings)
      fun hforeign => hforeign.congr hsecret hsettings)
  have hqueues : ∀ r ∈ rs, r.key = s.key → (w.handle k c rest).Cares s D := by
    intro r hr hkey
    refine .pursued (Or.inl ?_)
    show (rs.foldl ask w.floor).manager.Queues s.key
    rw [hmanager, ← hkey]
    exact Manager.queues_obtainAll hopen hr
  have hasks : ⟨D, s⟩ ∈ rs ∨ w.floor.Meets s D ∨ w.floor.Foreign s →
      (w.handle k c rest).Cares s D := fun h => h.elim (fun hr => hqueues _ hr rfl) hstands
  -- what waits in a lane is what is handled, or goes on waiting
  have hwaits : ∀ {i : Kind} {c' : KindChange}, c' ∈ (w.lane i).changes →
      c' = c ∨ c' ∈ ((w.handle k c rest).lane i).changes := by
    intro i c' hc'
    by_cases hi : i = k
    · subst hi
      rw [show (w.handle i c rest).lane i = _ from lane_set_self _ _ _]
      rw [hlane] at hc'
      exact List.mem_cons.1 hc'
    · right
      rwa [show (w.handle k c rest).lane i = w.lane i from lane_set_ne _ _ hi]
  rcases h with ⟨c', hc', hbrings⟩ | hcares
  · rcases hwaits hc' with rfl | hstill
    · exact Or.inr (hasks (asks_of_news hfiled hdemands huniform hbrings))
    · exact Or.inl ⟨c', hstill, hbrings⟩
  · right
    cases hcares with
    | stands h => exact hstands h
    | missed h =>
        obtain ⟨sec, href, hsec⟩ := h
        rcases hwaits hsec with rfl | hstill
        · exact hasks (asks_of_deletion hfiled hdemands huniform href)
        · exact .missed ⟨sec, href, hstill⟩
    | pursued h => exact .pursued (h.asks hopen rs)
    | abandoned h =>
        by_cases hfor : ∃ r ∈ rs, r.key = s.key
        · obtain ⟨r, hr, hkey⟩ := hfor
          exact hqueues r hr hkey
        · refine .abandoned ?_
          rw [show (w.handle k c rest).floor.journal = _ from journal_asks w.floor rs]
          refine (abandoned_append_iff fun x hx hx' => hfor ?_).2 h
          obtain ⟨r, hr, rfl⟩ := List.mem_map.1 (List.mem_reverse.1 hx)
          exact ⟨r, hr, hx'⟩

/-! ## What a step keeps -/

theorem Heralds.mono {k : Kind} {o : k.Object} (h : w.Heralds k o)
    (hchanges : ∀ c ∈ (w.lane k).changes, c ∈ (w'.lane k).changes) : w'.Heralds k o := by
  obtain ⟨c, hc, hbrings⟩ := h
  exact ⟨c, hchanges c hc, hbrings⟩

/-- Who demands a secret did so before, if it was there. -/
theorem Demands.back {k : Kind} {o : k.Object} (h : w'.Demands s k o)
    (hlive : o ∈ (w.kinds.get k).objects)
    (hclasses : ∀ j, j.isClass = true → w'.kinds.get j = w.kinds.get j) : w.Demands s k o where
  live := hlive
  ns := h.ns
  heeded := (heeds_congr hclasses o).symm.trans h.heeded
  block := h.block

/-- A step in which no resource changes and no change is lost. -/
theorem Attended.keep (h : w.Attended s D) (hkinds : w'.kinds = w.kinds)
    (hchanges : ∀ k, ∀ c ∈ (w.lane k).changes, c ∈ (w'.lane k).changes)
    (hcares : w.Cares s D → w'.Cares s D) : w'.Attended s D := by
  intro k o hdemands
  have hlive : o ∈ (w.kinds.get k).objects := hkinds ▸ hdemands.live
  have hbefore := hdemands.back hlive fun j _ => by rw [hkinds]
  exact (h k o hbefore).imp (fun hheralds => hheralds.mono (hchanges k)) hcares

theorem changes_enqueue (w : World) (k : Kind) (cs : List KindChange) :
    ∀ j, ∀ c ∈ (w.lane j).changes, c ∈ ((w.enqueue k cs).lane j).changes :=
  fun _ _ hc => mem_changes_enqueue.2 (Or.inl hc)

/-- What is written is news. -/
theorem brings_changeOf {k : Kind} {o : k.Object} (hnews : w.isNews k o = true) :
    KindChange.Brings k o
      ⟨k, KindWatch.changeOf (w.kinds.get k) (fun o => (k.metadata o).key) o⟩ := by
  rw [KindWatch.changeOf]
  rw [isNews] at hnews
  cases hold : (w.kinds.get k).find? (k.metadata o).key with
  | none => exact Or.inl rfl
  | some old =>
      rw [hold, Option.all_some, Bool.or_eq_true] at hnews
      refine Or.inr ⟨old, rfl, ?_⟩
      rw [Bool.and_eq_false_iff]
      rcases hnews with hnone | hother
      · left
        rw [Option.isNone_iff_eq_none] at hnone
        rw [hnone]
        rfl
      · exact Or.inr (decide_eq_false (of_decide_eq_true hother))

/-- An object is written: whoever demands a secret now did so before, or is news. -/
theorem Attended.put {k : Kind} {o : k.Object} (h : w.Attended s D) (hnews : w.isNews k o = true)
    (hclass : k.isClass = false) : (w.put k o).Attended s D := by
  intro j o' hdemands
  rcases mem_objects_put hdemands.live with ⟨rfl, rfl⟩ | hlive
  · -- the object that was written is news, whatever it asked for before
    exact Or.inl ⟨_, mem_changes_enqueue.2 (Or.inr ⟨rfl, List.mem_singleton_self _⟩),
      brings_changeOf hnews⟩
  · have hbefore : w.Demands s j o' := by
      refine hdemands.back hlive fun i hi => PerKind.get_set_ne _ _ ?_
      rintro rfl
      rw [hclass] at hi
      cases hi
    have hchanges := changes_enqueue { w with kinds := (w.put k o).kinds } k
      [⟨k, KindWatch.changeOf (w.kinds.get k) (fun o => (k.metadata o).key) o⟩]
    exact (h j o' hbefore).imp (fun hheralds => hheralds.mono (hchanges j))
      fun hcares => hcares.congr rfl (hchanges .secret)

/-- An object is deleted. -/
theorem Attended.drop {k : Kind} {key : ObjectKey} {o : k.Object} (h : w.Attended s D)
    (hclass : k.isClass = false) : (w.drop k key o).Attended s D := by
  intro j o' hdemands
  have hbefore : w.Demands s j o' := by
    refine hdemands.back (mem_objects_drop hdemands.live) fun i hi => PerKind.get_set_ne _ _ ?_
    rintro rfl
    rw [hclass] at hi
    cases hi
  have hchanges := changes_enqueue { w with kinds := (w.drop k key o).kinds } k [⟨k, .deleted o⟩]
  exact (h j o' hbefore).imp (fun hheralds => hheralds.mono (hchanges j))
    fun hcares => hcares.congr rfl (hchanges .secret)

/-- The quota has room for what a worker is about to reserve for a secret. -/
def admits (w : World) (s : SecretRef) : WorldEvent → Bool
  | .work e => w.floor.admits s e
  | _ => true

/-- Only the handling of a change takes it away. -/
theorem changes_turn {e : WorldEvent} (hturn : Turn w e w') (hhandle : ∀ k, e ≠ .handle k)
    (j : Kind) : ∀ c ∈ (w.lane j).changes, c ∈ (w'.lane j).changes := by
  cases hturn with
  | worked inner step => exact changes_enqueue { w with floor := _ } .secret _ j
  | put other news => exact changes_enqueue { w with kinds := _ } _ _ j
  | dropped other known => exact changes_enqueue { w with kinds := _ } _ _ j
  | lost t => exact changes_enqueue { w with floor := _ } .secret _ j
  | handled waiting => exact absurd rfl (hhandle _)
  | looked looking =>
      intro c hc
      rwa [look, changes_setErrand]
  | served service deleting =>
      intro c hc
      rw [serve, changes_setErrand]
      split
      · exact changes_enqueue { w with floor := _ } .secret _ j c hc
      · exact hc
  | @resumed k t a rest deleting =>
      intro c hc
      cases a with
      | ok _ => rwa [resume, changes_setErrand]
      | error e => rwa [resume, changes_setErrand]

theorem Attended.step {e : WorldEvent} (hinformed : w.Informed s D) (hinformed' : w'.Informed s D)
    (hplain : s.IsPlain) (hcommas : ∀ host ∈ D.hosts, ',' ∉ host.toList)
    (h : w.Attended s D) (hstep : w.step? e = some w') (hsmooth : e.isSmooth = true)
    (hadmits : w.admits s e = true) : w'.Attended s D := by
  have hfiled := hinformed.steady.filed
  have hfloor := fun {e d} => Cares.floor (e := e) (d := d) hinformed hinformed' hplain hcommas
  -- whatever deletes the secret makes the controller miss it
  have hvanished : ∀ {g : Floor}, ∀ o, w.floor.secret? s = some o → g.secret? s = none →
      (w.withFloor g).Misses s := fun o ho habsent => misses_of_absent hfiled ho habsent
  have hkept : ∀ {P : Prop} {o : Secret}, w.floor.secret? s = some o → w.floor.secret? s = none →
      P := fun ho hnone => by cases ho.symm.trans hnone
  have hturn := turn_of_step? hstep
  cases hturn with
  | @worked e g inner step =>
      obtain ⟨d, hd⟩ := Floor.journal_move (Floor.move_of_step? step)
      have hreleased : .released s ∉ d := fun hmem => by cases inner_deeds step inner hd _ hmem
      have hchanges := changes_turn (.worked inner step) fun _ he => by cases he
      exact h.keep rfl hchanges fun hcares => hfloor hcares step hsmooth hadmits hd hreleased
        (hchanges .secret) hvanished
  | put other news => exact h.put news ((Bool.not_eq_true' _).mp hsmooth)
  | dropped other known => exact h.drop ((Bool.not_eq_true' _).mp hsmooth)
  | lost t =>
      have hchanges := changes_turn (w := w) (.lost t) fun _ he => by cases he
      exact h.keep rfl hchanges fun hcares => hfloor (e := .remove t) (d := [.removed t]) hcares rfl
        rfl rfl rfl (by simp) (hchanges .secret) hvanished
  | @handled k c rest waiting =>
      intro j o hdemands
      have hbefore : w.Demands s j o := hdemands.back hdemands.live fun _ _ => rfl
      exact Cares.handled hinformed waiting hbefore (h j o hbefore)
  | @looked k t rest looking =>
      have hchanges := changes_turn (.looked looking) fun _ he => by cases he
      exact h.keep rfl hchanges fun hcares => hfloor (e := .look t) (d := [.looked t]) hcares rfl
        rfl rfl rfl (by simp) (hchanges .secret) fun o ho hnone => hkept ho hnone
  | @served k t rest service deleting =>
      cases service with
      | refused e => cases hsmooth
      | lost e => cases hsmooth
      | done =>
          have hchanges := changes_turn (.served .done deleting) fun _ he => by cases he
          have hmisses : ∀ o, w.floor.secret? s = some o →
              (w.serve k t rest .done).floor.secret? s = none →
              (w.serve k t rest .done).Misses s := by
            intro o ho habsent
            refine (hvanished (g := (w.floor.erase t).note (.removed t)) o ho habsent).mono ?_
            intro c hc
            rwa [serve, changes_setErrand]
          exact h.keep rfl hchanges fun hcares => hfloor (e := .remove t) (d := [.removed t]) hcares
            rfl rfl rfl rfl (by simp) (hchanges .secret) hmisses
  | @resumed k t a rest deleting =>
      have hchanges := changes_turn (.resumed deleting) fun _ he => by cases he
      cases a with
      | error e => exact h.keep rfl hchanges fun hcares => hcares.congr rfl (hchanges .secret)
      | ok _ =>
          refine h.keep rfl hchanges fun hcares => ?_
          by_cases ht : t = s
          · subst ht
            exact Cares.released hinformed deleting
          · -- the release of another secret is an event like any other
            exact hfloor (e := .release t) (d := [.released t]) hcares rfl rfl rfl rfl
              (by simpa using fun heq => ht heq.symm) (hchanges .secret)
              fun o ho hnone => hkept ho hnone

/-! ## The end -/

/-- Whether the quota has room for everything that is reserved for a secret in a run. -/
def roomy (w : World) (s : SecretRef) : List WorldEvent → Bool
  | [] => true
  | e :: es => w.admits s e && (w.step? e).all fun w' => w'.roomy s es

theorem attended_run? {es : List WorldEvent} (hinformed : w.Informed s D) (hplain : s.IsPlain)
    (hcommas : ∀ host ∈ D.hosts, ',' ∉ host.toList) (h : w.Attended s D)
    (hrun : w.run? es = some w') (hsmooth : ∀ e ∈ es, e.isSmooth = true)
    (huniform : ∀ e ∈ es, e.IsUniform s D) (hroomy : w.roomy s es = true) :
    w'.Informed s D ∧ w'.Attended s D := by
  induction es generalizing w with
  | nil =>
      cases hrun
      exact ⟨hinformed, h⟩
  | cons e es ih =>
      rw [run?_cons] at hrun
      obtain ⟨w₁, hfirst, hrest⟩ := Option.bind_eq_some_iff.1 hrun
      rw [roomy, hfirst, Option.all_some, Bool.and_eq_true] at hroomy
      have he := hsmooth e List.mem_cons_self
      have hinformed₁ := hinformed.step hfirst he (huniform e List.mem_cons_self) hcommas
      refine ih hinformed₁ ?_ hrest (fun e' he' => hsmooth e' (List.mem_cons_of_mem _ he'))
        (fun e' he' => huniform e' (List.mem_cons_of_mem _ he')) hroomy.2
      exact h.step hinformed hinformed₁ hplain hcommas hfirst he hroomy.1

/-- A cluster with classes of ingresses and without other resources, where the manager has just
started. -/
def startAmong (classes : Snapshots) (settings : ManagerSettings) (max : Int)
    (listing : Except Error (List Secret)) (shelf : Snapshot Secret) : World :=
  { start settings max listing shelf with kinds := classes }

theorem lane_startAmong (classes : Snapshots) (settings : ManagerSettings) (max : Int)
    (listing : Except Error (List Secret)) (shelf : Snapshot Secret) (k : Kind) :
    (startAmong classes settings max listing shelf).lane k = ⟨[], .looking []⟩ :=
  PerKind.get_ofFn _ k

/-- Classes name no secrets. -/
theorem uniform_of_class {k : Kind} (hk : k.isClass = true) (o : k.Object) :
    (k.secured o).Uniform s D := by
  intro _ b hb
  cases k with
  | platformClass => cases hb
  | ingressClass => cases hb
  | legacyClass => cases hb
  | _ => cases hk

theorem informed_start {classes : Snapshots} {settings : ManagerSettings} {max : Int}
    {listing : Except Error (List Secret)} {shelf : Snapshot Secret}
    (hclasses : ∀ k, k.isClass = false → (classes.get k).objects = [])
    (hfiled : ∀ k o, shelf.lookup k = some o → o.metadata.key = k ∧ o.ref.place = k)
    (hstored : ∀ o, shelf.lookup s.place = some o → o.RecordsOnly settings.controllerName D) :
    (startAmong classes settings max listing shelf).Informed s D where
  steady := Floor.steady_start hfiled hstored
  asked := fun r hr => by cases hr
  stock := by
    intro k o ho
    change o ∈ (classes.get k).objects at ho
    cases hk : k.isClass with
    | true => exact uniform_of_class hk o
    | false =>
        rw [hclasses k hk] at ho
        cases ho
  brought := by
    intro k c hc
    rw [lane_startAmong] at hc
    cases hc
  answered := by
    intro k rest herrand
    rw [lane_startAmong] at herrand
    cases herrand

/-- Nobody demands a secret before there are resources. -/
theorem attended_start {classes : Snapshots} {settings : ManagerSettings} {max : Int}
    {listing : Except Error (List Secret)} {shelf : Snapshot Secret}
    (hclasses : ∀ k, k.isClass = false → (classes.get k).objects = []) :
    (startAmong classes settings max listing shelf).Attended s D := by
  intro k o hdemands
  have hlive : o ∈ (classes.get k).objects := hdemands.live
  cases hk : k.isClass with
  | false =>
      rw [hclasses k hk] at hlive
      cases hlive
  | true =>
      have hheeded := hdemands.heeded
      cases k with
      | platformClass => cases hheeded
      | ingressClass => cases hheeded
      | legacyClass => cases hheeded
      | _ => cases hk

/-- When nothing waits or is at work, a demanded secret is there unless the demand was abandoned. -/
theorem Cares.settled (h : w.Cares s D) (hinformed : w.Informed s D) (hquiet : w.IsQuiet) :
    w.floor.Meets s D ∨ w.floor.Foreign s ∨ Abandoned s w.floor.journal := by
  cases h with
  | stands h => exact h.imp_right Or.inl
  | missed h =>
      obtain ⟨sec, -, hsec⟩ := h
      rw [hquiet.2 .secret] at hsec
      cases hsec
  | pursued h => exact absurd h (Floor.not_pursued_of_quiet hinformed.steady.sound hquiet.1 s)
  | abandoned h => exact Or.inr (Or.inr h)

/-- A cluster that starts without resources except for classes of ingresses, and runs smoothly, with
enough quota for a secret and resources that name it for the same hosts, and becomes quiet. If the
manager owned the secret at the start, it was for these hosts too. If a resource demands the
secret in the end and it does not belong to somebody else, then it is there for these hosts
exactly if the demand for it was not abandoned. -/
theorem demand_met_iff {classes : Snapshots} {settings : ManagerSettings} {max : Int}
    {listing : Except Error (List Secret)} {shelf : Snapshot Secret} {es : List WorldEvent}
    {k : Kind} {o : k.Object}
    (hclasses : ∀ k, k.isClass = false → (classes.get k).objects = [])
    (hfiled : ∀ k o, shelf.lookup k = some o → o.metadata.key = k ∧ o.ref.place = k)
    (hstored : ∀ o, shelf.lookup s.place = some o → o.RecordsOnly settings.controllerName D)
    (hplain : s.IsPlain) (hcommas : ∀ host ∈ D.hosts, ',' ∉ host.toList)
    (hrun : (startAmong classes settings max listing shelf).run? es = some w)
    (hsmooth : ∀ e ∈ es, e.isSmooth = true) (huniform : ∀ e ∈ es, e.IsUniform s D)
    (hroomy : (startAmong classes settings max listing shelf).roomy s es = true)
    (hquiet : w.IsQuiet) (hdemand : w.Demands s k o) (hours : ¬ w.floor.Foreign s) :
    w.floor.Meets s D ↔ ¬ Abandoned s w.floor.journal := by
  obtain ⟨hinformed, hattended⟩ := attended_run? (informed_start hclasses hfiled hstored) hplain
    hcommas (attended_start hclasses) hrun hsmooth huniform hroomy
  constructor
  · rintro ⟨o, ho, -⟩ habandoned
    have habsent := (hinformed.steady.forsakes habandoned).absent hquiet.1
    cases ho.symm.trans habsent
  · intro hnot
    rcases hattended k o hdemand with ⟨c, hc, -⟩ | hcares
    · rw [hquiet.2 k] at hc
      cases hc
    · rcases hcares.settled hinformed hquiet with hmeets | hforeign | habandoned
      · exact hmeets
      · exact absurd hforeign hours
      · exact absurd habandoned hnot

/-! ## A request between the deletion and the release -/

/-- An opted-in ingress of a supported controller that names the shared secret for a host. -/
def ingressFor (version host : String) : Ingress where
  metadata := { Metadata.empty with
    name := some "shop"
    ns := some "default"
    resourceVersion := some version
    annotations := some (Table.ofList
      [(Wire.enableKey, "true"), (Wire.legacyClassKey, "traefik")]) }
  className := none
  tls := [⟨some [host], some sharedSecret.name⟩]

/-- The certificate of a route has been issued. The route is deleted, and its secret with it; while
the call for the deletion is still to return, an ingress appears that names the secret for the same
host, and the controller asks for it twice: for the ingress, and because the secret was deleted.
Then the call returns, and the secret is released. -/
def askedBeforeRelease : List WorldEvent :=
  [.put .route (routeFor "1" "a.com"), .handle .route,
    .work (.take 0), .work (.serve 0 .done), .work (.resume 0),
    .work (.order 0 (.ok anyCertificate)), .work (.serve 0 .done), .work (.resume 0),
    .drop .route ⟨some "default", "web"⟩, .handle .route, .look .route, .serve .route .done,
    .put .ingress (ingressFor "1" "a.com"), .handle .ingress, .handle .secret, .resume .route,
    .work (.take 0)]

/-- There are no objects in an empty cluster. -/
theorem objects_empty (k : Kind) :
    ((PerKind.ofFn fun _ => Snapshot.empty : Snapshots).get k).objects = [] := by
  rw [PerKind.get_ofFn]
  rfl

theorem askedBeforeRelease_runs :
    ∃ w, alone.run? askedBeforeRelease = some w ∧ w.IsQuiet ∧
      w.Demands sharedSecret .ingress (ingressFor "1" "a.com") ∧
      (∀ j o', o' ∈ (w.kinds.get j).objects →
        (⟨j, o'⟩ : Sigma Kind.Object) = ⟨.ingress, ingressFor "1" "a.com"⟩) ∧
      w.floor.secret? sharedSecret = none ∧ Abandoned sharedSecret w.floor.journal := by
  refine ⟨_, rfl, ⟨⟨rfl, ?_, rfl, rfl⟩, ?_⟩, ?_, ?_, rfl, ?_⟩
  · intro p hp
    cases List.mem_singleton.1 hp
    rfl
  · intro k
    cases k with
    | _ => rfl
  · refine ⟨List.mem_singleton_self _, rfl, rfl, ?_⟩
    exact ⟨_, List.mem_singleton_self _, rfl, rfl⟩
  · intro j o' ho'
    cases j with
    | ingress =>
        cases List.mem_singleton.1 ho'
        rfl
    | _ => cases ho'
  · exact ⟨[], _, rfl, fun x hx => (by cases hx), Or.inl rfl⟩

theorem demand_met_iff_askedBeforeRelease :
    ∃ w, alone.run? askedBeforeRelease = some w ∧
      w.Demands sharedSecret .ingress (ingressFor "1" "a.com") ∧
      ¬ w.floor.Meets sharedSecret (.ofHosts ["a.com"]) := by
  obtain ⟨w, hrun, hquiet, hdemand, -, hnone, habandoned⟩ := askedBeforeRelease_runs
  have hplain : sharedSecret.IsPlain := by decide
  refine ⟨w, hrun, hdemand, fun hmeets => ?_⟩
  exact (demand_met_iff (fun k _ => objects_empty k) (fun k o h => by cases h)
    (fun o h => by cases h) hplain (by decide) hrun (List.all_eq_true.1 rfl) (by decide) rfl hquiet
    hdemand (Floor.not_foreign_of_absent hnone)).1 hmeets habandoned

/-- It is not true that a demanded secret is there when the cluster has become quiet: what is asked
for while the call for its deletion is still to return is withdrawn. -/
theorem live_demand_can_be_withdrawn :
    ¬ ∀ (classes : Snapshots) (settings : ManagerSettings) (max : Int)
      (listing : Except Error (List Secret)) (shelf : Snapshot Secret) (es : List WorldEvent)
      (w : World) (s : SecretRef) (D : DomainSet) (k : Kind) (o : k.Object),
      (∀ k, k.isClass = false → (classes.get k).objects = []) →
      (∀ k o, shelf.lookup k = some o → o.metadata.key = k ∧ o.ref.place = k) →
      (∀ o, shelf.lookup s.place = some o → o.RecordsOnly settings.controllerName D) →
      s.IsPlain → (∀ host ∈ D.hosts, ',' ∉ host.toList) →
      (startAmong classes settings max listing shelf).run? es = some w →
      (∀ e ∈ es, e.isSmooth = true) → (∀ e ∈ es, e.IsUniform s D) →
      (startAmong classes settings max listing shelf).roomy s es = true → w.IsQuiet →
      w.Demands s k o →
      (∀ j o', o' ∈ (w.kinds.get j).objects → (j.secured o').info.ns = s.ns →
        (∃ b ∈ (j.secured o').blocks, b.secretName = s.name) →
          (⟨j, o'⟩ : Sigma Kind.Object) = ⟨k, o⟩) →
      ¬ w.floor.Foreign s → w.floor.Meets s D := by
  intro h
  obtain ⟨w, hrun, hquiet, hdemand, honly, hnone, -⟩ := askedBeforeRelease_runs
  obtain ⟨o, ho, -⟩ := h _ _ _ _ _ askedBeforeRelease w sharedSecret (.ofHosts ["a.com"]) _ _
    (fun k _ => objects_empty k) (fun k o h => by cases h) (fun o h => by cases h) (by decide)
    (by decide) hrun (List.all_eq_true.1 rfl) (by decide) rfl hquiet hdemand
    (fun j o' ho' _ _ => honly j o' ho') (Floor.not_foreign_of_absent hnone)
  cases hnone.symm.trans ho

end World

end IngressTls
