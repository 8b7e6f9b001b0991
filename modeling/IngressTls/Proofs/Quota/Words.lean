import IngressTls.Proofs.Quota.AtRest
import IngressTls.Proofs.Quota.Operating
import IngressTls.Proofs.Quota.Overlap

set_option autoImplicit false

/-! # The quota in words of 64 bits

A machine adds and subtracts words of 64 bits, and a result that leaves their range is lost. It
adds up the amounts of a table in the order in which the table hands them out, which may be any
order, and so every partial sum of every order has to fit.

The largest number that occurs is what is in use together with the change that a call asks for. No
amount that comes to be tested exceeds the ceiling, and what is in use is at most twice the ceiling.
So three times the ceiling is enough room: then all sections of all callers do in words what they
do with unbounded integers. With less room they do not: `precheckWords_eq_none`.

Main statement: `words_suffice`.
-/

namespace IngressTls

namespace Quota

/-! ## Arithmetic in words -/

/-- The sum of two words, unless it leaves their range. -/
def addWords (a b : Int64) : Option Int64 := if fits (a.toInt + b.toInt) then some (a + b) else none

/-- The difference of two words, unless it leaves their range. -/
def subWords (a b : Int64) : Option Int64 := if fits (a.toInt - b.toInt) then some (a - b) else none

/-- Words added one after the other, unless a partial sum leaves their range. -/
def sumWords (ns : List Int64) : Option Int64 := ns.foldlM addWords 0

/-- The orders in which the tables of a quota hand out their amounts. -/
structure Orders where
  /-- The acquired amounts as they are handed out. -/
  acquired : List Int → List Int
  /-- The pending amounts as they are handed out. -/
  pending : List Int → List Int
  /-- They are the acquired amounts. -/
  acquired_perm : ∀ ns, (acquired ns).Perm ns
  /-- They are the pending amounts. -/
  pending_perm : ∀ ns, (pending ns).Perm ns

/-! ## The computations of the quota -/

/-- The sum of all acquired amounts. -/
def usedWords (o : Orders) (q : Quota) : Option Int64 :=
  sumWords ((o.acquired q.acquired.values).map Int64.ofInt)

/-- The sum of all acquired and all pending amounts. -/
def inUseWords (o : Orders) (q : Quota) : Option Int64 := do
  let acquired ← q.usedWords o
  let pending ← sumWords ((o.pending q.pending.values).map Int64.ofInt)
  addWords acquired pending

/-- Tests whether an amount may replace what the resource holds. -/
def checkWords (o : Orders) (q : Quota) (resource : String) (amount : Int64) :
    Option (Except QuotaRefusal Unit) :=
  if q.pending.has resource then some (.error (.pending resource))
  else do
    let inUse ← q.inUseWords o
    let change ← subWords amount (Int64.ofInt (q.acquiredBy resource))
    let after ← addWords inUse change
    return if Int64.ofInt q.max < after then
        .error (.exceeded resource amount.toInt inUse.toInt q.max)
      else .ok ()

/-- The part of the admission test that only reads. -/
def precheckWords (o : Orders) (q : Quota) (resource : String) (amount : Int64) :
    Option (Except QuotaRefusal Unit) :=
  if !q.enabled then some (.error .disabled)
  else if amount = 0 then some (.ok ())
  else if Int64.ofInt q.max < amount then do
    let inUse ← q.inUseWords o
    return .error (.exceeded resource amount.toInt inUse.toInt q.max)
  else q.checkWords o resource amount

/-- Tests again and makes the amount pending. -/
def registerWords (o : Orders) (q : Quota) (resource : String) (amount : Int64) :
    Option (Except QuotaRefusal Quota) :=
  let opened : Quota := { q with pending := q.pending.insert resource amount.toInt }
  if amount = 0 then
    some (if q.pending.has resource then .error (.pending resource) else .ok opened)
  else (q.checkWords o resource amount).map fun answer => answer.map fun _ => opened

/-! ## Words that stand for integers -/

variable {q : Quota} {resource : String} {a b : Int}

theorem toInt_ofInt (h : fits a = true) : (Int64.ofInt a).toInt = a := by
  obtain ⟨hleast, hgreatest⟩ := fits_iff.1 h
  exact Int64.toInt_ofInt_of_le (by omega) (by omega)

theorem ofInt_lt_ofInt (ha : fits a = true) (hb : fits b = true) :
    Int64.ofInt a < Int64.ofInt b ↔ a < b := by
  rw [Int64.lt_iff_toInt_lt, toInt_ofInt ha, toInt_ofInt hb]

theorem ofInt_eq_zero (ha : fits a = true) : Int64.ofInt a = 0 ↔ a = 0 := by
  rw [← Int64.toInt_inj, toInt_ofInt ha, Int64.toInt_zero]

theorem addWords_ofInt (ha : fits a = true) (hb : fits b = true) (h : fits (a + b) = true) :
    addWords (Int64.ofInt a) (Int64.ofInt b) = some (Int64.ofInt (a + b)) := by
  rw [addWords, toInt_ofInt ha, toInt_ofInt hb, if_pos h, Int64.ofInt_add]

theorem subWords_ofInt (ha : fits a = true) (hb : fits b = true) (h : fits (a - b) = true) :
    subWords (Int64.ofInt a) (Int64.ofInt b) = some (Int64.ofInt (a - b)) := by
  rw [subWords, toInt_ofInt ha, toInt_ofInt hb, if_pos h, Int64.ofInt_sub]

theorem addWords_of_not_fits (ha : fits a = true) (hb : fits b = true)
    (h : fits (a + b) = false) : addWords (Int64.ofInt a) (Int64.ofInt b) = none := by
  rw [addWords, toInt_ofInt ha, toInt_ofInt hb, h, if_neg Bool.false_ne_true]

/-- Amounts that can be added one after the other have their sum in words. -/
theorem foldlM_addWords {ns : List Int} (hns : ∀ n ∈ ns, fits n = true) (ha : fits a = true)
    (h : sumFits a ns = true) :
    (ns.map Int64.ofInt).foldlM addWords (Int64.ofInt a) = some (Int64.ofInt (a + ns.sum)) := by
  induction ns generalizing a with
  | nil => simp
  | cons n ns ih =>
      rw [sumFits, Bool.and_eq_true] at h
      obtain ⟨hsum, hrest⟩ := h
      have hn := hns n List.mem_cons_self
      have hns' : ∀ m ∈ ns, fits m = true := fun m hm => hns m (List.mem_cons_of_mem n hm)
      rw [List.map_cons, List.foldlM_cons, addWords_ofInt ha hn hsum, List.sum_cons, ← add_assoc]
      exact ih hns' hsum hrest

/-- The amounts of a table, in whatever order it hands them out. -/
theorem sumWords_of_perm {t : Table Int} {ns : List Int} (hperm : ns.Perm t.values)
    (hnonneg : ∀ k, 0 ≤ t.amount k) (hle : t.total ≤ 9223372036854775807) :
    sumWords (ns.map Int64.ofInt) = some (Int64.ofInt t.total) := by
  have hns : ∀ n ∈ ns, 0 ≤ n := fun n hn => nonneg_of_mem_values hnonneg (hperm.mem_iff.1 hn)
  have hsum : ns.sum = t.total := hperm.sum_eq
  have hfits : ∀ n ∈ ns, fits n = true := by
    intro n hn
    have hn0 := hns n hn
    have hpart := List.single_le_sum hns n hn
    exact fits_iff.2 ⟨by omega, by omega⟩
  calc sumWords (ns.map Int64.ofInt)
      = (ns.map Int64.ofInt).foldlM addWords (Int64.ofInt 0) := rfl
    _ = some (Int64.ofInt (0 + ns.sum)) :=
        foldlM_addWords hfits rfl (totalFits hperm hnonneg hle)
    _ = some (Int64.ofInt t.total) := by rw [zero_add, hsum]

/-! ## Room for three times the ceiling -/

/-- What is pending stays below the ceiling. -/
theorem Sound.pending_total_le (h : q.Sound) : q.pending.total ≤ q.max := by
  calc q.pending.total = ∑ r ∈ q.resources, q.pending.amount r :=
        Table.total_eq_sum q.pending fun _ hk => mem_resources_of_pending hk
    _ ≤ q.exposure := Finset.sum_le_sum fun r _ => le_max_right _ _
    _ ≤ q.max := h.exposure_le

theorem Sound.used_le (h : q.Sound) : q.used ≤ q.max := (used_le_exposure q).trans h.exposure_le

/-- What a resource holds is part of what is in use. -/
theorem Sound.acquiredBy_le_inUse (h : q.Sound) (resource : String) :
    q.acquiredBy resource ≤ q.inUse := by
  let names := insert resource q.resources
  have hsum : ∀ r ∈ names, 0 ≤ q.acquired.amount r + q.pending.amount r := fun r _ =>
    add_nonneg (h.acquired_nonneg r) (h.pending_nonneg r)
  calc q.acquiredBy resource ≤ q.acquired.amount resource + q.pending.amount resource :=
        le_add_of_nonneg_right (h.pending_nonneg resource)
    _ ≤ ∑ r ∈ names, (q.acquired.amount r + q.pending.amount r) :=
        Finset.single_le_sum hsum (Finset.mem_insert_self _ _)
    _ = q.inUse := (inUse_eq_sum (Finset.subset_insert _ _)).symm

theorem Sound.bounds (h : q.Sound) : 0 ≤ q.used ∧ q.used ≤ q.max ∧ 0 ≤ q.pending.total ∧
    q.pending.total ≤ q.max ∧ q.inUse = q.used + q.pending.total := by
  have hused : 0 ≤ q.used :=
    List.sum_nonneg fun n hn => nonneg_of_mem_values h.acquired_nonneg hn
  have hpending : 0 ≤ q.pending.total :=
    List.sum_nonneg fun n hn => nonneg_of_mem_values h.pending_nonneg hn
  exact ⟨hused, h.used_le, hpending, h.pending_total_le, rfl⟩

/-- Below a ceiling that is a word each table can be added up, and what is in use is one more
addition. -/
theorem Sound.totalWords_eq (h : q.Sound) (hword : q.max ≤ 9223372036854775807) (o : Orders) :
    q.usedWords o = some (Int64.ofInt q.used) ∧
      q.inUseWords o = addWords (Int64.ofInt q.used) (Int64.ofInt q.pending.total) := by
  obtain ⟨hused0, hused, hpending0, hpending, hinUse⟩ := h.bounds
  have hacquiredSum : q.usedWords o = some (Int64.ofInt q.used) :=
    sumWords_of_perm (o.acquired_perm _) h.acquired_nonneg (show q.used ≤ _ by omega)
  have hpendingSum := sumWords_of_perm (o.pending_perm _) h.pending_nonneg (by omega)
  refine ⟨hacquiredSum, ?_⟩
  rw [inUseWords, hacquiredSum, hpendingSum]
  rfl

/-- A quota with room for three times its ceiling. -/
structure Roomy (q : Quota) : Prop where
  /-- The claims stay below the ceiling. -/
  sound : q.Sound
  /-- Three times the ceiling is a word. -/
  third : 3 * q.max ≤ 9223372036854775807

namespace Roomy

variable {amount : Int}

theorem fits_of_le (h : q.Roomy) (hleast : -q.max ≤ a) (hgreatest : a ≤ 3 * q.max) :
    fits a = true := by
  have hthird := h.third
  exact fits_iff.2 ⟨by omega, by omega⟩

theorem fits_max (h : q.Roomy) : fits q.max = true := by
  obtain ⟨hused0, hused, -⟩ := h.sound.bounds
  exact h.fits_of_le (by omega) (by omega)

theorem fits_inUse (h : q.Roomy) : fits q.inUse = true := by
  obtain ⟨hused0, hused, hpending0, hpending, hinUse⟩ := h.sound.bounds
  exact h.fits_of_le (by omega) (by omega)

/-- What a test computes beside what is in use. What would be in use after the change is the largest
number that there is. -/
theorem fits_change (h : q.Roomy) (resource : String) (hnonneg : 0 ≤ amount)
    (hle : amount ≤ q.max) :
    fits (q.acquiredBy resource) = true ∧ fits (amount - q.acquiredBy resource) = true ∧
      fits (q.inUse + (amount - q.acquiredBy resource)) = true := by
  obtain ⟨hused0, hused, hpending0, hpending, hinUse⟩ := h.sound.bounds
  have hacquired0 : 0 ≤ q.acquiredBy resource := h.sound.acquired_nonneg resource
  have hacquired : q.acquiredBy resource ≤ q.max := h.sound.acquired_le resource
  have hpart := h.sound.acquiredBy_le_inUse resource
  refine ⟨?_, ?_, ?_⟩
  · exact h.fits_of_le (by omega) (by omega)
  · exact h.fits_of_le (by omega) (by omega)
  · exact h.fits_of_le (by omega) (by omega)

theorem word_max (h : q.Roomy) : q.max ≤ 9223372036854775807 := by
  have hfits := fits_iff.1 h.fits_max
  exact hfits.2

theorem usedWords_eq (h : q.Roomy) (o : Orders) : q.usedWords o = some (Int64.ofInt q.used) :=
  (h.sound.totalWords_eq h.word_max o).1

theorem inUseWords_eq (h : q.Roomy) (o : Orders) :
    q.inUseWords o = some (Int64.ofInt q.inUse) := by
  obtain ⟨hused0, hused, hpending0, hpending, hinUse⟩ := h.sound.bounds
  calc q.inUseWords o = addWords (Int64.ofInt q.used) (Int64.ofInt q.pending.total) :=
        (h.sound.totalWords_eq h.word_max o).2
    _ = some (Int64.ofInt (q.used + q.pending.total)) :=
        addWords_ofInt (h.fits_of_le (by omega) (by omega)) (h.fits_of_le (by omega) (by omega))
          (h.fits_of_le (by omega) (by omega))
    _ = some (Int64.ofInt q.inUse) := by rw [hinUse]

theorem checkWords_eq (h : q.Roomy) (o : Orders) (resource : String) (hnonneg : 0 ≤ amount)
    (hle : amount ≤ q.max) :
    q.checkWords o resource (Int64.ofInt amount) = some (q.check resource amount) := by
  have hamount : fits amount = true := h.fits_of_le (by omega) (by omega)
  obtain ⟨hacquired, hchange, hafter⟩ := h.fits_change resource hnonneg hle
  rw [checkWords, check]
  split
  · rfl
  · simp only [h.inUseWords_eq o, subWords_ofInt hamount hacquired hchange,
      addWords_ofInt h.fits_inUse hchange hafter, ofInt_lt_ofInt h.fits_max hafter,
      toInt_ofInt hamount, toInt_ofInt h.fits_inUse, Option.bind_eq_bind, Option.bind_some,
      gt_iff_lt]
    rfl

theorem precheckWords_eq (h : q.Roomy) (o : Orders) (resource : String) (hnonneg : 0 ≤ amount)
    (hword : amount ≤ 9223372036854775807) :
    q.precheckWords o resource (Int64.ofInt amount) = some (q.precheck resource amount) := by
  have hamount : fits amount = true := fits_iff.2 ⟨by omega, hword⟩
  rw [precheckWords, precheck]
  simp only [ofInt_eq_zero hamount, ofInt_lt_ofInt h.fits_max hamount, gt_iff_lt]
  split_ifs with hoff hzero hover
  · rfl
  · rfl
  · -- what is in use is computed for the refusal only
    simp only [h.inUseWords_eq o, toInt_ofInt hamount, toInt_ofInt h.fits_inUse,
      Option.bind_eq_bind, Option.bind_some]
    rfl
  · exact h.checkWords_eq o resource hnonneg (by omega)

theorem registerWords_eq (h : q.Roomy) (o : Orders) (resource : String) (hnonneg : 0 ≤ amount)
    (hle : amount ≤ q.max) :
    q.registerWords o resource (Int64.ofInt amount) = some (q.register resource amount) := by
  have hamount : fits amount = true := h.fits_of_le (by omega) (by omega)
  rw [registerWords, register, h.checkWords_eq o resource hnonneg hle]
  simp only [ofInt_eq_zero hamount, toInt_ofInt hamount]
  split
  · rfl
  · rfl

theorem usedFits (h : q.Roomy) : q.usedFits = true :=
  totalFits (.refl _) h.sound.acquired_nonneg (h.sound.used_le.trans h.word_max)

/-- Nobody has to break a reservation off. -/
theorem reserveFits (h : q.Roomy) (resource : String) (hnonneg : 0 ≤ amount) :
    q.reserveFits resource amount = true := by
  have hpendingFits : sumFits 0 q.pending.values = true :=
    totalFits (.refl _) h.sound.pending_nonneg (h.sound.pending_total_le.trans h.word_max)
  have hinUseFits : q.inUseFits = true := by
    rw [inUseFits, h.usedFits, hpendingFits, h.fits_inUse]
    rfl
  rw [Quota.reserveFits]
  split_ifs with hoff hover
  · rfl
  · exact hinUseFits
  · obtain ⟨-, hchange, hafter⟩ := h.fits_change resource hnonneg (by omega)
    simp [checkFits, hinUseFits, hchange, hafter]

end Roomy

end Quota

/-- Whether the amount of a call is a word. -/
def QuotaSection.IsWord : QuotaSection → Prop
  | .inspect _ amount => amount ≤ 9223372036854775807
  | .register _ | .commit _ | .rollback _ | .drop _ => True

namespace QuotaInUse

open Quota (Orders)

/-! ## Sections in words -/

/-- A section is carried out in words, unless a result is lost. Handles are used without any
computation. -/
def stepWords? (u : QuotaInUse) (o : Orders) : QuotaSection → Option QuotaInUse
  | .inspect resource amount =>
    (u.quota.precheckWords o resource (Int64.ofInt amount)).map fun
      | .error _ => u
      | .ok () => { u with admitted := u.admitted ++ [(resource, amount)] }
  | .register call =>
    match u.admitted[call]? with
    | none => some u
    | some (resource, amount) =>
      let u := { u with admitted := u.admitted.eraseIdx call }
      (u.quota.registerWords o resource (Int64.ofInt amount)).map fun
        | .error _ => u
        | .ok quota => { u with quota, handles := u.handles ++ [⟨resource, false⟩] }
  | .commit handle => some (u.use handle Transaction.commit)
  | .rollback handle => some (u.use handle Transaction.rollback)
  | .drop handle =>
    some { u.use handle Transaction.rollback with handles := u.handles.eraseIdx handle }

/-- Sections are carried out in words one after the other, each with orders of its own. -/
def runWords? (u : QuotaInUse) : List (QuotaSection × Orders) → Option QuotaInUse
  | [] => some u
  | (s, o) :: ss => (u.stepWords? o s).bind fun u' => u'.runWords? ss

/-- There is room for three times the ceiling, and no call has passed that asks for more than the
ceiling. -/
structure Roomy (u : QuotaInUse) : Prop where
  /-- There is room. -/
  quota : u.quota.Roomy
  /-- The calls that have passed ask for no more than the ceiling. -/
  admitted : ∀ c ∈ u.admitted, (c.2 : Int) ≤ u.quota.max

namespace Roomy

variable {u : QuotaInUse}

theorem start {max : Int} (hmax : 0 < max) (hthird : 3 * max ≤ 9223372036854775807) :
    (QuotaInUse.start max).Roomy where
  quota := ⟨.new hmax, hthird⟩
  admitted := fun _ hc => nomatch hc

theorem step (h : u.Roomy) (s : QuotaSection) : (u.step s).Roomy := by
  have hmax := max_step u s
  refine ⟨⟨(effect_step u s).sound h.quota.sound, ?_⟩, fun c hc => ?_⟩
  · rw [hmax]
    exact h.quota.third
  · rw [hmax]
    rcases mem_admitted_step hc with hold | hpassed
    · exact h.admitted c hold
    · have hpos := Quota.enabled_of_precheck hpassed
      have hle := Quota.le_max_of_precheck hpassed
      omega

theorem stepWords?_eq (h : u.Roomy) (o : Orders) {s : QuotaSection} (hword : s.IsWord) :
    u.stepWords? o s = some (u.step s) := by
  cases s with
  | inspect resource amount =>
      have hamount : (amount : Int) ≤ 9223372036854775807 := by exact_mod_cast hword
      rw [stepWords?, QuotaInUse.step,
        h.quota.precheckWords_eq o resource (Int.natCast_nonneg amount) hamount]
      cases u.quota.precheck resource amount with
      | error e => rfl
      | ok _ => rfl
  | register call =>
      rw [stepWords?, QuotaInUse.step]
      cases hcall : u.admitted[call]? with
      | none => rfl
      | some c =>
          obtain ⟨resource, amount⟩ := c
          have hle : (amount : Int) ≤ u.quota.max :=
            h.admitted (resource, amount) (List.mem_of_getElem? hcall)
          dsimp only
          rw [h.quota.registerWords_eq o resource (Int.natCast_nonneg amount) hle]
          cases u.quota.register resource amount with
          | error e => rfl
          | ok q => rfl
  | commit handle => rfl
  | rollback handle => rfl
  | drop handle => rfl

/-- All sections can be carried out in words, with the same outcome, and there is room left. -/
theorem runWords?_eq (h : u.Roomy) {ss : List (QuotaSection × Orders)}
    (hwords : ∀ s ∈ ss, s.1.IsWord) :
    u.runWords? ss = some (u.run (ss.map Prod.fst)) ∧ (u.run (ss.map Prod.fst)).Roomy := by
  induction ss generalizing u with
  | nil => exact ⟨rfl, h⟩
  | cons s ss ih =>
      obtain ⟨s, o⟩ := s
      have hfirst : s.IsWord := hwords (s, o) List.mem_cons_self
      have hrest : ∀ s' ∈ ss, s'.1.IsWord := fun s' hs' => hwords s' (List.mem_cons_of_mem _ hs')
      rw [runWords?, h.stepWords?_eq o hfirst, List.map_cons, run_cons]
      exact ih (h.step s) hrest

end Roomy

/-- If three times the ceiling is a word, then nothing is lost: whatever the order of the sections
of all callers, and whatever the orders in which amounts are added up, every sum and difference
stays in the range of a word, and all tests, figures and states are those of unbounded integers. No
call has to break off, and what is used can be told at any time. -/
theorem words_suffice {max : Int} (hmax : 0 < max) (hthird : 3 * max ≤ 9223372036854775807)
    {ss : List (QuotaSection × Orders)} (hwords : ∀ s ∈ ss, s.1.IsWord) :
    let u := (start max).run (ss.map Prod.fst)
    (start max).runWords? ss = some u ∧
    (∀ o : Orders,
      u.quota.usedWords o = some (Int64.ofInt u.quota.used) ∧
      u.quota.inUseWords o = some (Int64.ofInt u.quota.inUse) ∧
      (∀ (resource : String) (amount : Nat), amount ≤ 9223372036854775807 →
        u.quota.precheckWords o resource (Int64.ofInt amount) =
          some (u.quota.precheck resource amount)) ∧
      ∀ c ∈ u.admitted, u.quota.registerWords o c.1 (Int64.ofInt c.2) =
        some (u.quota.register c.1 c.2)) ∧
    (Int64.ofInt u.quota.used).toInt = u.quota.used ∧
    (Int64.ofInt u.quota.inUse).toInt = u.quota.inUse ∧
    u.quota.usedFits = true ∧
    ∀ (resource : String) (amount : Nat), u.quota.reserveFits resource amount = true := by
  intro u
  obtain ⟨hrun, hroomy⟩ := (Roomy.start hmax hthird).runWords?_eq hwords
  have hquota : u.quota.Roomy := hroomy.quota
  obtain ⟨hused0, hused, -⟩ := hquota.sound.bounds
  refine ⟨hrun, fun o => ⟨hquota.usedWords_eq o, hquota.inUseWords_eq o, ?_, ?_⟩, ?_, ?_, ?_, ?_⟩
  · intro resource amount hword
    exact hquota.precheckWords_eq o resource (Int.natCast_nonneg amount) (by omega)
  · intro c hc
    exact hquota.registerWords_eq o c.1 (Int.natCast_nonneg c.2) (hroomy.admitted c hc)
  · exact Quota.toInt_ofInt (hquota.fits_of_le (by omega) (by omega))
  · exact Quota.toInt_ofInt hquota.fits_inUse
  · exact hquota.usedFits
  · intro resource amount
    exact hquota.reserveFits resource (Int.natCast_nonneg amount)

/-- Amounts are handed out in the order of their resources, or backwards. -/
def forwards : Orders := ⟨id, id, fun _ => .refl _, fun _ => .refl _⟩

@[inherit_doc forwards]
def backwards : Orders :=
  ⟨List.reverse, List.reverse, fun ns => ns.reverse_perm, fun ns => ns.reverse_perm⟩

/-! ## The least room that suffices -/

/-- The quota of which all is acquired and asked for again. -/
theorem renewalOf_facts {max : Nat} (hmax : 0 < max) :
    let q := ((start max).run (renewalOf max)).quota
    q.max = max ∧ q.enabled = true ∧ q.pending.has "b" = false ∧ q.acquiredBy "b" = 0 ∧
      q.used = max ∧ q.pending.total = max := by
  intro q
  have hq : q = ⟨max, Table.empty.insert "a" max, Table.empty.insert "a" max⟩ := run_renewalOf hmax
  have htotal : ((Table.empty : Table Int).insert "a" max).total = max := add_zero _
  refine ⟨?_, ?_, ?_, ?_, ?_, ?_⟩
  · rw [hq]
  · simp [hq, Quota.enabled, hmax]
  · simp [hq, Table.has]
  · simp [hq, Quota.acquiredBy]
  · rw [hq]
    exact htotal
  · rw [hq]
    exact htotal

/-- Another call for all is refused, and told that twice the ceiling is in use. -/
theorem precheck_renewalOf {max : Nat} (hmax : 0 < max) :
    ((start max).run (renewalOf max)).quota.precheck "b" max =
      .error (.exceeded "b" max (2 * max) max) := by
  obtain ⟨hceiling, hon, hopen, hheld, -⟩ := renewalOf_facts hmax
  have hinUse := inUse_reaches_double hmax
  rw [Quota.precheck, Quota.check, hon, hopen, hheld, hceiling, hinUse, if_neg (by decide),
    if_neg (by omega), if_neg (by omega), if_neg (by decide), if_pos (by omega)]

/-- The largest ceiling with enough room: the refusal takes three times the ceiling to compute. -/
theorem words_suffice_threefold :
    let max : Nat := 3074457345618258602
    let q := ((start max).run (renewalOf max)).quota
    (3 * (max : Int) ≤ 9223372036854775807 ∧ 9223372036854775807 < 3 * ((max : Int) + 1)) ∧
    ((start max).runWords? ((renewalOf max).map fun s => (s, backwards))).map quota = some q ∧
    q.inUseWords forwards = some (Int64.ofInt (2 * max)) ∧
    q.precheckWords backwards "b" (Int64.ofInt max) =
      some (.error (.exceeded "b" max (2 * max) max)) := by
  intro max q
  let ss := (renewalOf max).map fun s => (s, backwards)
  have hsections : ss.map Prod.fst = renewalOf max := by simp [ss, Function.comp_def]
  have hwords : ∀ s ∈ ss, s.1.IsWord := by
    simp [ss, renewalOf, QuotaSection.IsWord, max]
  have hmax : 0 < max := by decide
  have hthird : 3 * (max : Int) ≤ 9223372036854775807 := by decide
  obtain ⟨hrun, hstate, -⟩ := words_suffice (Int.natCast_pos.2 hmax) hthird hwords
  rw [hsections] at hrun hstate
  refine ⟨by decide, ?_, ?_, ?_⟩
  · rw [hrun]
    rfl
  · rw [(hstate forwards).2.1, inUse_reaches_double hmax]
  · rw [(hstate backwards).2.2.1 "b" max (by decide), precheck_renewalOf hmax]

/-- With less room a result is lost: the same call has to break off. -/
theorem precheckWords_eq_none {max : Nat} (hmax : 0 < max) (hword : max ≤ 9223372036854775807)
    (hless : 9223372036854775807 < 3 * max) (o : Orders) :
    let q := ((start max).run (renewalOf max)).quota
    q.precheckWords o "b" (Int64.ofInt max) = none ∧ q.reserveFits "b" max = false := by
  intro q
  obtain ⟨hceiling, hon, hopen, hheld, hused, hpending⟩ := renewalOf_facts hmax
  have hinUse : q.inUse = 2 * max := inUse_reaches_double hmax
  have hs : q.Sound := sound_of_enabled (Int.natCast_pos.2 hmax) (renewalOf max)
  have hfits : Quota.fits (max : Int) = true := Quota.fits_iff.2 ⟨by omega, by omega⟩
  have hlost : Quota.fits (max + max + (max - 0)) = false := by
    rw [Bool.eq_false_iff, ne_eq, Quota.fits_iff]
    omega
  constructor
  · have htotal : q.inUseWords o = Quota.addWords (Int64.ofInt max) (Int64.ofInt max) := by
      have hword' : q.max ≤ 9223372036854775807 := by
        rw [hceiling]
        omega
      rw [(hs.totalWords_eq hword' o).2, hused, hpending]
    have hnonzero : ¬ Int64.ofInt max = 0 := by
      rw [Quota.ofInt_eq_zero hfits]
      omega
    have hwithin : ¬ Int64.ofInt max < Int64.ofInt max := by
      rw [Quota.ofInt_lt_ofInt hfits hfits]
      omega
    have hchange : Quota.subWords (Int64.ofInt max) (Int64.ofInt 0) =
        some (Int64.ofInt (max - 0)) := by
      refine Quota.subWords_ofInt hfits rfl ?_
      rwa [sub_zero]
    rw [Quota.precheckWords, hon, hceiling, if_neg (by decide), if_neg hnonzero,
      if_neg hwithin, Quota.checkWords, hopen, if_neg (by decide), htotal, hheld, hchange]
    -- the sum of both tables is lost already, or what would be in use after the change is
    by_cases hdouble : Quota.fits (max + max) = true
    · have hafter := Quota.addWords_of_not_fits hdouble (b := max - 0) (by rwa [sub_zero]) hlost
      rw [Quota.addWords_ofInt hfits hfits hdouble]
      simp only [Option.bind_eq_bind, Option.bind_some, hafter, Option.bind_none]
    · rw [Quota.addWords_of_not_fits hfits hfits (Bool.eq_false_iff.2 hdouble)]
      rfl
  · have hafter : Quota.fits (2 * max + (max - 0)) = false := by
      rw [two_mul]
      exact hlost
    rw [Quota.reserveFits, hon, hceiling, if_neg (by simp; omega), if_neg (lt_irrefl _),
      Quota.checkFits, hopen, hheld, hinUse, hafter]
    simp

end QuotaInUse

end IngressTls
