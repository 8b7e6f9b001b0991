import IngressTls.Proofs.Quota.Ceiling

set_option autoImplicit false

/-! # What is counted twice

While a transaction replaces what its resource holds, the quota has both amounts on its books: the
one that is acquired and the one that is pending. What is in use adds them up. So it is larger than
the claims, by the smaller of the two amounts of every such resource, the *overlap*. The claims
stay below the ceiling; what is in use does so exactly as long as the overlap fits beside them, and
always while no transaction is open for a resource that holds something. It is never more than
twice the ceiling, and one renewal of everything leads there.

A refused transaction names what is in use, and so it can name more than the ceiling.

Main statements: `inUse_le_max_iff`, `inUse_reaches_double` and `inUse_can_exceed_max`.
-/

namespace IngressTls

namespace Quota

/-! ## The overlap -/

/-- What is counted twice for a resource. -/
def overlapOf (q : Quota) (resource : String) : Int :=
  Min.min (q.acquired.amount resource) (q.pending.amount resource)

/-- What is counted twice for all resources together. -/
def overlap (q : Quota) : Int := ∑ resource ∈ q.resources, q.overlapOf resource

theorem claimOf_add_overlapOf (q : Quota) (r : String) :
    q.claimOf r + q.overlapOf r = q.acquired.amount r + q.pending.amount r := by
  rw [claimOf, overlapOf]
  omega

/-- What is in use are the claims and what is counted twice. -/
theorem inUse_eq_exposure_add_overlap (q : Quota) : q.inUse = q.exposure + q.overlap := by
  calc q.inUse = ∑ r ∈ q.resources, (q.acquired.amount r + q.pending.amount r) :=
        inUse_eq_sum (Finset.Subset.refl _)
    _ = ∑ r ∈ q.resources, (q.claimOf r + q.overlapOf r) :=
        Finset.sum_congr rfl fun r _ => (q.claimOf_add_overlapOf r).symm
    _ = q.exposure + q.overlap := Finset.sum_add_distrib

theorem Sound.overlapOf_nonneg {q : Quota} (h : q.Sound) (r : String) : 0 ≤ q.overlapOf r :=
  le_min (h.acquired_nonneg r) (h.pending_nonneg r)

/-- No more is counted twice than is claimed. -/
theorem overlap_le_exposure (q : Quota) : q.overlap ≤ q.exposure :=
  Finset.sum_le_sum fun _ _ => min_le_max

/-- A resource is replaced when something is pending for it beside what it holds. -/
def Replaces (q : Quota) (resource : String) : Prop :=
  q.acquired.amount resource ≠ 0 ∧ q.pending.amount resource ≠ 0

theorem Sound.overlapOf_eq_zero_iff {q : Quota} (h : q.Sound) (r : String) :
    q.overlapOf r = 0 ↔ ¬ q.Replaces r := by
  have hacquired := h.acquired_nonneg r
  have hpending := h.pending_nonneg r
  rw [overlapOf, Replaces]
  omega

/-- Nothing is counted twice exactly while no resource is replaced. -/
theorem Sound.overlap_eq_zero_iff {q : Quota} (h : q.Sound) :
    q.overlap = 0 ↔ ∀ r, ¬ q.Replaces r := by
  rw [overlap, Finset.sum_eq_zero_iff_of_nonneg fun r _ => h.overlapOf_nonneg r]
  constructor
  · intro hzero r
    by_cases hr : r ∈ q.resources
    · exact (h.overlapOf_eq_zero_iff r).1 (hzero r hr)
    · -- a name without entries has nothing acquired
      have hacquired : q.acquired.amount r = 0 :=
        Table.amount_eq_zero fun hmem => hr (mem_resources_of_acquired hmem)
      exact fun hreplaces => hreplaces.1 hacquired
  · exact fun hnone r _ => (h.overlapOf_eq_zero_iff r).2 (hnone r)

/-! ## What a refusal names -/

theorem exceeded_of_check {q : Quota} {resource other : String} {amount requested inUse max : Int}
    (h : q.check resource amount = .error (.exceeded other requested inUse max)) :
    inUse = q.inUse ∧ max = q.max := by
  rw [check] at h
  split at h
  · cases h
  · split at h
    · cases h
      exact ⟨rfl, rfl⟩
    · cases h

theorem exceeded_of_precheck {q : Quota} {resource other : String}
    {amount requested inUse max : Int}
    (h : q.precheck resource amount = .error (.exceeded other requested inUse max)) :
    inUse = q.inUse ∧ max = q.max := by
  rw [precheck] at h
  split at h
  · cases h
  · split at h
    · cases h
    · split at h
      · cases h
        exact ⟨rfl, rfl⟩
      · exact exceeded_of_check h

theorem exceeded_of_register {q : Quota} {resource other : String}
    {amount requested inUse max : Int}
    (h : q.register resource amount = .error (.exceeded other requested inUse max)) :
    inUse = q.inUse ∧ max = q.max := by
  rw [register] at h
  split at h
  · split at h
    · cases h
    · cases h
  · cases hcheck : q.check resource amount with
    | ok _ =>
        rw [hcheck] at h
        cases h
    | error e =>
        rw [hcheck] at h
        cases h
        exact exceeded_of_check hcheck

/-- A test refuses a transaction as exceeding, and names what is in use and the ceiling. -/
def Names (q : Quota) (inUse max : Int) : Prop :=
  ∃ (resource other : String) (amount requested : Int),
    q.precheck resource amount = .error (.exceeded other requested inUse max) ∨
      q.register resource amount = .error (.exceeded other requested inUse max)

theorem Names.eq {q : Quota} {inUse max : Int} (h : q.Names inUse max) :
    inUse = q.inUse ∧ max = q.max := by
  obtain ⟨resource, other, amount, requested, hpre | hreg⟩ := h
  · exact exceeded_of_precheck hpre
  · exact exceeded_of_register hreg

end Quota

namespace QuotaInUse

/-! ## The statements -/

/-- Whatever the order of the sections of all callers: what is in use stays below the ceiling exactly
if what is counted twice fits beside the claims, and nothing is counted twice exactly while no
resource is replaced. It never exceeds the ceiling by more than what is counted twice, and so never
twice the ceiling. What a refused transaction names as in use exceeds the ceiling in the same
cases. -/
theorem inUse_le_max_iff {max : Int} (hmax : 0 < max) (ss : List QuotaSection) :
    let q := ((start max).run ss).quota
    (q.inUse ≤ max ↔ q.exposure + q.overlap ≤ max) ∧
    (q.overlap = 0 ↔ ∀ r, ¬ q.Replaces r) ∧
    ((∀ r, ¬ q.Replaces r) → q.inUse ≤ max) ∧
    q.inUse ≤ max + q.overlap ∧ q.inUse ≤ 2 * max ∧
    ∀ inUse ceiling, q.Names inUse ceiling → ceiling = max ∧
      (inUse ≤ ceiling ↔ q.exposure + q.overlap ≤ max) := by
  intro q
  have hs : q.Sound := sound_of_enabled hmax ss
  have hqmax : q.max = max := max_run (start max) ss
  have hexposure := hs.exposure_le
  have hinUse := q.inUse_eq_exposure_add_overlap
  have hoverlap := q.overlap_le_exposure
  refine ⟨by rw [hinUse], hs.overlap_eq_zero_iff, fun hnone => ?_, by omega, by omega, ?_⟩
  · have hzero := hs.overlap_eq_zero_iff.2 hnone
    omega
  · intro inUse ceiling hnames
    obtain ⟨rfl, rfl⟩ := hnames.eq
    exact ⟨hqmax, by rw [hinUse, hqmax]⟩

/-- While `a` grows from two to three, which is all that there is, both amounts are on the books. -/
def grownBeside : List QuotaSection :=
  [.inspect "a" 2, .register 0, .commit 0, .inspect "a" 3, .register 0]

/-- Then `a` counts with five, and the refusal of a transaction for `b` says so. -/
theorem inUse_le_max_iff_grownBeside :
    let q := ((start 3).run grownBeside).quota
    q.Replaces "a" ∧ q.overlap ≠ 0 ∧ q.inUse ≤ 3 + q.overlap ∧ q.inUse ≤ 6 ∧
      q.Names 5 3 ∧ ¬ q.exposure + q.overlap ≤ 3 := by
  intro q
  have hreplaces : q.Replaces "a" := ⟨by decide, by decide⟩
  have hnames : q.Names 5 3 := ⟨"b", "b", 1, 1, Or.inl rfl⟩
  obtain ⟨-, hzero, -, hover, hdouble, hnamed⟩ :=
    inUse_le_max_iff (show (0 : Int) < 3 by decide) grownBeside
  refine ⟨hreplaces, fun hnone => hzero.1 hnone "a" hreplaces, hover, hdouble, hnames, ?_⟩
  exact (hnamed 5 3 hnames).2.not.1 (by decide)

/-- It is not true that what is in use stays below the ceiling. -/
theorem inUse_can_exceed_max :
    ¬ ∀ (max : Int) (ss : List QuotaSection), 0 < max → ((start max).run ss).quota.inUse ≤ max := by
  intro hall
  have hle := hall 3 grownBeside (by decide)
  have hfive : ((start 3).run grownBeside).quota.inUse = 5 := rfl
  omega

/-! ## Every ceiling

The bound is reached under every ceiling: one resource gets all that there is, and is renewed. -/

/-- A call that finds room passes both tests. -/
theorem run_call_of_fits {u : QuotaInUse} {resource : String} {amount : Nat}
    (hidle : u.admitted = []) (hpositive : 0 < amount) (hle : amount ≤ u.quota.max)
    (hopen : u.quota.pending.has resource = false)
    (hfits : u.quota.inUse + (amount - u.quota.acquiredBy resource) ≤ u.quota.max) :
    u.run [.inspect resource amount, .register 0] =
      ⟨{ u.quota with pending := u.quota.pending.insert resource amount }, [],
        u.handles ++ [⟨resource, false⟩]⟩ := by
  have hcheck : u.quota.check resource amount = .ok () := by
    rw [Quota.check, hopen, if_neg Bool.false_ne_true, if_neg (by omega)]
  have hnonzero : (amount : Int) ≠ 0 := by omega
  have hpre : u.quota.precheck resource amount = .ok () := by
    have hon : u.quota.enabled = true := decide_eq_true (by omega)
    rw [Quota.precheck, hon, if_neg (by decide), if_neg hnonzero, if_neg (by omega), hcheck]
  have hreg : u.quota.register resource amount =
      .ok { u.quota with pending := u.quota.pending.insert resource amount } := by
    rw [Quota.register, if_neg hnonzero, hcheck]
    rfl
  simp [run, step, hpre, hreg, hidle]

/-- The sections of a resource that gets all that there is and is then renewed. -/
def renewalOf (max : Nat) : List QuotaSection :=
  [.inspect "a" max, .register 0] ++ [.commit 0] ++ [.inspect "a" max, .register 0]

/-- Then it has acquired all that there is, and as much is pending for it. -/
theorem run_renewalOf {max : Nat} (hmax : 0 < max) :
    ((start max).run (renewalOf max)).quota =
      ⟨max, Table.empty.insert "a" max, Table.empty.insert "a" max⟩ := by
  have hfirst : (start max).run [.inspect "a" max, .register 0] =
      ⟨⟨max, .empty, Table.empty.insert "a" max⟩, [], [⟨"a", false⟩]⟩ := by
    refine run_call_of_fits rfl hmax (le_refl _) rfl ?_
    show (0 : Int) + (max - 0) ≤ max
    omega
  have hsecond : (⟨⟨max, .empty, Table.empty.insert "a" max⟩, [], [⟨"a", false⟩]⟩ :
      QuotaInUse).run [.commit 0] =
      ⟨⟨max, Table.empty.insert "a" max, .empty⟩, [], [⟨"a", true⟩]⟩ := by
    have hnonzero : max ≠ 0 := by omega
    have herase : ((Table.empty : Table Int).insert "a" max).erase "a" = .empty :=
      Table.ext_find? fun k => by simp
    simp [run, step, use, Transaction.commit, Quota.commit, hnonzero, herase]
  rw [renewalOf, run_append, run_append, hfirst, hsecond, run_call_of_fits rfl hmax (le_refl _) rfl]
  show (max : Int) + 0 + 0 + (max - max) ≤ max
  omega

/-- Under every ceiling what is in use can be twice the ceiling. -/
theorem inUse_reaches_double {max : Nat} (hmax : 0 < max) :
    ((start max).run (renewalOf max)).quota.inUse = 2 * max := by
  rw [run_renewalOf hmax]
  show (max : Int) + 0 + (max + 0) = 2 * max
  omega

end QuotaInUse

end IngressTls
