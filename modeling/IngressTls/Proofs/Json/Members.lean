import IngressTls.Json.Decode
import Mathlib.Data.List.Forall2

set_option autoImplicit false

/-! # Members of a record

What a member is read as depends on its occurrences alone: each of them must be readable, and the
last one counts. Two readers that agree about every value which both of them can read agree about
lists and members as well, also where one of them takes null for a missing member and the other
refuses it.

Main statements: `last?_eq_some_iff`, `optional_eq_some_iff`, `Agree.optional_defaulted` and
`Agree.optional_required`.
-/

namespace IngressTls.Json

variable {α β : Type}

/-! ## Reading all members of a list -/

/-- A list is read exactly if each of its members is. -/
theorem mapM_eq_some_iff {f : α → Option β} {xs : List α} {ys : List β} :
    xs.mapM f = some ys ↔ xs.map f = ys.map some := by
  induction xs generalizing ys with
  | nil =>
      rw [List.mapM_nil, List.map_nil, eq_comm (b := ys.map some), List.map_eq_nil_iff]
      exact Option.some_inj.trans eq_comm
  | cons x xs ih =>
      rw [List.mapM_cons, List.map_cons]
      constructor
      · intro h
        obtain ⟨y, hy, h⟩ := Option.bind_eq_some_iff.1 h
        obtain ⟨zs, hzs, h⟩ := Option.bind_eq_some_iff.1 h
        cases h
        rw [List.map_cons, hy, ih.1 hzs]
      · intro h
        cases ys with
        | nil => cases h
        | cons y ys =>
            obtain ⟨hy, hys⟩ := List.cons.inj h
            rw [hy, ih.2 hys]
            rfl

theorem isSome_mapM_iff {f : α → Option β} {xs : List α} :
    (xs.mapM f).isSome ↔ ∀ x ∈ xs, (f x).isSome := by
  constructor
  · intro h x hx
    obtain ⟨ys, hys⟩ := Option.isSome_iff_exists.1 h
    have hmem := List.mem_map_of_mem (f := f) hx
    rw [mapM_eq_some_iff.1 hys] at hmem
    obtain ⟨y, -, hy⟩ := List.mem_map.1 hmem
    rw [← hy]
    rfl
  · intro h
    refine Option.isSome_iff_exists.2 ⟨xs.filterMap f, mapM_eq_some_iff.2 ?_⟩
    induction xs with
    | nil => rfl
    | cons x xs ih =>
        obtain ⟨y, hy⟩ := Option.isSome_iff_exists.1 (h x List.mem_cons_self)
        rw [List.map_cons, List.filterMap_cons_some hy, List.map_cons, hy,
          ih fun x' hx' => h x' (List.mem_cons_of_mem x hx')]

theorem forall₂_of_mapM {f : α → Option β} {xs : List α} {ys : List β} (h : xs.mapM f = some ys) :
    List.Forall₂ (fun x y => f x = some y) xs ys := by
  have hmap : List.Forall₂ (fun o p => o = p) (xs.map f) (ys.map some) := by
    rw [mapM_eq_some_iff.1 h]
    exact List.forall₂_same.2 fun o _ => rfl
  rwa [List.forall₂_map_left_iff, List.forall₂_map_right_iff] at hmap

/-- If a reader takes what it gives for itself, so it does with the list of what it gives. -/
theorem mapM_self {f : α → Option α} (hf : ∀ x y, f x = some y → f y = some y) {xs ys : List α}
    (h : xs.mapM f = some ys) : ys.mapM f = some ys := by
  refine mapM_eq_some_iff.2 (List.map_congr_left fun y hy => ?_)
  have hmem := List.mem_map_of_mem (f := some) hy
  rw [← mapM_eq_some_iff.1 h] at hmem
  obtain ⟨x, -, hx⟩ := List.mem_map.1 hmem
  exact hf x y hx

/-! ## Objects -/

variable {read : Json → Option α} {name : String} {j j' : Json} {ms : List (String × Json)}

theorem asObject_eq_some_iff : j.asObject = some j' ↔ ∃ ms, j = .object ms ∧ j' = j := by
  cases j <;> simp [asObject, eq_comm]

/-- An object is read as the record that it is. -/
theorem eq_of_asRecord_object {names : List String} (h : (object ms).asRecord names = some j) :
    j = .object ms :=
  (Option.some.inj (Option.ite_none_right_eq_some.1 h).2).symm

/-! ## Occurrences -/

theorem occurrences_append (ms ms' : List (String × Json)) :
    (object (ms ++ ms')).occurrences name =
      (object ms).occurrences name ++ (object ms').occurrences name := by
  rw [Json.occurrences, List.filter_append, List.map_append]
  rfl

theorem occurrences_of_notMem (h : name ∉ ms.map Prod.fst) :
    (object ms).occurrences name = [] := by
  rw [Json.occurrences, List.map_eq_nil_iff, List.filter_eq_nil_iff]
  intro m hm hname
  exact h (List.mem_map.2 ⟨m, hm, of_decide_eq_true hname⟩)

theorem occurrences_named (vs : List Json) :
    (object (vs.map fun v => (name, v))).occurrences name = vs := by
  rw [Json.occurrences, List.filter_eq_self.2, List.map_map]
  · exact List.map_id vs
  · intro m hm
    obtain ⟨v, -, rfl⟩ := List.mem_map.1 hm
    exact decide_eq_true rfl

theorem occurrences_named_ne {other : String} (vs : List Json) (h : other ≠ name) :
    (object (vs.map fun v => (name, v))).occurrences other = [] := by
  refine occurrences_of_notMem fun hmem => h ?_
  obtain ⟨m, hm, rfl⟩ := List.mem_map.1 hmem
  obtain ⟨v, -, rfl⟩ := List.mem_map.1 hm
  rfl

/-- All occurrences of a member can be read, and the last one counts. -/
theorem last?_eq_some_iff {o : Option α} : j.last? name read = some o ↔
    (∀ v ∈ j.occurrences name, (read v).isSome) ∧
      o = (j.occurrences name).getLast?.bind read := by
  rw [last?, Option.map_eq_some_iff]
  have hlast {ys : List α} (hys : (j.occurrences name).mapM read = some ys) :
      ys.getLast? = (j.occurrences name).getLast?.bind read := by
    have hmap := congrArg List.getLast? (mapM_eq_some_iff.1 hys)
    rw [List.getLast?_map, List.getLast?_map] at hmap
    cases h : (j.occurrences name).getLast? with
    | none =>
        rw [h] at hmap
        exact Option.map_eq_none_iff.1 hmap.symm
    | some v =>
        rw [h, Option.map_some] at hmap
        obtain ⟨y, hy, heq⟩ := Option.map_eq_some_iff.1 hmap.symm
        rw [hy, Option.bind_some, ← heq]
  constructor
  · rintro ⟨ys, hys, rfl⟩
    exact ⟨isSome_mapM_iff.1 (by rw [hys]; rfl), hlast hys⟩
  · rintro ⟨hall, rfl⟩
    obtain ⟨ys, hys⟩ := Option.isSome_iff_exists.1 (isSome_mapM_iff.2 hall)
    exact ⟨ys, hys, hlast hys⟩

theorem isSome_nullOr_iff {v : Json} :
    (nullOr read v).isSome ↔ v.isNull = true ∨ (read v).isSome := by
  rw [nullOr]
  split
  · next hnull => exact iff_of_true rfl (Or.inl hnull)
  · next hnull => rw [Option.isSome_map, or_iff_right hnull]

theorem bind_nullOr (v : Json) :
    (nullOr read v).bind id = if v.isNull then none else read v := by
  rw [nullOr]
  split
  · rfl
  · cases read v <;> rfl

/-- Where null stands for a missing member, it can be read like any value that the member may
have. -/
theorem optional_eq_some_iff {o : Option α} : j.optional name read = some o ↔
    (∀ v ∈ j.occurrences name, v.isNull = true ∨ (read v).isSome) ∧
      o = (j.occurrences name).getLast?.bind fun v => if v.isNull then none else read v := by
  simp only [optional, Option.map_eq_some_iff, last?_eq_some_iff, isSome_nullOr_iff]
  constructor
  · rintro ⟨p, ⟨hall, rfl⟩, rfl⟩
    rw [Option.bind_assoc]
    exact ⟨hall, congrArg _ (funext bind_nullOr)⟩
  · rintro ⟨hall, rfl⟩
    refine ⟨_, ⟨hall, rfl⟩, ?_⟩
    rw [Option.bind_assoc]
    exact congrArg _ (funext bind_nullOr)

/-- What a member that must be there is read as was some value. -/
theorem exists_of_required {x : α} (h : j.required name read = some x) : ∃ v, read v = some x := by
  obtain ⟨o, ho, hx⟩ := Option.bind_eq_some_iff.1 h
  obtain ⟨v, -, hv⟩ := Option.bind_eq_some_iff.1 ((last?_eq_some_iff.1 ho).2.symm.trans hx)
  exact ⟨v, hv⟩

/-- What a member is read as was some value other than null. -/
theorem exists_of_optional {x : α} (h : j.optional name read = some (some x)) :
    ∃ v, v.isNull = false ∧ read v = some x := by
  obtain ⟨v, -, hv⟩ := Option.bind_eq_some_iff.1 (optional_eq_some_iff.1 h).2.symm
  obtain ⟨hnull, hread⟩ := Option.ite_none_left_eq_some.1 hv
  exact ⟨v, Bool.eq_false_iff.2 hnull, hread⟩

/-- A member that is there at most once is read as what was written, unless that is null. -/
theorem optional_of_toList {write : α → Json} {x : Option α}
    (hread : ∀ y, x = some y → read (write y) = some y ∧ (write y).isNull = false)
    (h : j.occurrences name = (x.map write).toList) : j.optional name read = some x := by
  refine optional_eq_some_iff.2 ?_
  rw [h]
  cases x with
  | none => exact ⟨fun _ hv => absurd hv List.not_mem_nil, rfl⟩
  | some y =>
      obtain ⟨hy, hnull⟩ := hread y rfl
      refine ⟨fun v hv => Or.inr ?_, ?_⟩
      · rw [List.mem_singleton.1 hv, hy]
        rfl
      · show some y = if (write y).isNull then none else read (write y)
        rw [hnull, hy]
        rfl

/-! ## Readers that agree -/

/-- Whatever two readers can both read, they read as related values. -/
def Agree (R : α → β → Prop) (read : Json → Option α) (read' : Json → Option β) : Prop :=
  ∀ v x y, read v = some x → read' v = some y → R x y

variable {γ : Type} {R : α → β → Prop} {read' : Json → Option β}

theorem forall₂_of_common {P : γ → α → Prop} {Q : γ → β → Prop}
    (h : ∀ v x y, P v x → Q v y → R x y) {vs : List γ} {xs : List α} {ys : List β}
    (hxs : List.Forall₂ P vs xs) (hys : List.Forall₂ Q vs ys) : List.Forall₂ R xs ys := by
  induction hxs generalizing ys with
  | nil =>
      cases hys
      exact .nil
  | cons hx _ ih =>
      cases hys with
      | cons hy hys => exact .cons (h _ _ _ hx hy) (ih hys)

theorem Agree.listOf (h : Agree R read read') :
    Agree (List.Forall₂ R) (listOf? read) (listOf? read') := by
  intro v xs ys hxs hys
  obtain ⟨vs, hvs, hxs⟩ := Option.bind_eq_some_iff.1 hxs
  obtain ⟨ws, hws, hys⟩ := Option.bind_eq_some_iff.1 hys
  cases hvs.symm.trans hws
  exact forall₂_of_common h (forall₂_of_mapM hxs) (forall₂_of_mapM hys)

/-- A reader that takes null for a missing member agrees with one that refuses null. -/
theorem Agree.last (h : Agree R read read') (hnull : read' .null = none) {o : Option α}
    {p : Option β} (hoccurrences : j.occurrences name = j'.occurrences name)
    (ho : j.optional name read = some o) (hp : j'.last? name read' = some p) :
    Option.Rel R o p := by
  obtain ⟨hread, rfl⟩ := optional_eq_some_iff.1 ho
  obtain ⟨hread', rfl⟩ := last?_eq_some_iff.1 hp
  rw [hoccurrences] at hread ⊢
  cases hlast : (j'.occurrences name).getLast? with
  | none => exact .none
  | some v =>
      -- the last occurrence is no null, so that both readers have read it
      obtain ⟨y, hy⟩ := Option.isSome_iff_exists.1 (hread' v (List.mem_of_getLast? hlast))
      have hvalue : v.isNull = false := by
        cases v with
        | null => cases hnull.symm.trans hy
        | _ => rfl
      obtain ⟨x, hx⟩ := Option.isSome_iff_exists.1
        ((hread v (List.mem_of_getLast? hlast)).resolve_left (by rw [hvalue]; decide))
      rw [Option.bind_some, Option.bind_some, hvalue, hx, hy]
      exact .some (h v x y hx hy)

theorem Agree.optional_defaulted (h : Agree R read read') (hnull : read' .null = none)
    {o : Option α} {y default : β} (hoccurrences : j.occurrences name = j'.occurrences name)
    (ho : j.optional name read = some o) (hy : j'.defaulted name read' default = some y) :
    (o = none ∧ y = default) ∨ ∃ x, o = some x ∧ R x y := by
  obtain ⟨p, hp, rfl⟩ := Option.map_eq_some_iff.1 hy
  cases h.last hnull hoccurrences ho hp with
  | none => exact Or.inl ⟨rfl, rfl⟩
  | some hxy => exact Or.inr ⟨_, rfl, hxy⟩

theorem Agree.optional_required (h : Agree R read read') (hnull : read' .null = none)
    {o : Option α} {y : β} (hoccurrences : j.occurrences name = j'.occurrences name)
    (ho : j.optional name read = some o) (hy : j'.required name read' = some y) :
    ∃ x, o = some x ∧ R x y := by
  obtain ⟨p, hp, hpy⟩ := Option.bind_eq_some_iff.1 hy
  cases hpy
  cases h.last hnull hoccurrences ho hp with
  | some hxy => exact ⟨_, rfl, hxy⟩

end IngressTls.Json
