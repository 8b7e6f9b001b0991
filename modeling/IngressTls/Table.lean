set_option autoImplicit false

/-! # Tables

A finite map from names to values, held as the list of its entries in strictly increasing
order of their names. Two tables that map every name alike are equal. Tables hold the
acquired and pending amounts of the quota, the stored requests, the flags of the requests
in flight, the failure counters, and the labels and annotations of resources.

Main statements: `find?_empty`, `find?_insert`, `find?_erase`, and `ext_find?`, the equality
of tables that map every name alike.
-/

namespace IngressTls

/-- A finite map from names to values. -/
structure Table (β : Type) where
  /-- The entries in increasing order of their names. -/
  entries : List (String × β)
  /-- Each name comes before those after it. -/
  increasing : entries.Pairwise fun a b => a.1 < b.1

namespace Table

variable {β : Type}

/-- The table without entries. -/
def empty : Table β := ⟨[], List.Pairwise.nil⟩

instance : Inhabited (Table β) := ⟨empty⟩

/-- The value that stands under a name. -/
def find? (t : Table β) (k : String) : Option β := t.entries.lookup k

/-- Whether a value stands under a name. -/
def has (t : Table β) (k : String) : Bool := (t.find? k).isSome

/-- Entries in increasing order with a value under a name, in place of what stood there. -/
def insertIn (k : String) (v : β) : List (String × β) → List (String × β)
  | [] => [(k, v)]
  | e :: es =>
    if k < e.1 then (k, v) :: e :: es
    else if k = e.1 then (k, v) :: es
    else e :: insertIn k v es

theorem mem_insertIn {k : String} {v : β} {es : List (String × β)} {e : String × β}
    (h : e ∈ insertIn k v es) : e = (k, v) ∨ e ∈ es := by
  induction es with
  | nil => exact Or.inl (by simpa [insertIn] using h)
  | cons d es ih =>
    simp only [insertIn] at h
    split at h
    · simpa using h
    · split at h
      · rcases List.mem_cons.1 h with h | h
        · exact Or.inl h
        · exact Or.inr (List.mem_cons_of_mem _ h)
      · rcases List.mem_cons.1 h with h | h
        · exact Or.inr (h ▸ List.mem_cons_self)
        · exact (ih h).imp_right (List.mem_cons_of_mem _)

theorem increasing_insertIn {k : String} {v : β} {es : List (String × β)}
    (h : es.Pairwise fun a b => a.1 < b.1) :
    (insertIn k v es).Pairwise fun a b => a.1 < b.1 := by
  induction es with
  | nil => simp [insertIn]
  | cons d es ih =>
    have hd := List.pairwise_cons.1 h
    simp only [insertIn]
    split
    · next hlt =>
      refine List.pairwise_cons.2 ⟨fun e he => ?_, h⟩
      rcases List.mem_cons.1 he with rfl | he
      · exact hlt
      · exact String.lt_trans hlt (hd.1 e he)
    · split
      · next heq => exact List.pairwise_cons.2 ⟨fun e he => heq ▸ hd.1 e he, hd.2⟩
      · next hlt hne =>
        refine List.pairwise_cons.2 ⟨fun e he => ?_, ih hd.2⟩
        rcases mem_insertIn he with rfl | he
        · exact String.not_le.1 fun hge => hne (String.le_antisymm hge (String.not_lt.1 hlt))
        · exact hd.1 e he

/-- The table with a value under a name, in place of what stood there. -/
def insert (t : Table β) (k : String) (v : β) : Table β :=
  ⟨insertIn k v t.entries, increasing_insertIn t.increasing⟩

/-- The table without the entry of a name. -/
def erase (t : Table β) (k : String) : Table β :=
  ⟨t.entries.filter fun e => e.1 ≠ k, t.increasing.sublist List.filter_sublist⟩

/-- The names of the table, in increasing order. -/
def keys (t : Table β) : List String := t.entries.map Prod.fst

/-- The values of the table, in the order of their names. -/
def values (t : Table β) : List β := t.entries.map Prod.snd

/-- The values of a table of numbers, summed up. -/
def total (t : Table Int) : Int := t.values.foldr (· + ·) 0

/-- The table of a list of entries; of two values under one name the later one counts. -/
def ofList (es : List (String × β)) : Table β := es.foldl (fun t e => t.insert e.1 e.2) empty

/-! ## What the operations do to `find?` -/

theorem lookup_cons_self (es : List (String × β)) (k : String) (v : β) :
    List.lookup k ((k, v) :: es) = some v :=
  List.lookup_cons_self

theorem lookup_cons_ne (es : List (String × β)) {k j : String} (v : β) (h : j ≠ k) :
    List.lookup j ((k, v) :: es) = es.lookup j := by
  rw [List.lookup_cons, beq_false_of_ne h]

theorem lookup_filter_ne (es : List (String × β)) (k j : String) :
    (es.filter fun e => e.1 ≠ k).lookup j = if j = k then none else es.lookup j := by
  induction es with
  | nil => simp
  | cons e es ih =>
    obtain ⟨a, b⟩ := e
    by_cases hak : a = k
    · rw [List.filter_cons_of_neg (by simp [hak]), ih, hak]
      by_cases hjk : j = k
      · rw [if_pos hjk, if_pos hjk]
      · rw [if_neg hjk, if_neg hjk, lookup_cons_ne es b hjk]
    · rw [List.filter_cons_of_pos (by simp [hak])]
      by_cases hja : j = a
      · rw [hja, lookup_cons_self, lookup_cons_self, if_neg hak]
      · rw [lookup_cons_ne _ b hja, lookup_cons_ne _ b hja, ih]

theorem lookup_insertIn (es : List (String × β)) (k j : String) (v : β) :
    (insertIn k v es).lookup j = if j = k then some v else es.lookup j := by
  induction es with
  | nil =>
    by_cases h : j = k
    · rw [if_pos h, h, insertIn, lookup_cons_self]
    · rw [if_neg h, insertIn, lookup_cons_ne _ v h]
  | cons e es ih =>
    obtain ⟨a, b⟩ := e
    by_cases h : j = k
    · rw [if_pos h, h, insertIn]
      split
      · exact lookup_cons_self _ k v
      · split
        · exact lookup_cons_self _ k v
        · next hne =>
          subst h
          rw [lookup_cons_ne _ b hne, ih, if_pos rfl]
    · rw [if_neg h, insertIn]
      split
      · exact lookup_cons_ne _ v h
      · split
        · next heq =>
          have hja : j ≠ a := fun hja => h (hja.trans heq.symm)
          rw [lookup_cons_ne _ v h, lookup_cons_ne _ b hja]
        · by_cases hja : j = a
          · rw [hja, lookup_cons_self, lookup_cons_self]
          · rw [lookup_cons_ne _ b hja, lookup_cons_ne _ b hja, ih, if_neg h]

@[simp] theorem find?_empty (k : String) : (empty : Table β).find? k = none := rfl

@[simp] theorem find?_erase (t : Table β) (k j : String) :
    (t.erase k).find? j = if j = k then none else t.find? j :=
  lookup_filter_ne t.entries k j

@[simp] theorem find?_insert (t : Table β) (k j : String) (v : β) :
    (t.insert k v).find? j = if j = k then some v else t.find? j :=
  lookup_insertIn t.entries k j v

/-! ## Equality of tables -/

theorem lookup_eq_none_of_lt {l : List (String × β)} {k : String}
    (h : ∀ e ∈ l, k < e.1) : l.lookup k = none := by
  induction l with
  | nil => rfl
  | cons e es ih =>
    have hk : k ≠ e.1 := fun hk => String.lt_irrefl k (by simpa [← hk] using h e List.mem_cons_self)
    rw [lookup_cons_ne es e.2 hk]
    exact ih fun d hd => h d (List.mem_cons_of_mem _ hd)

theorem entries_ext {as bs : List (String × β)} (ha : as.Pairwise fun a b => a.1 < b.1)
    (hb : bs.Pairwise fun a b => a.1 < b.1) (h : ∀ k, as.lookup k = bs.lookup k) : as = bs := by
  induction as generalizing bs with
  | nil =>
    cases bs with
    | nil => rfl
    | cons b bs =>
      have := h b.1
      rw [show (b :: bs).lookup b.1 = some b.2 from lookup_cons_self bs b.1 b.2] at this
      exact absurd this (by simp)
  | cons a as ih =>
    have ha' := List.pairwise_cons.1 ha
    cases bs with
    | nil =>
      have := h a.1
      rw [show (a :: as).lookup a.1 = some a.2 from lookup_cons_self as a.1 a.2] at this
      exact absurd this (by simp)
    | cons b bs =>
      have hb' := List.pairwise_cons.1 hb
      have hfst : a.1 = b.1 := by
        by_cases hlt : a.1 < b.1
        · have := h a.1
          rw [lookup_cons_self as a.1 a.2, lookup_eq_none_of_lt (l := b :: bs)] at this
          · exact absurd this (by simp)
          · intro e he
            rcases List.mem_cons.1 he with rfl | he
            · exact hlt
            · exact String.lt_trans hlt (hb'.1 e he)
        · by_cases hgt : b.1 < a.1
          · have := h b.1
            rw [lookup_cons_self bs b.1 b.2, lookup_eq_none_of_lt (l := a :: as)] at this
            · exact absurd this (by simp)
            · intro e he
              rcases List.mem_cons.1 he with rfl | he
              · exact hgt
              · exact String.lt_trans hgt (ha'.1 e he)
          · exact String.le_antisymm (String.not_lt.1 hgt) (String.not_lt.1 hlt)
      have hsnd : a.2 = b.2 := by
        have := h a.1
        rw [lookup_cons_self as a.1 a.2, hfst, lookup_cons_self bs b.1 b.2] at this
        exact Option.some.inj this
      have hab : a = b := Prod.ext hfst hsnd
      rw [hab, ih ha'.2 hb'.2 fun k => ?_]
      by_cases hk : k = b.1
      · rw [hk, lookup_eq_none_of_lt hb'.1, lookup_eq_none_of_lt fun e he => hfst ▸ ha'.1 e he]
      · have := h k
        rwa [lookup_cons_ne as a.2 (hfst ▸ hk), lookup_cons_ne bs b.2 hk] at this

/-- Tables that map every name alike are equal. -/
theorem ext_find? {s t : Table β} (h : ∀ k, s.find? k = t.find? k) : s = t := by
  obtain ⟨as, ha⟩ := s
  obtain ⟨bs, hb⟩ := t
  have : as = bs := entries_ext ha hb h
  subst this
  rfl

end Table

end IngressTls
