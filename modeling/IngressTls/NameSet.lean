set_option autoImplicit false

/-! # Sets of names

A finite set of texts, held as the strictly increasing list of its members in code-point
order. Two sets with the same members are equal, so the list can be shown, joined and
compared as it stands.

Main statements: `mem_insert`, `mem_erase` and `mem_ofList`.
-/

namespace IngressTls

/-- A finite set of texts in increasing order. -/
structure NameSet where
  /-- The members, each once, in increasing order. -/
  toList : List String
  /-- Each member comes before those after it. -/
  increasing : toList.Pairwise (· < ·)
  deriving DecidableEq, Repr

namespace NameSet

/-- A strictly increasing list with one more member. -/
def insertIn (x : String) : List String → List String
  | [] => [x]
  | y :: ys => if x < y then x :: y :: ys else if x = y then y :: ys else y :: insertIn x ys

theorem mem_insertIn {x z : String} {ys : List String} : z ∈ insertIn x ys ↔ z = x ∨ z ∈ ys := by
  induction ys with
  | nil => simp [insertIn]
  | cons y ys ih =>
    simp only [insertIn]
    split
    · simp
    · split
      · next h => subst h; simp
      · simp only [List.mem_cons, ih]
        exact ⟨fun h => by rcases h with h | h | h <;> simp [h],
          fun h => by rcases h with h | h | h <;> simp [h]⟩

theorem increasing_insertIn {x : String} {ys : List String} (h : ys.Pairwise (· < ·)) :
    (insertIn x ys).Pairwise (· < ·) := by
  induction ys with
  | nil => simp [insertIn]
  | cons y ys ih =>
    have hy := List.pairwise_cons.1 h
    simp only [insertIn]
    split
    · next hxy =>
      refine List.pairwise_cons.2 ⟨fun z hz => ?_, h⟩
      rcases List.mem_cons.1 hz with rfl | hz
      · exact hxy
      · exact String.lt_trans hxy (hy.1 z hz)
    · split
      · exact h
      · next hxy hne =>
        refine List.pairwise_cons.2 ⟨fun z hz => ?_, ih hy.2⟩
        rcases mem_insertIn.1 hz with rfl | hz
        · have hle : y ≤ z := String.not_lt.1 hxy
          exact String.not_le.1 fun hge => hne (String.le_antisymm hge hle)
        · exact hy.1 z hz

/-- The set without members. -/
def empty : NameSet := ⟨[], List.Pairwise.nil⟩

instance : Inhabited NameSet := ⟨empty⟩

/-- The set with one more member. -/
def insert (s : NameSet) (x : String) : NameSet :=
  ⟨insertIn x s.toList, increasing_insertIn s.increasing⟩

/-- The set without a member. -/
def erase (s : NameSet) (x : String) : NameSet :=
  ⟨s.toList.filter (· ≠ x), s.increasing.sublist List.filter_sublist⟩

/-- Whether a text is a member. -/
def has (s : NameSet) (x : String) : Bool := s.toList.contains x

/-- Whether the set has no members. -/
def isEmpty (s : NameSet) : Bool := s.toList.isEmpty

/-- The number of members. -/
def size (s : NameSet) : Nat := s.toList.length

/-- The set of the texts of a list. -/
def ofList (xs : List String) : NameSet := xs.foldl insert empty

/-- The members of the first set that are not in the second. -/
def without (s t : NameSet) : NameSet :=
  ⟨s.toList.filter fun x => !t.has x, s.increasing.sublist List.filter_sublist⟩

instance : Membership String NameSet := ⟨fun s x => x ∈ s.toList⟩

/-! ## Members -/

theorem mem_iff {s : NameSet} {x : String} : x ∈ s ↔ x ∈ s.toList := Iff.rfl

@[simp] theorem mem_insert {s : NameSet} {x z : String} : z ∈ s.insert x ↔ z = x ∨ z ∈ s :=
  mem_insertIn

@[simp] theorem mem_erase {s : NameSet} {x z : String} : z ∈ s.erase x ↔ z ∈ s ∧ z ≠ x := by
  simp [mem_iff, erase]

theorem mem_foldl_insert (xs : List String) (s : NameSet) (z : String) :
    z ∈ xs.foldl insert s ↔ z ∈ s ∨ z ∈ xs := by
  induction xs generalizing s with
  | nil => simp
  | cons x xs ih =>
    rw [List.foldl_cons, ih, mem_insert, List.mem_cons]
    exact ⟨fun h => by rcases h with (h | h) | h <;> simp [h],
      fun h => by rcases h with h | h | h <;> simp [h]⟩

@[simp] theorem mem_ofList {xs : List String} {z : String} : z ∈ ofList xs ↔ z ∈ xs := by
  rw [ofList, mem_foldl_insert]
  simp [mem_iff, empty]

end NameSet

end IngressTls
