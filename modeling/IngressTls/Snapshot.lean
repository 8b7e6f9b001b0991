import IngressTls.Resource.Metadata

set_option autoImplicit false

/-! # Snapshots of a kind

The objects of one kind as a watch last saw them, each under its key. A look-up that finds
no object in a namespace also tries the object of that name outside any namespace.

Main statements: `lookup_insert` and `lookup_erase`.
-/

namespace IngressTls

/-- The key of an object: its name, and the namespace if it is in one. -/
structure ObjectKey where
  /-- The namespace. -/
  ns : Option String
  /-- The name. -/
  name : String
  deriving DecidableEq, Repr

/-- The key of the object with some metadata. -/
def Metadata.key (m : Metadata) : ObjectKey := ⟨m.ns, m.name.getD ""⟩

/-- The objects of a kind. -/
structure Snapshot (α : Type) where
  /-- The objects under their keys, in no meaningful order. -/
  entries : List (ObjectKey × α)
  /-- No key stands twice. -/
  keys_nodup : (entries.map Prod.fst).Nodup

namespace Snapshot

variable {α : Type}

/-- The snapshot without objects. -/
def empty : Snapshot α := ⟨[], List.nodup_nil⟩

instance : Inhabited (Snapshot α) := ⟨empty⟩

/-- The object under exactly this key. -/
def lookup (s : Snapshot α) (k : ObjectKey) : Option α := s.entries.lookup k

/-- The object of a key, or the one of its name outside any namespace. -/
def find? (s : Snapshot α) (k : ObjectKey) : Option α :=
  (s.lookup k).or (s.lookup ⟨none, k.name⟩)

/-- The objects. -/
def objects (s : Snapshot α) : List α := s.entries.map Prod.snd

/-- The snapshot without the object of a key. -/
def erase (s : Snapshot α) (k : ObjectKey) : Snapshot α :=
  ⟨s.entries.filter fun e => e.1 ≠ k, s.keys_nodup.sublist (List.filter_sublist.map _)⟩

/-- The snapshot with an object under a key, in place of what stood there. -/
def insert (s : Snapshot α) (k : ObjectKey) (o : α) : Snapshot α :=
  ⟨(k, o) :: (s.erase k).entries, by
    refine List.nodup_cons.2 ⟨?_, (s.erase k).keys_nodup⟩
    simp [erase]⟩

theorem lookup_cons_self (es : List (ObjectKey × α)) (k : ObjectKey) (o : α) :
    List.lookup k ((k, o) :: es) = some o :=
  List.lookup_cons_self

theorem lookup_cons_ne (es : List (ObjectKey × α)) {k j : ObjectKey} (o : α) (h : j ≠ k) :
    List.lookup j ((k, o) :: es) = es.lookup j := by
  rw [List.lookup_cons, beq_false_of_ne h]

theorem lookup_filter_ne (es : List (ObjectKey × α)) (k j : ObjectKey) :
    (es.filter fun e => e.1 ≠ k).lookup j = if j = k then none else es.lookup j := by
  induction es with
  | nil => simp
  | cons e es ih =>
    obtain ⟨a, b⟩ := e
    by_cases hak : a = k
    · rw [List.filter_cons_of_neg (by simp [hak]), ih, hak]
      by_cases hjk : j = k
      · rw [if_pos hjk, if_pos hjk]
      · rw [if_neg hjk, if_neg hjk, lookup_cons_ne es b hjk]
    · rw [List.filter_cons_of_pos (by simp [hak])]
      by_cases hja : j = a
      · rw [hja, lookup_cons_self, lookup_cons_self, if_neg hak]
      · rw [lookup_cons_ne _ b hja, lookup_cons_ne _ b hja, ih]

@[simp] theorem lookup_empty (k : ObjectKey) : (empty : Snapshot α).lookup k = none := rfl

@[simp] theorem lookup_erase (s : Snapshot α) (k j : ObjectKey) :
    (s.erase k).lookup j = if j = k then none else s.lookup j :=
  lookup_filter_ne s.entries k j

@[simp] theorem lookup_insert (s : Snapshot α) (k j : ObjectKey) (o : α) :
    (s.insert k o).lookup j = if j = k then some o else s.lookup j := by
  by_cases h : j = k
  · rw [if_pos h, h]
    exact lookup_cons_self _ k o
  · rw [if_neg h]
    exact (lookup_cons_ne _ o h).trans ((lookup_erase s k j).trans (if_neg h))

end Snapshot

end IngressTls
