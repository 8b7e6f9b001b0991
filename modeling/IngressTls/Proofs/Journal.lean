import Mathlib.Data.List.Basic

set_option autoImplicit false

/-! # Reading a journal

A journal keeps what has happened, the last deed first. What it says about the present often has
the form *this was done, and nothing of that sort since*.

Main statements: `since_cons`, `since_append` and `Since.both`.
-/

namespace IngressTls

variable {α : Type} {p p' q q' : α → Prop} {d : List α}

/-- A deed of one sort has been done, and none of another sort since. -/
def Since (p q : α → Prop) (d : List α) : Prop :=
  ∃ recent x before, d = recent ++ x :: before ∧ p x ∧ ∀ y ∈ recent, ¬ q y

theorem not_since_nil : ¬ Since p q [] := by
  rintro ⟨recent, x, before, heq, -⟩
  cases recent with
  | nil => cases heq
  | cons y recent => cases heq

/-- The last deed is of the sort, or it is harmless and the earlier ones tell. -/
theorem since_cons {x : α} : Since p q (x :: d) ↔ p x ∨ ¬ q x ∧ Since p q d := by
  constructor
  · rintro ⟨recent, y, before, heq, hy, hrecent⟩
    cases recent with
    | nil =>
        obtain ⟨rfl, rfl⟩ := List.cons.inj heq
        exact Or.inl hy
    | cons z recent =>
        obtain ⟨rfl, rfl⟩ := List.cons.inj heq
        refine Or.inr ⟨hrecent x List.mem_cons_self, recent, y, before, rfl, hy, ?_⟩
        exact fun z hz => hrecent z (List.mem_cons_of_mem _ hz)
  · rintro (hx | ⟨hx, recent, y, before, rfl, hy, hrecent⟩)
    · exact ⟨[], x, d, rfl, hx, fun y hy => by cases hy⟩
    · refine ⟨x :: recent, y, before, rfl, hy, fun z hz => ?_⟩
      rcases List.mem_cons.1 hz with rfl | hz
      · exact hx
      · exact hrecent z hz

instance decidableSince (p q : α → Prop) [DecidablePred p] [DecidablePred q] :
    (d : List α) → Decidable (Since p q d)
  | [] => isFalse not_since_nil
  | x :: d =>
    have := decidableSince p q d
    decidable_of_iff (p x ∨ ¬ q x ∧ Since p q d) since_cons.symm

/-- A deed of one sort has been done, and nothing of the other sort at all. -/
theorem Since.of_mem {x : α} (hx : x ∈ d) (hp : p x) (hq : ∀ y ∈ d, ¬ q y) : Since p q d := by
  obtain ⟨recent, before, rfl⟩ := List.append_of_mem hx
  exact ⟨recent, x, before, rfl, hp, fun y hy => hq y (List.mem_append_left _ hy)⟩

theorem Since.append {recent : List α} (h : Since p q d) (hrecent : ∀ x ∈ recent, ¬ q x) :
    Since p q (recent ++ d) := by
  obtain ⟨recent', x, before, rfl, hx, hrecent'⟩ := h
  refine ⟨recent ++ recent', x, before, by simp, hx, fun y hy => ?_⟩
  rcases List.mem_append.1 hy with hy | hy
  · exact hrecent y hy
  · exact hrecent' y hy

/-- What was before does not matter. -/
theorem Since.before (h : Since p q d) (before : List α) : Since p q (d ++ before) := by
  obtain ⟨recent, x, before', rfl, hx, hrecent⟩ := h
  exact ⟨recent, x, before' ++ before, by simp, hx, hrecent⟩

/-- The deed that tells is among the recent ones, or they are harmless and it was before. -/
theorem since_append {recent : List α} :
    Since p q (recent ++ d) ↔ Since p q recent ∨ (∀ x ∈ recent, ¬ q x) ∧ Since p q d := by
  constructor
  · intro h
    induction recent with
    | nil => exact Or.inr ⟨fun x hx => (by cases hx), h⟩
    | cons x recent ih =>
        rcases since_cons.1 h with hx | ⟨hx, hrest⟩
        · exact Or.inl (since_cons.2 (Or.inl hx))
        · refine (ih hrest).imp (fun hrecent => since_cons.2 (Or.inr ⟨hx, hrecent⟩)) ?_
          rintro ⟨hrecent, hd⟩
          refine ⟨fun y hy => ?_, hd⟩
          rcases List.mem_cons.1 hy with rfl | hy
          · exact hx
          · exact hrecent y hy
  · rintro (h | ⟨hrecent, h⟩)
    · exact h.before d
    · exact h.append hrecent

theorem Since.mono (h : Since p q d) (hp : ∀ x, p x → p' x) (hq : ∀ x, q' x → q x) :
    Since p' q' d := by
  obtain ⟨recent, x, before, rfl, hx, hrecent⟩ := h
  exact ⟨recent, x, before, rfl, hp x hx, fun y hy hqy => hrecent y hy (hq y hqy)⟩

theorem since_or : Since (fun x => p x ∨ p' x) q d ↔ Since p q d ∨ Since p' q d := by
  constructor
  · rintro ⟨recent, x, before, rfl, hx | hx, hrecent⟩
    · exact Or.inl ⟨recent, x, before, rfl, hx, hrecent⟩
    · exact Or.inr ⟨recent, x, before, rfl, hx, hrecent⟩
  · rintro (h | h)
    · exact h.mono (fun _ => Or.inl) fun _ => id
    · exact h.mono (fun _ => Or.inr) fun _ => id

/-- Two sorts that are part of a third have been done last: it was one and the same deed. -/
theorem Since.both (h : Since p q d) (h' : Since p' q d) (hp : ∀ x, p x → q x)
    (hp' : ∀ x, p' x → q x) : ∃ x ∈ d, p x ∧ p' x := by
  -- going back, the first deed of the third sort is the last one of either sort
  induction d with
  | nil => exact absurd h not_since_nil
  | cons x d ih =>
      rcases since_cons.1 h with hx | ⟨hx, hd⟩
      · rcases since_cons.1 h' with hx' | ⟨hx', -⟩
        · exact ⟨x, List.mem_cons_self, hx, hx'⟩
        · exact absurd (hp x hx) hx'
      · rcases since_cons.1 h' with hx' | ⟨-, hd'⟩
        · exact absurd (hp' x hx') hx
        · obtain ⟨y, hy, hboth⟩ := ih hd hd'
          exact ⟨y, List.mem_cons_of_mem _ hy, hboth⟩

end IngressTls
