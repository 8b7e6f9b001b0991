set_option autoImplicit false

/-! # Splitting texts

Cutting a text at every occurrence of a separator. There is always at least one piece, and
the pieces joined by the separator give the text back.

Main statement: `intercalate_splitAt`.
-/

namespace IngressTls.Text

/-- The pieces of a text between the occurrences of a separator. -/
def splitAt (sep : Char) : List Char → List (List Char)
  | [] => [[]]
  | c :: cs =>
    if c = sep then [] :: splitAt sep cs
    else
      match splitAt sep cs with
      | [] => [[c]]
      | piece :: pieces => (c :: piece) :: pieces

theorem splitAt_ne_nil (sep : Char) (cs : List Char) : splitAt sep cs ≠ [] := by
  cases cs with
  | nil => simp [splitAt]
  | cons c cs =>
    rw [splitAt]
    split
    · simp
    · split <;> simp

/-- Joining the pieces gives the text back. -/
theorem intercalate_splitAt (sep : Char) (cs : List Char) :
    [sep].intercalate (splitAt sep cs) = cs := by
  induction cs with
  | nil => simp [splitAt, List.intercalate]
  | cons c cs ih =>
    rw [splitAt]
    split
    · next h =>
      obtain ⟨p, ps, hp⟩ := List.exists_cons_of_ne_nil (splitAt_ne_nil sep cs)
      rw [hp] at ih ⊢
      simp only [List.intercalate, List.intersperse_cons_cons, List.flatten_cons] at ih ⊢
      simp [ih, h]
    · split
      · next hp => exact absurd hp (splitAt_ne_nil sep cs)
      · next p ps hp =>
        rw [hp] at ih
        cases ps with
        | nil => simp_all [List.intercalate]
        | cons q qs =>
          simp only [List.intercalate, List.intersperse_cons_cons, List.flatten_cons] at ih ⊢
          simp [← ih]

end IngressTls.Text
