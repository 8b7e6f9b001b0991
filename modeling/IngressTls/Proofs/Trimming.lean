import IngressTls.Text.Blank
import Mathlib.Data.List.TakeWhile

set_option autoImplicit false

/-! # What trimming leaves

A text is its trimmed part between two stretches of white space, and the trimmed part has no white
space at its own ends. There is only one way to cut a text like that.

Main statements: `exists_blank_ends` and `trimChars_eq_iff`.
-/

namespace IngressTls.Text

/-- A text without white space at its ends. -/
def IsBare (cs : List Char) : Prop :=
  (∀ c ∈ cs.head?, isBlank c = false) ∧ ∀ c ∈ cs.getLast?, isBlank c = false

/-- Every text is its trimmed part between white space. -/
theorem exists_blank_ends (cs : List Char) : ∃ lead trail, cs = lead ++ (trimChars cs ++ trail) ∧
    (∀ c ∈ lead, isBlank c = true) ∧ ∀ c ∈ trail, isBlank c = true := by
  have hend : trimStartChars cs =
      trimChars cs ++ ((trimStartChars cs).reverse.takeWhile isBlank).reverse := by
    rw [trimChars, ← List.reverse_append, List.takeWhile_append_dropWhile, List.reverse_reverse]
  refine ⟨cs.takeWhile isBlank, ((trimStartChars cs).reverse.takeWhile isBlank).reverse, ?_,
    fun c hc => List.mem_takeWhile_imp hc,
    fun c hc => List.mem_takeWhile_imp (List.mem_reverse.1 hc)⟩
  rw [← hend, trimStartChars, List.takeWhile_append_dropWhile]

theorem head?_dropWhile_isBlank {cs : List Char} {c : Char}
    (h : (cs.dropWhile isBlank).head? = some c) : isBlank c = false := by
  have hnot := List.head?_dropWhile_not isBlank cs
  rw [h] at hnot
  exact hnot

/-- What begins without white space has none to drop. -/
theorem dropWhile_isBlank {cs : List Char} (h : ∀ c ∈ cs.head?, isBlank c = false)
    (rest : List Char) (hrest : cs = [] → rest = []) :
    (cs ++ rest).dropWhile isBlank = cs ++ rest := by
  cases cs with
  | nil =>
      rw [hrest rfl]
      rfl
  | cons c cs =>
      have hc : isBlank c = false := h c rfl
      exact List.dropWhile_cons_of_neg (by rw [hc]; exact Bool.false_ne_true)

theorem isBare_trimChars (cs : List Char) : IsBare (trimChars cs) := by
  constructor
  · intro c hc
    -- the trimmed part begins like the text after its leading white space
    obtain ⟨trail, htrail⟩ : (trimStartChars cs).reverse.dropWhile isBlank <:+
        (trimStartChars cs).reverse := List.dropWhile_suffix isBlank
    have hstart : trimStartChars cs = trimChars cs ++ trail.reverse := by
      rw [trimChars, ← List.reverse_append, htrail, List.reverse_reverse]
    have hhead : (trimStartChars cs).head? = some c := by
      rw [hstart, List.head?_append, Option.mem_def.1 hc, Option.some_or]
    exact head?_dropWhile_isBlank hhead
  · intro c hc
    rw [trimChars, List.getLast?_reverse] at hc
    exact head?_dropWhile_isBlank hc

/-- What is trimmed is the white space at the two ends. -/
theorem trimChars_append {lead mid trail : List Char} (hmid : IsBare mid)
    (hlead : ∀ c ∈ lead, isBlank c = true) (htrail : ∀ c ∈ trail, isBlank c = true) :
    trimChars (lead ++ (mid ++ trail)) = mid := by
  by_cases hnil : mid = []
  · subst hnil
    have hall : ∀ c ∈ lead ++ trail, isBlank c = true := by
      intro c hc
      rcases List.mem_append.1 hc with hc | hc
      · exact hlead c hc
      · exact htrail c hc
    rw [trimChars, trimStartChars, List.nil_append, List.dropWhile_eq_nil_iff.2 hall]
    rfl
  · have hstart : trimStartChars (lead ++ (mid ++ trail)) = mid ++ trail := by
      rw [trimStartChars, List.dropWhile_append_of_pos hlead]
      exact dropWhile_isBlank hmid.1 trail fun h => absurd h hnil
    have hend : mid.reverse.dropWhile isBlank = mid.reverse := by
      have hlast : ∀ c ∈ mid.reverse.head?, isBlank c = false := by
        rw [List.head?_reverse]
        exact hmid.2
      have hdrop := dropWhile_isBlank hlast [] fun _ => rfl
      rwa [List.append_nil] at hdrop
    rw [trimChars, hstart, List.reverse_append,
      List.dropWhile_append_of_pos fun c hc => htrail c (List.mem_reverse.1 hc), hend,
      List.reverse_reverse]

/-- The trimmed part of a text is the part without white space at its ends that stands between
white space. -/
theorem trimChars_eq_iff {cs mid : List Char} : trimChars cs = mid ↔ IsBare mid ∧
    ∃ lead trail, cs = lead ++ (mid ++ trail) ∧ (∀ c ∈ lead, isBlank c = true) ∧
      ∀ c ∈ trail, isBlank c = true := by
  constructor
  · rintro rfl
    exact ⟨isBare_trimChars cs, exists_blank_ends cs⟩
  · rintro ⟨hmid, lead, trail, rfl, hlead, htrail⟩
    exact trimChars_append hmid hlead htrail

end IngressTls.Text
