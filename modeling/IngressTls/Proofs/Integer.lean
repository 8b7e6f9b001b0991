import IngressTls.Text.Blank
import IngressTls.Text.Integer
import Mathlib.Data.List.Basic

set_option autoImplicit false

/-! # Integers are read back

An integer that is written in decimal and lies in a range is read back from its text, also if the
text is trimmed before.

Main statements: `readInt_toString` and `trimChars_toString`.
-/

namespace IngressTls.Text

variable {r : IntRange} {ds : List Char}

/-! ## Digits -/

theorem digitValue?_of_isDigit {c : Char} (h : c.isDigit = true) :
    digitValue? c = some (c.toNat - '0'.toNat) :=
  if_pos h

/-- More digits make no smaller number. -/
theorem le_ofDigitChars (ds : List Char) (acc : Nat) : acc ≤ Nat.ofDigitChars 10 ds acc := by
  induction ds generalizing acc with
  | nil => exact Nat.le_refl acc
  | cons d ds ih =>
      rw [Nat.ofDigitChars_cons]
      have hrest := ih (10 * acc + (d.toNat - '0'.toNat))
      omega

/-- Digits are read to their number, if that is not above the range. -/
theorem readUp_digits {acc : Nat} (hds : ∀ d ∈ ds, d.isDigit = true)
    (hle : (Nat.ofDigitChars 10 ds acc : Int) ≤ r.greatest) :
    readUp r acc ds = .ok (Nat.ofDigitChars 10 ds acc) := by
  induction ds generalizing acc with
  | nil => rfl
  | cons d ds ih =>
      rw [Nat.ofDigitChars_cons] at hle ⊢
      have hfits := le_ofDigitChars ds (10 * acc + (d.toNat - '0'.toNat))
      rw [readUp, digitValue?_of_isDigit (hds d List.mem_cons_self)]
      generalize d.toNat - '0'.toNat = v at hle hfits ⊢
      have hnext : (acc : Int) * 10 + v = (10 * acc + v : Nat) := by omega
      simp only [hnext]
      rw [if_pos (by omega)]
      exact ih (fun c hc => hds c (List.mem_cons_of_mem d hc)) hle

/-- Digits behind a minus sign are read to the opposite of their number, if that is not below the
range. -/
theorem readDown_digits {acc : Nat} (hds : ∀ d ∈ ds, d.isDigit = true)
    (hle : r.least ≤ -(Nat.ofDigitChars 10 ds acc : Int)) :
    readDown r (-(acc : Int)) ds = .ok (-(Nat.ofDigitChars 10 ds acc : Int)) := by
  induction ds generalizing acc with
  | nil => rfl
  | cons d ds ih =>
      rw [Nat.ofDigitChars_cons] at hle ⊢
      have hfits := le_ofDigitChars ds (10 * acc + (d.toNat - '0'.toNat))
      rw [readDown, digitValue?_of_isDigit (hds d List.mem_cons_self)]
      generalize d.toNat - '0'.toNat = v at hle hfits ⊢
      have hnext : -(acc : Int) * 10 - v = -((10 * acc + v : Nat) : Int) := by omega
      simp only [hnext]
      rw [if_pos (by omega)]
      exact ih (fun c hc => hds c (List.mem_cons_of_mem d hc)) hle

/-! ## Decimal texts -/

theorem isDigit_of_mem_toDigits {n : Nat} {d : Char} (h : d ∈ Nat.toDigits 10 n) :
    d.isDigit = true :=
  Nat.isDigit_of_mem_toDigits (by decide) (by decide) h

/-- A decimal text starts with a digit. -/
theorem exists_cons_toDigits (n : Nat) :
    ∃ d ds, Nat.toDigits 10 n = d :: ds ∧ d.isDigit = true := by
  have hne : Nat.toDigits 10 n ≠ [] := Nat.toDigits_ne_nil
  obtain ⟨d, ds, hdigits⟩ := List.exists_cons_of_ne_nil hne
  refine ⟨d, ds, hdigits, isDigit_of_mem_toDigits (n := n) ?_⟩
  rw [hdigits]
  exact List.mem_cons_self

theorem readUp_toDigits {n : Nat} (h : (n : Int) ≤ r.greatest) :
    readUp r 0 (Nat.toDigits 10 n) = .ok n := by
  have hvalue : Nat.ofDigitChars 10 (Nat.toDigits 10 n) 0 = n := Nat.ofDigitChars_ten_toDigits
  rw [← hvalue] at h
  have hread := readUp_digits (fun d => isDigit_of_mem_toDigits) h
  rw [hvalue] at hread
  exact hread

theorem readDown_toDigits {n : Nat} (h : r.least ≤ -(n : Int)) :
    readDown r 0 (Nat.toDigits 10 n) = .ok (-(n : Int)) := by
  have hvalue : Nat.ofDigitChars 10 (Nat.toDigits 10 n) 0 = n := Nat.ofDigitChars_ten_toDigits
  rw [← hvalue] at h
  have hread := readDown_digits (fun d => isDigit_of_mem_toDigits) h
  rw [hvalue] at hread
  exact hread

theorem toList_toString_ofNat (n : Nat) : (toString (n : Int)).toList = Nat.toDigits 10 n := by
  show (Nat.repr n).toList = _
  rw [Nat.repr_eq_ofList_toDigits, String.toList_ofList]

theorem toList_toString_negSucc (n : Nat) :
    (toString (Int.negSucc n)).toList = '-' :: Nat.toDigits 10 (n + 1) := by
  show ("-" ++ Nat.repr (n + 1)).toList = _
  rw [Nat.repr_eq_ofList_toDigits, String.toList_append, String.toList_ofList]
  simp

/-- A text that starts with a digit has no sign. -/
theorem readInt_of_isDigit {d : Char} (h : d.isDigit = true) :
    readInt r (d :: ds) = readUp r 0 (d :: ds) := by
  have hplus : d ≠ '+' := by
    rintro rfl
    exact absurd h (by decide)
  have hminus : d ≠ '-' := by
    rintro rfl
    exact absurd h (by decide)
  rw [readInt]
  · exact List.cons_ne_nil d ds
  · exact fun heq => hplus (List.cons.inj heq).1
  · exact fun heq => hminus (List.cons.inj heq).1
  · exact fun _ heq => hplus (List.cons.inj heq).1
  · exact fun _ heq => hminus (List.cons.inj heq).1

/-- An integer of a range is read back from its decimal text. -/
theorem readInt_toString {n : Int} (h : r.has n = true) :
    readInt r (toString n).toList = .ok n := by
  rw [IntRange.has, Bool.and_eq_true, decide_eq_true_iff, decide_eq_true_iff] at h
  cases n with
  | ofNat n =>
      have hread := readUp_toDigits h.2
      show readInt r (toString (n : Int)).toList = _
      rw [toList_toString_ofNat]
      obtain ⟨d, ds, hdigits, hd⟩ := exists_cons_toDigits n
      rw [hdigits] at hread ⊢
      rw [readInt_of_isDigit hd]
      exact hread
  | negSucc n =>
      have hread := readDown_toDigits (n := n + 1) h.1
      rw [toList_toString_negSucc]
      obtain ⟨d, ds, hdigits, -⟩ := exists_cons_toDigits (n + 1)
      rw [hdigits] at hread ⊢
      -- a minus sign and something behind it
      show (if r.least < 0 then readDown r 0 (d :: ds) else _) = _
      rw [if_pos (by omega)]
      exact hread

/-! ## Trimming -/

theorem not_isBlank_of_isDigit {c : Char} (h : c.isDigit = true) : isBlank c = false := by
  rw [Char.isDigit, Bool.and_eq_true, decide_eq_true_iff, decide_eq_true_iff] at h
  have hlow : 48 ≤ c.toNat := h.1
  have hhigh : c.toNat ≤ 57 := h.2
  simp [isBlank]
  omega

/-- There is nothing to trim in a text without blank characters. -/
theorem trimChars_of_not_isBlank {cs : List Char} (h : ∀ c ∈ cs, isBlank c = false) :
    trimChars cs = cs := by
  have hdrop (ds : List Char) (hds : ∀ c ∈ ds, isBlank c = false) : ds.dropWhile isBlank = ds := by
    cases ds with
    | nil => rfl
    | cons d ds => rw [List.dropWhile_cons_of_neg (by simp [hds d List.mem_cons_self])]
  exact trimChars_eq_self (hdrop cs h) (hdrop _ fun c hc => h c (List.mem_reverse.1 hc))

theorem trimChars_toString (n : Int) : trimChars (toString n).toList = (toString n).toList := by
  refine trimChars_of_not_isBlank fun c hc => ?_
  cases n with
  | ofNat n =>
      change c ∈ (toString (n : Int)).toList at hc
      rw [toList_toString_ofNat] at hc
      exact not_isBlank_of_isDigit (isDigit_of_mem_toDigits hc)
  | negSucc n =>
      rw [toList_toString_negSucc, List.mem_cons] at hc
      rcases hc with rfl | hc
      · decide
      · exact not_isBlank_of_isDigit (isDigit_of_mem_toDigits hc)

end IngressTls.Text
