import IngressTls.Text.Quoted
import Mathlib.Data.List.Forall2

set_option autoImplicit false

/-! # Texts between quotes

A character that can be seen stands for itself between the quotes, unless it is a quote or a
backslash. Six characters have a letter of their own, which stands behind a backslash, and all others
are written as hexadecimal numbers.

Each text has exactly one spelling of this kind, and it is the one that is shown.

Main statements: `isHex_iff`, `isWritten_iff` and `isQuoted_iff`.
-/

namespace IngressTls.Text

/-! ## Hexadecimal numbers -/

/-- The hexadecimal digits, in the order of their values. -/
def sixteenDigits : List Char :=
  ['0', '1', '2', '3', '4', '5', '6', '7', '8', '9', 'a', 'b', 'c', 'd', 'e', 'f']

/-- Hexadecimal digits of a number, without zeros in front of it. -/
inductive IsHex : List Char → Nat → Prop where
  /-- A digit alone is its value. -/
  | digit {v : Nat} {d : Char} (hd : sixteenDigits[v]? = some d) : IsHex [d] v
  /-- A digit behind a number that is not zero. -/
  | behind {ds : List Char} {n v : Nat} {d : Char} (hds : IsHex ds n) (hpos : 0 < n)
      (hd : sixteenDigits[v]? = some d) : IsHex (ds ++ [d]) (16 * n + v)

theorem sixteenDigits_of_lt : ∀ v < 16, sixteenDigits[v]? = some v.digitChar := by decide

theorem sixteenDigits_eq_some_iff {v : Nat} {d : Char} :
    sixteenDigits[v]? = some d ↔ v < 16 ∧ v.digitChar = d := by
  constructor
  · intro h
    have hv : v < 16 := (List.getElem?_eq_some_iff.1 h).1
    rw [sixteenDigits_of_lt v hv] at h
    exact ⟨hv, Option.some.inj h⟩
  · rintro ⟨hv, rfl⟩
    exact sixteenDigits_of_lt v hv

theorem isHex_hexDigits (n : Nat) : IsHex (hexDigits n) n := by
  induction n using Nat.strongRecOn with
  | ind n ih =>
      by_cases hn : n < 16
      · rw [hexDigits, Nat.toDigits_of_lt_base hn]
        exact .digit (sixteenDigits_eq_some_iff.2 ⟨hn, rfl⟩)
      · have hmore : IsHex (hexDigits (n / 16) ++ [(n % 16).digitChar])
            (16 * (n / 16) + n % 16) :=
          .behind (ih (n / 16) (by omega)) (by omega)
            (sixteenDigits_eq_some_iff.2 ⟨by omega, rfl⟩)
        rw [Nat.div_add_mod] at hmore
        rw [hexDigits, Nat.toDigits_of_base_le (by decide) (by omega)]
        exact hmore

/-- A number has one spelling. -/
theorem isHex_iff {ds : List Char} {n : Nat} : IsHex ds n ↔ ds = hexDigits n := by
  constructor
  · intro h
    induction h with
    | digit hd =>
        obtain ⟨hv, rfl⟩ := sixteenDigits_eq_some_iff.1 hd
        exact (Nat.toDigits_of_lt_base hv).symm
    | behind _ hpos hd ih =>
        obtain ⟨hv, rfl⟩ := sixteenDigits_eq_some_iff.1 hd
        rw [ih, ← Nat.toDigits_of_lt_base hv]
        exact Nat.toDigits_append_toDigits (by decide) hpos hv
  · rintro rfl
    exact isHex_hexDigits n

/-! ## Characters -/

/-- The characters with a letter of their own. -/
def escapes : List (Char × Char) :=
  [('"', '"'), ('\\', '\\'), ('\n', 'n'), ('\r', 'r'), ('\t', 't'), ('\x00', '0')]

/-- How a character is written between the quotes. -/
inductive IsWritten (c : Char) : List Char → Prop where
  /-- By its letter, behind a backslash. -/
  | letter {l : Char} (hl : (c, l) ∈ escapes) : IsWritten c ['\\', l]
  /-- It can be seen and stands for itself. -/
  | plain (hletter : ∀ l, (c, l) ∉ escapes) (hseen : isVisible c = true) : IsWritten c [c]
  /-- It cannot be seen, and its number is written. -/
  | number {ds : List Char} (hletter : ∀ l, (c, l) ∉ escapes) (hseen : isVisible c = false)
      (hds : IsHex ds c.toNat) : IsWritten c (['\\', 'u', '\x7b'] ++ ds ++ ['\x7d'])

theorem quotedChar_of_mem {c l : Char} (h : (c, l) ∈ escapes) : quotedChar c = ['\\', l] := by
  simp only [escapes, List.mem_cons, List.not_mem_nil, or_false, Prod.mk.injEq] at h
  rcases h with ⟨rfl, rfl⟩ | ⟨rfl, rfl⟩ | ⟨rfl, rfl⟩ | ⟨rfl, rfl⟩ | ⟨rfl, rfl⟩ | ⟨rfl, rfl⟩ <;> rfl

theorem quotedChar_of_not_mem {c : Char} (h : ∀ l, (c, l) ∉ escapes) :
    quotedChar c = if isVisible c then [c]
      else ['\\', 'u', '\x7b'] ++ hexDigits c.toNat ++ ['\x7d'] := by
  have hne {d l : Char} (hd : (d, l) ∈ escapes) : c ≠ d := by
    rintro rfl
    exact h l hd
  have hzero : c.toNat ≠ 0 := by
    intro heq
    exact hne (d := '\x00') (l := '0') (by decide) (Char.toNat_inj.1 heq)
  rw [quotedChar, if_neg (hne (l := '"') (by decide)), if_neg (hne (l := '\\') (by decide)),
    if_neg (hne (l := 'n') (by decide)), if_neg (hne (l := 'r') (by decide)),
    if_neg (hne (l := 't') (by decide)), if_neg hzero]

/-- A character is written in one way. -/
theorem isWritten_iff {c : Char} {cs : List Char} : IsWritten c cs ↔ cs = quotedChar c := by
  constructor
  · intro h
    cases h with
    | letter hl => exact (quotedChar_of_mem hl).symm
    | plain hletter hseen => rw [quotedChar_of_not_mem hletter, if_pos hseen]
    | number hletter hseen hds =>
        rw [quotedChar_of_not_mem hletter, hseen, isHex_iff.1 hds]
        rfl
  · rintro rfl
    by_cases hletter : ∃ l, (c, l) ∈ escapes
    · obtain ⟨l, hl⟩ := hletter
      rw [quotedChar_of_mem hl]
      exact .letter hl
    · have hnone := not_exists.1 hletter
      rw [quotedChar_of_not_mem hnone]
      split
      · next hseen => exact .plain hnone hseen
      · next hseen => exact .number hnone (Bool.eq_false_iff.2 hseen) (isHex_hexDigits _)

/-! ## Texts -/

/-- A text between quotes, character by character. -/
def IsQuoted (raw shown : String) : Prop :=
  ∃ parts, List.Forall₂ IsWritten raw.toList parts ∧
    shown.toList = ['"'] ++ parts.flatten ++ ['"']

theorem forall₂_isWritten_iff {cs : List Char} {parts : List (List Char)} :
    List.Forall₂ IsWritten cs parts ↔ parts = cs.map quotedChar := by
  constructor
  · intro h
    induction h with
    | nil => rfl
    | cons hc _ ih => rw [isWritten_iff.1 hc, ih, List.map_cons]
  · rintro rfl
    refine List.forall₂_map_right_iff.2 (List.forall₂_same.2 fun c _ => ?_)
    exact isWritten_iff.2 rfl

/-- A text is shown in one way. -/
theorem isQuoted_iff {raw shown : String} : IsQuoted raw shown ↔ shown = quoted raw := by
  have hquoted : (quoted raw).toList = ['"'] ++ (raw.toList.map quotedChar).flatten ++ ['"'] := by
    rw [quoted, String.toList_ofList, List.flatMap_def]
    rfl
  rw [← String.toList_inj, hquoted]
  constructor
  · rintro ⟨parts, hparts, hshown⟩
    rw [hshown, forall₂_isWritten_iff.1 hparts]
  · intro hshown
    exact ⟨_, forall₂_isWritten_iff.2 rfl, hshown⟩

end IngressTls.Text
