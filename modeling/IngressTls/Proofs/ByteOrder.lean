import Mathlib.Data.List.Basic
import Mathlib.Tactic.IntervalCases

set_option autoImplicit false

/-! # The order of texts by their bytes

Texts are compared character by character, but they are stored, sent and sorted as bytes. In UTF-8
both orders are the same: a character takes one to four bytes, and its bytes come before those of
every later character, whatever follows them.

A character of `k + 1` bytes is a first byte with a mark that grows with `k`, and then `k` bytes
with six bits of its number each.

Main statement: `utf8Bytes_lt_iff`.
-/

namespace IngressTls.Text

/-- The bytes of a text in UTF-8. -/
def utf8Bytes (s : String) : List UInt8 := s.toByteArray.data.toList

theorem utf8Bytes_eq (s : String) : utf8Bytes s = s.toList.flatMap String.utf8EncodeChar := by
  rw [utf8Bytes, ← String.utf8Encode_toList, List.utf8Encode]
  simp

/-! ## One character -/

/-- The bytes after the first one, each with six bits of the number of the character. -/
def trailBytes : Nat → Nat → List UInt8
  | 0, _ => []
  | k + 1, n => UInt8.ofNat (n / 64 ^ k % 64 + 128) :: trailBytes k n

/-- The mark of the first byte, by the number of bytes that follow it. -/
def leadMark : Nat → Nat
  | 0 => 0
  | 1 => 192
  | 2 => 224
  | _ => 240

/-- The least number of a character, by the number of bytes that follow the first one. -/
def leastWith : Nat → Nat
  | 0 => 0
  | 1 => 128
  | 2 => 2048
  | 3 => 65536
  | _ => 1114112

theorem ofNat_lt_ofNat {a b : Nat} (hb : b < 256) (h : a < b) :
    UInt8.ofNat a < UInt8.ofNat b := by
  have ha : a < 256 := Nat.lt_trans h hb
  rw [UInt8.lt_iff_toNat_lt, UInt8.toNat_ofNat_of_lt' ha, UInt8.toNat_ofNat_of_lt' hb]
  exact h

/-- How a character is written: the number of its bytes depends on its number. -/
theorem exists_encoding (c : Char) : ∃ k, k < 4 ∧ leastWith k ≤ c.toNat ∧
    c.toNat < leastWith (k + 1) ∧ String.utf8EncodeChar c =
      UInt8.ofNat (c.toNat / 64 ^ k + leadMark k) :: trailBytes k c.toNat := by
  have hc : c.toNat < 1114112 := by
    rcases c.valid with h | h
    · exact Nat.lt_trans h (by decide)
    · exact h.2
  unfold String.utf8EncodeChar
  simp only [Char.toNat_val]
  -- the first byte has room for what is left of the number
  split_ifs with hone htwo hthree
  · refine ⟨0, by decide, Nat.zero_le _, Nat.lt_succ_of_le hone, ?_⟩
    simp [trailBytes, leadMark]
  · refine ⟨1, by decide, Nat.lt_of_not_le hone, Nat.lt_succ_of_le htwo, ?_⟩
    rw [Nat.mod_eq_of_lt (by omega)]
    simp [trailBytes, leadMark]
  · refine ⟨2, by decide, Nat.lt_of_not_le htwo, Nat.lt_succ_of_le hthree, ?_⟩
    rw [Nat.mod_eq_of_lt (by omega)]
    simp [trailBytes, leadMark]
  · refine ⟨3, by decide, Nat.lt_of_not_le hthree, hc, ?_⟩
    rw [Nat.mod_eq_of_lt (by omega)]
    simp [trailBytes, leadMark]

/-- With equal first bytes, the first of the other bytes that differ decide. -/
theorem trailBytes_lt {k m n : Nat} (hlt : m < n) (hsame : m / 64 ^ k = n / 64 ^ k)
    (s t : List UInt8) : trailBytes k m ++ s < trailBytes k n ++ t := by
  induction k with
  | zero =>
      rw [Nat.pow_zero, Nat.div_one, Nat.div_one] at hsame
      omega
  | succ k ih =>
      rw [trailBytes, trailBytes, List.cons_append, List.cons_append, List.cons_lt_cons_iff]
      rw [Nat.pow_succ, ← Nat.div_div_eq_div_mul, ← Nat.div_div_eq_div_mul] at hsame
      have hle : m / 64 ^ k ≤ n / 64 ^ k := Nat.div_le_div_right (Nat.le_of_lt hlt)
      rcases Nat.lt_or_eq_of_le hle with hdigit | hdigit
      · exact Or.inl (ofNat_lt_ofNat (by omega) (by omega))
      · exact Or.inr ⟨by rw [hdigit], ih hdigit⟩

/-- The first byte of a longer character is the greater one. -/
theorem leadByte_lt {k l m n : Nat} (hl : l < 4) (hkl : k < l) (hm : m < leastWith (k + 1))
    (hn : n < leastWith (l + 1)) : UInt8.ofNat (m / 64 ^ k + leadMark k) <
      UInt8.ofNat (n / 64 ^ l + leadMark l) := by
  have hbytes : n / 64 ^ l + leadMark l < 256 ∧
      m / 64 ^ k + leadMark k < n / 64 ^ l + leadMark l := by
    interval_cases l <;> interval_cases k <;> simp [leastWith, leadMark] at * <;> omega
  exact ofNat_lt_ofNat hbytes.1 hbytes.2

/-- The bytes of a character come before those of every later one, whatever follows them. -/
theorem utf8EncodeChar_lt {c d : Char} (h : c < d) (s t : List UInt8) :
    String.utf8EncodeChar c ++ s < String.utf8EncodeChar d ++ t := by
  have hlt : c.toNat < d.toNat := h
  obtain ⟨k, hk, hleast, hmost, hc⟩ := exists_encoding c
  obtain ⟨l, hl, hleast', hmost', hd⟩ := exists_encoding d
  rw [hc, hd, List.cons_append, List.cons_append, List.cons_lt_cons_iff]
  rcases Nat.lt_trichotomy k l with hkl | rfl | hlk
  · exact Or.inl (leadByte_lt hl hkl hmost hmost')
  · have hle : c.toNat / 64 ^ k ≤ d.toNat / 64 ^ k := Nat.div_le_div_right (Nat.le_of_lt hlt)
    rcases Nat.lt_or_eq_of_le hle with hlead | hlead
    · refine Or.inl (ofNat_lt_ofNat ?_ (Nat.add_lt_add_right hlead _))
      interval_cases k <;> simp [leastWith, leadMark] at * <;> omega
    · exact Or.inr ⟨by rw [hlead], trailBytes_lt hlt hlead s t⟩
  · -- a longer character has the greater number
    have hmono : leastWith (l + 1) ≤ leastWith k := by
      interval_cases k <;> interval_cases l <;> decide
    omega

/-! ## Texts -/

theorem flatMap_utf8EncodeChar_lt {cs ds : List Char} (h : cs < ds) :
    cs.flatMap String.utf8EncodeChar < ds.flatMap String.utf8EncodeChar := by
  induction cs generalizing ds with
  | nil =>
      cases ds with
      | nil => exact absurd h (List.lt_irrefl _)
      | cons d ds =>
          obtain ⟨k, -, -, -, hd⟩ := exists_encoding d
          rw [List.flatMap_nil, List.flatMap_cons, hd, List.cons_append]
          exact List.nil_lt_cons _ _
  | cons c cs ih =>
      cases ds with
      | nil => cases h
      | cons d ds =>
          rw [List.flatMap_cons, List.flatMap_cons]
          rcases List.cons_lt_cons_iff.1 h with hlt | ⟨rfl, hlt⟩
          · exact utf8EncodeChar_lt hlt _ _
          · exact List.append_left_lt (ih hlt)

/-- The order of texts is the order of their bytes. -/
theorem utf8Bytes_lt_iff {s t : String} : utf8Bytes s < utf8Bytes t ↔ s < t := by
  have hmono {s t : String} (h : s < t) : utf8Bytes s < utf8Bytes t := by
    rw [utf8Bytes_eq, utf8Bytes_eq]
    exact flatMap_utf8EncodeChar_lt h
  refine ⟨fun h => ?_, hmono⟩
  by_contra hnot
  by_cases hlt : t < s
  · exact List.lt_asymm h (hmono hlt)
  · have heq : s = t := String.le_antisymm (String.not_lt.1 hlt) (String.not_lt.1 hnot)
    rw [heq] at h
    exact List.lt_irrefl _ h

end IngressTls.Text
