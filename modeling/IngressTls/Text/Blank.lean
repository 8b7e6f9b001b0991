set_option autoImplicit false

/-! # Blank characters

The characters with the Unicode property White_Space, and the trimming of a text at both
ends. The set is larger than ASCII white space: it holds the no-break space U+00A0, the
ideographic space U+3000 and the separators U+2028 and U+2029, but not the zero-width
space U+200B nor the byte-order mark U+FEFF.

Main statement: `trimChars_trimChars`, a trimmed text has nothing left to trim.
-/

namespace IngressTls.Text

/-- The characters of the Unicode property White_Space. -/
def isBlank (c : Char) : Bool :=
  let n := c.toNat
  (0x9 ≤ n && n ≤ 0xd) || n == 0x20 || n == 0x85 || n == 0xa0 || n == 0x1680 ||
    (0x2000 ≤ n && n ≤ 0x200a) || n == 0x2028 || n == 0x2029 || n == 0x202f ||
    n == 0x205f || n == 0x3000

/-- The characters after the leading blank ones. -/
def trimStartChars (cs : List Char) : List Char := cs.dropWhile isBlank

/-- The characters between the leading and the trailing blank ones. -/
def trimChars (cs : List Char) : List Char :=
  ((trimStartChars cs).reverse.dropWhile isBlank).reverse

/-- A text without the blank characters at its two ends. -/
def trim (s : String) : String := String.ofList (trimChars s.toList)

theorem dropWhile_dropWhile (p : Char → Bool) (cs : List Char) :
    (cs.dropWhile p).dropWhile p = cs.dropWhile p := by
  induction cs with
  | nil => rfl
  | cons c cs ih =>
    by_cases h : p c = true
    · simp [h, ih]
    · simp [h]

theorem dropWhile_eq_self_of_append {p : Char → Bool} {as r : List Char}
    (h : (as ++ r).dropWhile p = as ++ r) : as.dropWhile p = as := by
  cases as with
  | nil => rfl
  | cons a as =>
    by_cases ha : p a = true
    · have hlen := congrArg List.length h
      have hle := (List.dropWhile_suffix p (l := as ++ r)).length_le
      simp only [List.cons_append, List.dropWhile_cons_of_pos ha, List.length_cons] at hlen
      omega
    · simp [ha]

theorem trimChars_eq_self {cs : List Char} (h : cs.dropWhile isBlank = cs)
    (hr : cs.reverse.dropWhile isBlank = cs.reverse) : trimChars cs = cs := by
  rw [trimChars, trimStartChars, h, hr, List.reverse_reverse]

theorem trimChars_trimChars (cs : List Char) : trimChars (trimChars cs) = trimChars cs := by
  apply trimChars_eq_self
  · obtain ⟨r, hr⟩ := List.dropWhile_suffix isBlank (l := (trimStartChars cs).reverse)
    have hm : trimChars cs ++ r.reverse = trimStartChars cs := by
      rw [trimChars, ← List.reverse_append, hr, List.reverse_reverse]
    apply dropWhile_eq_self_of_append (r := r.reverse)
    rw [hm]
    exact dropWhile_dropWhile isBlank cs
  · rw [trimChars, List.reverse_reverse]
    exact dropWhile_dropWhile isBlank _

end IngressTls.Text
