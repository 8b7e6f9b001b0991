import IngressTls.Instant.Rfc3339
import IngressTls.Proofs.Instant.Calendar
import IngressTls.Proofs.Integer
import Mathlib.Data.List.TakeWhile

set_option autoImplicit false

/-! # Times are read back

The text of a time names a whole second, and a leap second if it is one. From this text the same
second is read, so that a text that was written is written again as it is.

Main statements: `expressible_of_ofRfc3339?` and `ofRfc3339?_toRfc3339`.
-/

namespace IngressTls.Instant

open IngressTls.Text (trimStartChars isBlank)

/-! ## Digits -/

theorem digitsValue_eq (ds : List Char) : digitsValue ds = Nat.ofDigitChars 10 ds 0 := by
  rw [Nat.ofDigitChars_eq_foldl]
  unfold digitsValue
  congr 1
  funext n d
  rw [Nat.mul_comm]
  rfl

/-- So many digits make no larger number. -/
theorem ofDigitChars_lt {ds : List Char} (hds : ∀ d ∈ ds, d.isDigit = true) (acc : Nat) :
    Nat.ofDigitChars 10 ds acc < (acc + 1) * 10 ^ ds.length := by
  induction ds generalizing acc with
  | nil => simp [Nat.ofDigitChars_nil]
  | cons d ds ih =>
      have hd : d.toNat - '0'.toNat ≤ 9 := by
        have hdigit := hds d List.mem_cons_self
        rw [Char.isDigit, Bool.and_eq_true, decide_eq_true_eq, decide_eq_true_eq] at hdigit
        have hle : d.toNat ≤ 57 := hdigit.2
        exact Nat.sub_le_of_le_add hle
      calc Nat.ofDigitChars 10 (d :: ds) acc
          = Nat.ofDigitChars 10 ds (10 * acc + (d.toNat - '0'.toNat)) := Nat.ofDigitChars_cons
        _ < (10 * acc + (d.toNat - '0'.toNat) + 1) * 10 ^ ds.length :=
          ih (fun c hc => hds c (List.mem_cons_of_mem d hc)) _
        _ ≤ (10 * (acc + 1)) * 10 ^ ds.length := Nat.mul_le_mul_right _ (by omega)
        _ = (acc + 1) * 10 ^ (d :: ds).length := by
          rw [List.length_cons, Nat.pow_succ]
          ac_rfl

/-- The characters of a number with leading zeros. -/
def paddedChars (width n : Nat) : List Char :=
  List.replicate (width - (Nat.toDigits 10 n).length) '0' ++ Nat.toDigits 10 n

theorem toList_padded (width n : Nat) : (padded width n).toList = paddedChars width n := by
  have hdigits : (toString n).toList = Nat.toDigits 10 n := by
    rw [Nat.toString_eq_ofList_toDigits, String.toList_ofList]
  have hlength : (toString n).length = (Nat.toDigits 10 n).length := by
    rw [← String.length_toList, hdigits]
  unfold padded paddedChars
  rw [String.toList_append, String.toList_ofList, hdigits, hlength]

theorem isDigit_of_mem_paddedChars {width n : Nat} {d : Char} (h : d ∈ paddedChars width n) :
    d.isDigit = true := by
  rcases List.mem_append.1 h with h | h
  · rw [List.eq_of_mem_replicate h]
    rfl
  · exact Text.isDigit_of_mem_toDigits h

theorem paddedChars_ne_nil (width n : Nat) : paddedChars width n ≠ [] :=
  List.append_ne_nil_of_right_ne_nil _ Nat.toDigits_ne_nil

theorem digitsValue_paddedChars (width n : Nat) : digitsValue (paddedChars width n) = n := by
  rw [digitsValue_eq, paddedChars, Nat.ofDigitChars_append, Nat.ofDigitChars_replicate_zero,
    Nat.mul_zero, Nat.ofDigitChars_ten_toDigits]

/-- A number that fits is as wide as it is meant to be. -/
theorem length_paddedChars {width n : Nat} (hwidth : 0 < width) (hn : n < 10 ^ width) :
    (paddedChars width n).length = width := by
  have hle := (Nat.length_toDigits_le_iff (by decide) hwidth).2 hn
  rw [paddedChars, List.length_append, List.length_replicate]
  omega

/-- Digits are read up to something that is not a digit, or as far as the width allows. -/
theorem readDigits_append {ds rest : List Char} {width : Nat} (hne : ds ≠ [])
    (hds : ∀ d ∈ ds, d.isDigit = true)
    (hend : ds.length = width ∨
      ds.length ≤ width ∧ ∃ c tail, rest = c :: tail ∧ c.isDigit = false) :
    readDigits width (ds ++ rest) = some (digitsValue ds, rest) := by
  -- either the width ends the digits, or what follows them does
  have htake : ((ds ++ rest).take width).takeWhile Char.isDigit = ds := by
    rcases hend with rfl | ⟨hle, c, tail, rfl, hc⟩
    · rw [List.take_left, List.takeWhile_eq_self_iff.2 hds]
    · rw [List.take_append, List.take_of_length_le hle, List.takeWhile_append_of_pos hds]
      cases width - ds.length with
      | zero => simp
      | succ n => simp [hc]
  unfold readDigits
  rw [htake]
  dsimp only
  rw [List.drop_left, if_neg (fun hempty => hne (List.isEmpty_iff.1 hempty))]

/-! ## Parts of a text -/

theorem trimStartChars_cons {c : Char} (cs : List Char) (h : isBlank c = false) :
    trimStartChars (c :: cs) = c :: cs := by
  unfold trimStartChars
  rw [List.dropWhile_cons_of_neg (by rw [h]; decide)]

theorem trimStartChars_append {ds : List Char} (rest : List Char) (hne : ds ≠ [])
    (hds : ∀ d ∈ ds, d.isDigit = true) : trimStartChars (ds ++ rest) = ds ++ rest := by
  cases ds with
  | nil => exact absurd rfl hne
  | cons d ds =>
      exact trimStartChars_cons _ (Text.not_isBlank_of_isDigit (hds d List.mem_cons_self))

theorem readMark_cons {c : Char} (cs : List Char) (h : isBlank c = false) :
    readMark c (c :: cs) = some cs := by
  rw [readMark, trimStartChars_cons cs h]
  exact if_pos rfl

/-- A number of two digits is read as a field. -/
theorem readField_paddedChars {n : Nat} {low high : Int} (rest : List Char) (hn : n < 100)
    (hlow : low ≤ n) (hhigh : (n : Int) ≤ high) :
    readField 2 low high (paddedChars 2 n ++ rest) = some ((n : Int), rest) := by
  have hdigits : ∀ d ∈ paddedChars 2 n, d.isDigit = true := fun d => isDigit_of_mem_paddedChars
  rw [readField, trimStartChars_append rest (paddedChars_ne_nil 2 n) hdigits,
    readDigits_append (paddedChars_ne_nil 2 n) hdigits
      (Or.inl (length_paddedChars (by decide) hn)), digitsValue_paddedChars]
  dsimp only
  rw [if_pos (by rw [Bool.and_eq_true, decide_eq_true_eq, decide_eq_true_eq]; exact ⟨hlow, hhigh⟩)]

theorem readYear_minus (cs : List Char) : readYear ('-' :: cs) =
    (readDigits cs.length cs).map fun p => (-(p.1 : Int), p.2) := by
  rw [readYear, trimStartChars_cons cs (by decide)]
  rfl

theorem readYear_plus (cs : List Char) : readYear ('+' :: cs) =
    (readDigits cs.length cs).map fun p => ((p.1 : Int), p.2) := by
  rw [readYear, trimStartChars_cons cs (by decide)]
  rfl

theorem readYear_digits {ds : List Char} (rest : List Char) (hne : ds ≠ [])
    (hds : ∀ d ∈ ds, d.isDigit = true) :
    readYear (ds ++ rest) = (readDigits 4 (ds ++ rest)).map fun p => ((p.1 : Int), p.2) := by
  rw [readYear, trimStartChars_append rest hne hds]
  split
  · next hsign =>
    -- a sign is not a digit
    cases ds with
    | nil => exact absurd rfl hne
    | cons d ds =>
        cases hsign
        cases hds '-' List.mem_cons_self
  · next hsign =>
    cases ds with
    | nil => exact absurd rfl hne
    | cons d ds =>
        cases hsign
        cases hds '+' List.mem_cons_self
  · rfl

/-- A year is read back, whatever its sign and its number of digits. -/
theorem readYear_yearText (year : Int) (rest : List Char) :
    readYear ((yearText year).toList ++ '-' :: rest) = some (year, '-' :: rest) := by
  have hdigits (n : Nat) : ∀ d ∈ paddedChars 4 n, d.isDigit = true :=
    fun d => isDigit_of_mem_paddedChars
  -- after a sign, the digits end where the dash begins
  have hsigned (n : Nat) : readDigits (paddedChars 4 n ++ '-' :: rest).length
      (paddedChars 4 n ++ '-' :: rest) = some (n, '-' :: rest) := by
    rw [readDigits_append (paddedChars_ne_nil 4 n) (hdigits n)
      (Or.inr ⟨by rw [List.length_append]; exact Nat.le_add_right _ _, '-', rest, rfl, rfl⟩),
      digitsValue_paddedChars]
  unfold yearText
  split
  · next hplain =>
    rw [Bool.and_eq_true, decide_eq_true_eq, decide_eq_true_eq] at hplain
    rw [toList_padded, readYear_digits _ (paddedChars_ne_nil 4 _) (hdigits _),
      readDigits_append (paddedChars_ne_nil 4 _) (hdigits _)
        (Or.inl (length_paddedChars (by decide) (by omega))), digitsValue_paddedChars,
      Option.map_some, Int.toNat_of_nonneg hplain.1]
  · rw [String.toList_append, toList_padded]
    split
    · next hnegative =>
      have habs : -(year.natAbs : Int) = year := by omega
      show readYear ('-' :: (paddedChars 4 year.natAbs ++ '-' :: rest)) = _
      rw [readYear_minus, hsigned, Option.map_some, habs]
    · next hpositive =>
      have habs : (year.natAbs : Int) = year := by omega
      show readYear ('+' :: (paddedChars 4 year.natAbs ++ '-' :: rest)) = _
      rw [readYear_plus, hsigned, Option.map_some, habs]

/-! ## Times that are read -/

/-- A time that some text can express: there is such an instant, and a leap second is the last second
of a minute. -/
structure Expressible (t : Instant) : Prop where
  /-- It is not before the first instant. -/
  least_le : leastSecond ≤ t.seconds
  /-- It is not after the last instant. -/
  le_greatest : t.seconds ≤ greatestSecond
  /-- Leap seconds end a minute. -/
  leap : 1000000000 ≤ t.nanoseconds → t.seconds % 60 = 59

variable {cs rest : List Char}

/-- The fraction of a second is less than a second. -/
theorem readFraction_lt {nanos : Nat} (h : readFraction cs = some (nanos, rest)) :
    nanos < 1000000000 := by
  unfold readFraction at h
  split at h
  · next text =>
    obtain ⟨-, h⟩ := Option.ite_none_left_eq_some.1 h
    cases h
    have hdigits : ∀ d ∈ ((text.takeWhile Char.isDigit).take 9).rightpad 9 '0',
        d.isDigit = true := by
      intro d hd
      rcases List.mem_append.1 hd with hd | hd
      · exact List.mem_takeWhile_imp (List.mem_of_mem_take hd)
      · rw [List.eq_of_mem_replicate hd]
        rfl
    have hlength : (((text.takeWhile Char.isDigit).take 9).rightpad 9 '0').length = 9 := by
      rw [List.length_rightpad, List.length_take]
      omega
    have hlt := ofDigitChars_lt hdigits 0
    rw [hlength] at hlt
    rw [digitsValue_eq]
    exact hlt
  · cases h
    decide

theorem readTime_leap {seconds : Int} {nanos : Nat} (h : readTime cs = some ((seconds, nanos), rest))
    (hleap : 1000000000 ≤ nanos) : seconds % 60 = 59 := by
  obtain ⟨⟨hour, cs⟩, -, h⟩ := Option.bind_eq_some_iff.1 h
  obtain ⟨cs, -, h⟩ := Option.bind_eq_some_iff.1 h
  obtain ⟨⟨minute, cs⟩, -, h⟩ := Option.bind_eq_some_iff.1 h
  obtain ⟨cs, -, h⟩ := Option.bind_eq_some_iff.1 h
  obtain ⟨⟨second, cs⟩, -, h⟩ := Option.bind_eq_some_iff.1 h
  obtain ⟨⟨fraction, cs⟩, hfraction, h⟩ := Option.bind_eq_some_iff.1 h
  have hlt := readFraction_lt hfraction
  cases h
  by_cases hsecond : second = 60
  · simp only [hsecond, if_true]
    omega
  · simp only [hsecond, if_false] at hleap
    omega

/-- An offset is a number of minutes. -/
theorem readOffset_mod {offset : Int} (h : readOffset cs = some (offset, rest)) :
    offset % 60 = 0 := by
  unfold readOffset at h
  split at h
  · cases h
    rfl
  · cases h
    rfl
  · split at h
    · cases h
      rfl
    · split at h
      · split at h
        · cases h
        · split at h
          · cases h
          · obtain ⟨-, h⟩ := Option.ite_none_right_eq_some.1 h
            cases h
            split
            · omega
            · omega
      · cases h
  · cases h

/-- Every time that is read is one that a text can express. -/
theorem expressible_of_ofRfc3339? {s : String} {t : Instant} (h : ofRfc3339? s = some t) : t.Expressible := by
  obtain ⟨⟨days, cs⟩, -, h⟩ := Option.bind_eq_some_iff.1 h
  obtain ⟨cs, -, h⟩ := Option.bind_eq_some_iff.1 h
  obtain ⟨⟨⟨seconds, nanos⟩, cs⟩, htime, h⟩ := Option.bind_eq_some_iff.1 h
  obtain ⟨⟨offset, cs⟩, hoffset, h⟩ := Option.bind_eq_some_iff.1 h
  obtain ⟨hrange, h⟩ := Option.ite_none_right_eq_some.1 h
  cases h
  rw [Bool.and_eq_true, Bool.and_eq_true, decide_eq_true_eq, decide_eq_true_eq] at hrange
  refine ⟨hrange.1.2, hrange.2, fun hleap => ?_⟩
  have hseconds := readTime_leap htime hleap
  have hminutes := readOffset_mod hoffset
  show (days * 86400 + seconds - offset) % 60 = 59
  omega

/-! ## Times that are written -/

theorem readDate_text {days year month day : Int} (hdate : IsDate days year month day)
    (hyear : leastYear ≤ year ∧ year ≤ greatestYear) (rest : List Char) :
    readDate ((yearText year).toList ++ '-' :: (paddedChars 2 month.toNat ++
      '-' :: (paddedChars 2 day.toNat ++ rest))) = some (days, rest) := by
  have hday' := hdate.day_le_31
  obtain ⟨hmonth, hmonth', hday, hlast, hdays⟩ := hdate
  have hmonthNat : (month.toNat : Int) = month := Int.toNat_of_nonneg (by omega)
  have hdayNat : (day.toNat : Int) = day := Int.toNat_of_nonneg (by omega)
  refine Option.bind_eq_some_iff.2 ⟨_, readYear_yearText year _, ?_⟩
  refine Option.bind_eq_some_iff.2 ⟨_, readMark_cons _ (by decide), ?_⟩
  refine Option.bind_eq_some_iff.2
    ⟨_, readField_paddedChars _ (by omega) (by omega) (by omega), ?_⟩
  refine Option.bind_eq_some_iff.2 ⟨_, readMark_cons _ (by decide), ?_⟩
  refine Option.bind_eq_some_iff.2
    ⟨_, readField_paddedChars _ (by omega) (by omega) (by omega), ?_⟩
  dsimp only
  rw [hmonthNat, hdayNat, hdays]
  exact if_pos (by simp [hyear, hlast])

theorem readTime_text {hour minute second : Nat} (hhour : hour < 24) (hminute : minute < 60)
    (hsecond : second ≤ 60) (rest : List Char) :
    readTime (paddedChars 2 hour ++ ':' :: (paddedChars 2 minute ++
      ':' :: (paddedChars 2 second ++ 'Z' :: rest))) =
      some (((hour : Int) * 3600 + minute * 60 + (if second = 60 then 59 else second : Nat),
        if second = 60 then 1000000000 else 0), 'Z' :: rest) := by
  have hfraction : readFraction ('Z' :: rest) = some (0, 'Z' :: rest) := rfl
  refine Option.bind_eq_some_iff.2
    ⟨_, readField_paddedChars _ (by omega) (by omega) (by omega), ?_⟩
  refine Option.bind_eq_some_iff.2 ⟨_, readMark_cons _ (by decide), ?_⟩
  refine Option.bind_eq_some_iff.2
    ⟨_, readField_paddedChars _ (by omega) (by omega) (by omega), ?_⟩
  refine Option.bind_eq_some_iff.2 ⟨_, readMark_cons _ (by decide), ?_⟩
  refine Option.bind_eq_some_iff.2
    ⟨_, readField_paddedChars _ (by omega) (by omega) (by omega), ?_⟩
  refine Option.bind_eq_some_iff.2 ⟨_, hfraction, ?_⟩
  by_cases hleap : second = 60
  · subst hleap
    rfl
  · have hleap' : ¬(second : Int) = 60 := by omega
    simp [hleap, hleap']

/-- The second that a text names: whole, or a leap second. -/
def namedSecond (t : Instant) : Instant :=
  ⟨t.seconds, if 1000000000 ≤ t.nanoseconds then 1000000000 else 0⟩

/-- The number of its second within the minute. -/
def secondOfMinute (t : Instant) : Nat :=
  if 1000000000 ≤ t.nanoseconds then 60 else (t.seconds % 86400).toNat % 60

theorem toList_toRfc3339 (t : Instant) : t.toRfc3339.toList =
    (yearText (dateOfDays (t.seconds / 86400)).1).toList ++
      '-' :: (paddedChars 2 (dateOfDays (t.seconds / 86400)).2.1.toNat ++
      '-' :: (paddedChars 2 (dateOfDays (t.seconds / 86400)).2.2.toNat ++
      'T' :: (paddedChars 2 ((t.seconds % 86400).toNat / 3600) ++
      ':' :: (paddedChars 2 ((t.seconds % 86400).toNat / 60 % 60) ++
      ':' :: (paddedChars 2 t.secondOfMinute ++ ['Z']))))) := by
  unfold toRfc3339 secondOfMinute
  simp only [String.toList_append, toList_padded, List.append_assoc]
  rfl

/-- The time of day of a time that was read. A leap second is counted as the one before it. -/
theorem Expressible.timeOfDay {t : Instant} (h : t.Expressible) : t.secondOfMinute ≤ 60 ∧
    (t.secondOfMinute = 60 ↔ 1000000000 ≤ t.nanoseconds) ∧
    (((t.seconds % 86400).toNat / 3600 : Nat) : Int) * 3600 +
      ((t.seconds % 86400).toNat / 60 % 60 : Nat) * 60 +
      (if t.secondOfMinute = 60 then 59 else t.secondOfMinute : Nat) = t.seconds % 86400 := by
  have hleap := h.leap
  by_cases hnanos : 1000000000 ≤ t.nanoseconds
  · have hsecond : t.secondOfMinute = 60 := if_pos hnanos
    rw [hsecond, if_pos rfl]
    omega
  · have hsecond : t.secondOfMinute = (t.seconds % 86400).toNat % 60 := if_neg hnanos
    rw [hsecond, if_neg (by omega)]
    omega

/-- The text of a time is read back as the second that it names. -/
theorem ofRfc3339?_toRfc3339 {t : Instant} (h : t.Expressible) :
    ofRfc3339? t.toRfc3339 = some t.namedSecond := by
  have hdate := isDate_dateOfDays (t.seconds / 86400)
  obtain ⟨hsecond, hleap, htimeOfDay⟩ := h.timeOfDay
  obtain ⟨hleast, hgreatest, -⟩ := h
  have hyear := year_mem_of_isDate hdate (by omega) (by omega)
  have hseparator (cs : List Char) : readSeparator ('T' :: cs) = some cs := rfl
  have hoffset : readOffset (trimStartChars ['Z']) = some (0, []) := rfl
  have hend : (trimStartChars []).isEmpty = true := rfl
  -- the offset of universal time is nothing
  have hseconds : t.seconds / 86400 * 86400 + t.seconds % 86400 - 0 = t.seconds := by omega
  unfold ofRfc3339?
  rw [toList_toRfc3339]
  refine Option.bind_eq_some_iff.2 ⟨_, readDate_text hdate hyear _, ?_⟩
  refine Option.bind_eq_some_iff.2 ⟨_, hseparator _, ?_⟩
  refine Option.bind_eq_some_iff.2 ⟨_, readTime_text (by omega) (by omega) hsecond [], ?_⟩
  refine Option.bind_eq_some_iff.2 ⟨_, hoffset, ?_⟩
  dsimp only
  rw [htimeOfDay, hseconds, hend, decide_eq_true hleast, decide_eq_true hgreatest,
    if_congr hleap rfl rfl]
  rfl

/-- A time is written as the second that its text names. -/
theorem toRfc3339_namedSecond (t : Instant) : t.namedSecond.toRfc3339 = t.toRfc3339 := by
  unfold toRfc3339 namedSecond
  by_cases hleap : 1000000000 ≤ t.nanoseconds
  · simp [hleap]
  · simp [hleap]

/-- What was written of a time that was read is read, and written again as it is. -/
theorem map_toRfc3339_ofRfc3339? {s : String} {t : Instant} (h : ofRfc3339? s = some t) :
    (ofRfc3339? t.toRfc3339).map toRfc3339 = some t.toRfc3339 := by
  rw [ofRfc3339?_toRfc3339 (expressible_of_ofRfc3339? h), Option.map_some, toRfc3339_namedSecond]

end IngressTls.Instant
