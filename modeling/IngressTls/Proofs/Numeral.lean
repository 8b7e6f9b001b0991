import IngressTls.Proofs.Integer
import Mathlib.Data.List.TakeWhile

set_option autoImplicit false

/-! # Numerals

A numeral is at most one sign with digits behind it. What is read as an integer of a signed range
are exactly the numerals of the integers of the range, however many zeros they begin with.

All other texts have a fault, and it is the first one from the left: the digits may lead out of the
range before something comes that is no digit. A text has one fault at most, and then it is no
numeral of the range.

Main statements: `readInt_eq_ok_iff` and `readInt_eq_error_iff`.
-/

namespace IngressTls.Text

/-! ## Signs -/

/-- What stands in front of the digits. -/
inductive Sign where
  | bare | plus | minus
  deriving DecidableEq, Repr

namespace Sign

/-- The text of a sign. -/
def text : Sign → List Char
  | bare => []
  | plus => ['+']
  | minus => ['-']

/-- The integer of a sign and a natural number. -/
def apply : Sign → Nat → Int
  | minus, n => -(n : Int)
  | bare, n | plus, n => n

/-- What is wrong if the digits behind a sign lead out of the range. -/
def overflow : Sign → IntFault
  | minus => .tooSmall
  | bare | plus => .tooLarge

/-- How far the digits behind a sign may go. -/
def reach (r : IntRange) : Sign → Int
  | minus => -r.least
  | bare | plus => r.greatest

/-- How digits behind a sign are read. -/
def readOn (r : IntRange) : Sign → Int → List Char → Except IntFault Int
  | minus => readDown r
  | bare | plus => readUp r

end Sign

/-- A numeral and its integer. -/
def IsNumeral (cs : List Char) (n : Int) : Prop :=
  ∃ (sign : Sign) (ds : List Char), cs = sign.text ++ ds ∧ ds ≠ [] ∧
    (∀ d ∈ ds, d.isDigit = true) ∧ n = sign.apply (Nat.ofDigitChars 10 ds 0)

/-- The first fault of a text that is read as an integer of a range. -/
inductive IsFault (r : IntRange) : List Char → IntFault → Prop where
  /-- There is nothing. -/
  | empty : IsFault r [] .empty
  /-- There is a sign and nothing else. -/
  | signOnly {sign : Sign} (hsign : sign ≠ .bare) : IsFault r sign.text .invalidDigit
  /-- Digits that stay in the range are followed by something else. -/
  | notADigit {sign : Sign} {ds rest : List Char} {c : Char}
      (hds : ∀ d ∈ ds, d.isDigit = true)
      (hfits : r.has (sign.apply (Nat.ofDigitChars 10 ds 0)) = true)
      (hc : c.isDigit = false) (hsign : sign = .bare → ds = [] → c ≠ '+' ∧ c ≠ '-') :
      IsFault r (sign.text ++ (ds ++ c :: rest)) .invalidDigit
  /-- Digits lead out of the range. -/
  | overflow {sign : Sign} {ds rest : List Char} (hds : ∀ d ∈ ds, d.isDigit = true)
      (houtside : r.has (sign.apply (Nat.ofDigitChars 10 ds 0)) = false) :
      IsFault r (sign.text ++ (ds ++ rest)) sign.overflow

/-- A range that a minus sign can lead into, and no sign leads out of. -/
def IntRange.IsSigned (r : IntRange) : Prop := r.least < 0 ∧ 0 ≤ r.greatest

variable {r : IntRange} {sign : Sign} {cs ds rest : List Char}

/-! ## One digit after the other -/

theorem has_apply_iff (hr : r.IsSigned) {n : Nat} :
    r.has (sign.apply n) = true ↔ (n : Int) ≤ sign.reach r := by
  obtain ⟨hleast, hgreatest⟩ := hr
  rw [IntRange.has, Bool.and_eq_true, decide_eq_true_iff, decide_eq_true_iff]
  cases sign <;> simp only [Sign.apply, Sign.reach] <;> omega

theorem has_zero (hr : r.IsSigned) : r.has (sign.apply 0) = true := by
  obtain ⟨hleast, hgreatest⟩ := hr
  rw [has_apply_iff ⟨hleast, hgreatest⟩]
  cases sign <;> simp only [Sign.reach] <;> omega

theorem readOn_nil (n : Int) : sign.readOn r n [] = .ok n := by
  cases sign <;> rfl

theorem readOn_of_not_isDigit {c : Char} (hc : c.isDigit = false) (n : Int) :
    sign.readOn r n (c :: rest) = .error .invalidDigit := by
  have hvalue : digitValue? c = none := if_neg (by rw [hc]; exact Bool.false_ne_true)
  cases sign <;> simp only [Sign.readOn, readUp, readDown, hvalue]

/-- A digit is read if the integer stays in the range with it. -/
theorem readOn_cons (hr : r.IsSigned) {d : Char} (hd : d.isDigit = true) (acc : Nat) :
    sign.readOn r (sign.apply acc) (d :: rest) =
      if r.has (sign.apply (10 * acc + (d.toNat - '0'.toNat))) = true then
        sign.readOn r (sign.apply (10 * acc + (d.toNat - '0'.toNat))) rest
      else .error sign.overflow := by
  generalize hv : d.toNat - '0'.toNat = v
  have hvalue : digitValue? d = some v := hv ▸ digitValue?_of_isDigit hd
  have hfits : r.has (sign.apply (10 * acc + v)) = true ↔ ((10 * acc + v : Nat) : Int) ≤ _ :=
    has_apply_iff hr
  cases sign with
  | minus =>
      have hnext : -(acc : Int) * 10 - v = -((10 * acc + v : Nat) : Int) := by omega
      simp only [Sign.readOn, Sign.apply, Sign.overflow, Sign.reach, readDown, hvalue, hnext]
        at hfits ⊢
      exact if_congr (by rw [hfits]; omega) rfl rfl
  | _ =>
      have hnext : (acc : Int) * 10 + v = (10 * acc + v : Nat) := by omega
      simp only [Sign.readOn, Sign.apply, Sign.overflow, Sign.reach, readUp, hvalue, hnext]
        at hfits ⊢
      exact if_congr hfits.symm rfl rfl

/-- With more digits the integer is no nearer to the range. -/
theorem has_of_has_ofDigitChars (hr : r.IsSigned) {acc : Nat}
    (h : r.has (sign.apply (Nat.ofDigitChars 10 ds acc)) = true) :
    r.has (sign.apply acc) = true := by
  have hle := le_ofDigitChars ds acc
  rw [has_apply_iff hr] at h ⊢
  omega

/-- Digits that stay in the range are passed over. -/
theorem readOn_digits (hr : r.IsSigned) {acc : Nat} (hds : ∀ d ∈ ds, d.isDigit = true)
    (hfits : r.has (sign.apply (Nat.ofDigitChars 10 ds acc)) = true) :
    sign.readOn r (sign.apply acc) (ds ++ rest) =
      sign.readOn r (sign.apply (Nat.ofDigitChars 10 ds acc)) rest := by
  induction ds generalizing acc with
  | nil => rfl
  | cons d ds ih =>
      rw [Nat.ofDigitChars_cons] at hfits ⊢
      rw [List.cons_append, readOn_cons hr (hds d List.mem_cons_self),
        if_pos (has_of_has_ofDigitChars hr hfits)]
      exact ih (fun c hc => hds c (List.mem_cons_of_mem d hc)) hfits

/-- Digits that lead out of the range are a fault, whatever follows them. -/
theorem readOn_overflow (hr : r.IsSigned) {acc : Nat} (hds : ∀ d ∈ ds, d.isDigit = true)
    (hacc : r.has (sign.apply acc) = true)
    (houtside : r.has (sign.apply (Nat.ofDigitChars 10 ds acc)) = false) :
    sign.readOn r (sign.apply acc) (ds ++ rest) = .error sign.overflow := by
  induction ds generalizing acc with
  | nil => exact absurd (hacc.symm.trans houtside) (by decide)
  | cons d ds ih =>
      rw [Nat.ofDigitChars_cons] at houtside
      rw [List.cons_append, readOn_cons hr (hds d List.mem_cons_self)]
      split
      · next hnext => exact ih (fun c hc => hds c (List.mem_cons_of_mem d hc)) hnext houtside
      · rfl

/-! ## Whole texts -/

/-- What is not a sign. -/
def IsBody (sign : Sign) (cs : List Char) : Prop :=
  cs ≠ [] ∧ (sign = .bare → ∀ c ∈ cs.head?, c ≠ '+' ∧ c ≠ '-')

/-- The sign of a text decides how its body is read. -/
theorem readInt_sign (hr : r.IsSigned) (hbody : IsBody sign cs) :
    readInt r (sign.text ++ cs) = sign.readOn r 0 cs := by
  obtain ⟨c, cs, rfl⟩ := List.exists_cons_of_ne_nil hbody.1
  cases sign with
  | plus => rfl
  | minus => exact if_pos hr.1
  | bare =>
      obtain ⟨hplus, hminus⟩ := hbody.2 rfl c rfl
      show readInt r (c :: cs) = readUp r 0 (c :: cs)
      rw [readInt]
      · exact List.cons_ne_nil c cs
      · exact fun heq => hplus (List.cons.inj heq).1
      · exact fun heq => hminus (List.cons.inj heq).1
      · exact fun _ heq => hplus (List.cons.inj heq).1
      · exact fun _ heq => hminus (List.cons.inj heq).1

theorem ne_sign_of_isDigit {d : Char} (h : d.isDigit = true) : d ≠ '+' ∧ d ≠ '-' := by
  constructor
  · rintro rfl
    exact absurd h (by decide)
  · rintro rfl
    exact absurd h (by decide)

theorem isBody_digits (hds : ∀ d ∈ ds, d.isDigit = true) (hne : ds ≠ []) :
    IsBody sign (ds ++ rest) := by
  obtain ⟨d, ds, rfl⟩ := List.exists_cons_of_ne_nil hne
  refine ⟨List.cons_ne_nil _ _, fun _ c hc => ?_⟩
  cases hc
  exact ne_sign_of_isDigit (hds d List.mem_cons_self)

theorem readInt_of_isNumeral (hr : r.IsSigned) {n : Int} (h : IsNumeral cs n)
    (hn : r.has n = true) : readInt r cs = .ok n := by
  obtain ⟨sign, ds, rfl, hne, hds, rfl⟩ := h
  have hbody : IsBody sign (ds ++ []) := isBody_digits hds hne
  rw [List.append_nil] at hbody
  rw [readInt_sign hr hbody]
  have hread : sign.readOn r (sign.apply 0) (ds ++ []) = _ := readOn_digits hr hds hn
  rw [List.append_nil, readOn_nil] at hread
  cases sign <;> exact hread

theorem readInt_of_isFault (hr : r.IsSigned) {fault : IntFault} (h : IsFault r cs fault) :
    readInt r cs = .error fault := by
  have hzero (sign : Sign) : sign.apply 0 = 0 := by
    cases sign <;> rfl
  cases h with
  | empty => rfl
  | @signOnly sign hsign =>
      cases sign with
      | bare => exact absurd rfl hsign
      | plus => rfl
      | minus => rfl
  | @notADigit sign ds rest c hds hfits hc hsign =>
      have hbody : IsBody sign (ds ++ c :: rest) := by
        refine ⟨by simp, fun hbare d hd => ?_⟩
        cases ds with
        | nil =>
            cases hd
            exact hsign hbare rfl
        | cons d' ds =>
            cases hd
            exact ne_sign_of_isDigit (hds d List.mem_cons_self)
      rw [readInt_sign hr hbody, ← hzero sign, readOn_digits hr hds hfits,
        readOn_of_not_isDigit hc]
  | @overflow sign ds rest hds houtside =>
      have hne : ds ≠ [] := by
        rintro rfl
        exact absurd ((has_zero hr).symm.trans houtside) (by decide)
      rw [readInt_sign hr (isBody_digits hds hne), ← hzero sign,
        readOn_overflow hr hds (has_zero hr) houtside]

/-- Every text is a sign, or a sign and a body. -/
theorem exists_sign (cs : List Char) :
    ∃ (sign : Sign) (body : List Char), cs = sign.text ++ body ∧
      (body = [] ∨ IsBody sign body) := by
  cases cs with
  | nil => exact ⟨.bare, [], rfl, Or.inl rfl⟩
  | cons c cs =>
      have hbody (sign : Sign) (hsign : sign ≠ .bare) : cs = [] ∨ IsBody sign cs := by
        by_cases hnil : cs = []
        · exact Or.inl hnil
        · exact Or.inr ⟨hnil, fun hbare => absurd hbare hsign⟩
      by_cases hplus : c = '+'
      · exact ⟨.plus, cs, by rw [hplus]; rfl, hbody .plus (by decide)⟩
      by_cases hminus : c = '-'
      · exact ⟨.minus, cs, by rw [hminus]; rfl, hbody .minus (by decide)⟩
      refine ⟨.bare, c :: cs, rfl, Or.inr ⟨List.cons_ne_nil c cs, fun _ d hd => ?_⟩⟩
      cases hd
      exact ⟨hplus, hminus⟩

/-- A text is the numeral of an integer of the range, or it has a fault. -/
theorem isNumeral_or_isFault (r : IntRange) (cs : List Char) :
    (∃ n, IsNumeral cs n ∧ r.has n = true) ∨ ∃ fault, IsFault r cs fault := by
  obtain ⟨sign, body, rfl, hbody⟩ := exists_sign cs
  rcases hbody with rfl | hbody
  · rw [List.append_nil]
    cases sign with
    | bare => exact Or.inr ⟨_, .empty⟩
    | plus => exact Or.inr ⟨_, .signOnly (fun h : Sign.plus = .bare => nomatch h)⟩
    | minus => exact Or.inr ⟨_, .signOnly (fun h : Sign.minus = .bare => nomatch h)⟩
  · -- the body is cut behind its digits
    have hcut : body.takeWhile Char.isDigit ++ body.dropWhile Char.isDigit = body :=
      List.takeWhile_append_dropWhile
    have hds : ∀ d ∈ body.takeWhile Char.isDigit, d.isDigit = true :=
      fun d hd => List.mem_takeWhile_imp hd
    generalize body.takeWhile Char.isDigit = ds at hcut hds
    cases hrest : body.dropWhile Char.isDigit with
    | nil =>
        rw [hrest, List.append_nil] at hcut
        subst hcut
        cases hhas : r.has (sign.apply (Nat.ofDigitChars 10 ds 0)) with
        | true => exact Or.inl ⟨_, ⟨sign, ds, rfl, hbody.1, hds, rfl⟩, hhas⟩
        | false =>
            have hfault : IsFault r (sign.text ++ (ds ++ [])) _ := .overflow hds hhas
            rw [List.append_nil] at hfault
            exact Or.inr ⟨_, hfault⟩
    | cons c rest =>
        have hc : c.isDigit = false := by
          have hhead := List.head?_dropWhile_not Char.isDigit body
          rw [hrest] at hhead
          exact hhead
        rw [hrest] at hcut
        subst hcut
        cases hhas : r.has (sign.apply (Nat.ofDigitChars 10 ds 0)) with
        | false => exact Or.inr ⟨_, .overflow hds hhas⟩
        | true =>
            refine Or.inr ⟨_, .notADigit hds hhas hc fun hbare hnil => ?_⟩
            subst hnil
            exact hbody.2 hbare c rfl

/-- The numerals of the integers of a range are read, and nothing else. -/
theorem readInt_eq_ok_iff (hr : r.IsSigned) {n : Int} :
    readInt r cs = .ok n ↔ IsNumeral cs n ∧ r.has n = true := by
  constructor
  · intro h
    rcases isNumeral_or_isFault r cs with ⟨m, hm, hhas⟩ | ⟨fault, hfault⟩
    · cases h.symm.trans (readInt_of_isNumeral hr hm hhas)
      exact ⟨hm, hhas⟩
    · cases h.symm.trans (readInt_of_isFault hr hfault)
  · exact fun h => readInt_of_isNumeral hr h.1 h.2

/-- The fault of a text that cannot be read is its first one. -/
theorem readInt_eq_error_iff (hr : r.IsSigned) {fault : IntFault} :
    readInt r cs = .error fault ↔ IsFault r cs fault := by
  constructor
  · intro h
    rcases isNumeral_or_isFault r cs with ⟨m, hm, hhas⟩ | ⟨fault', hfault⟩
    · cases h.symm.trans (readInt_of_isNumeral hr hm hhas)
    · cases h.symm.trans (readInt_of_isFault hr hfault)
      exact hfault
  · exact readInt_of_isFault hr

end IngressTls.Text
