import IngressTls.Proofs.Bookkeeping
import IngressTls.Proofs.Numeral
import IngressTls.Proofs.Quoted
import IngressTls.Proofs.Trimming

set_option autoImplicit false

/-! # Faulty records

Annotations can be edited by anybody, so that a secret may record anything. Its bookkeeping is read
exactly if the hosts are recorded, whatever they are, and both ends of validity are numerals of
seconds in the years that have instants, with or without white space around them.

Otherwise the first fault is told, together with the place of the secret: the hosts come before the
start of validity, and the start before the end. What is told names the annotation, shows the text
that it holds, if it holds one, and says what is wrong with it.

Main statements: `BookkeepingFault.tells_iff` and `Bookkeeping.reads_exactly`.
-/

namespace IngressTls

open IngressTls.Text

theorem error_ne_ok {ε α : Type} (e : ε) (a : α) : (.error e : Except ε α) ≠ .ok a := by
  intro h
  cases h

/-- What a text holds between the white space at its ends. -/
def IsTrimmed (raw : String) (mid : List Char) : Prop :=
  IsBare mid ∧ ∃ lead trail, raw.toList = lead ++ (mid ++ trail) ∧
    (∀ c ∈ lead, isBlank c = true) ∧ ∀ c ∈ trail, isBlank c = true

theorem isTrimmed_iff {raw : String} {mid : List Char} :
    IsTrimmed raw mid ↔ trimChars raw.toList = mid :=
  trimChars_eq_iff.symm

/-- A text is its parts, joined by commas. -/
structure IsJoined (text : String) (parts : List String) : Prop where
  /-- There is a part, if only the empty text. -/
  ne_nil : parts ≠ []
  /-- No part holds a comma. -/
  commas : ∀ p ∈ parts, ',' ∉ p.toList
  /-- Joined they are the text. -/
  joined : ",".intercalate parts = text

theorem isJoined_iff {text : String} {parts : List String} :
    IsJoined text parts ↔ parts = (splitAt ',' text.toList).map String.ofList := by
  have hback (parts : List String) : (parts.map String.toList).map String.ofList = parts := by
    rw [List.map_map]
    exact (List.map_congr_left fun x _ => String.ofList_toList).trans (List.map_id _)
  constructor
  · rintro ⟨hne, hcommas, rfl⟩
    have hpieces : splitAt ',' (",".intercalate parts).toList = parts.map String.toList := by
      rw [String.toList_intercalate]
      refine splitAt_intercalate (by simpa using hne) fun p hp => ?_
      obtain ⟨part, hpart, rfl⟩ := List.mem_map.1 hp
      exact hcommas part hpart
    rw [hpieces, hback]
  · rintro rfl
    refine ⟨by simpa using splitAt_ne_nil ',' text.toList, fun p hp => ?_, ?_⟩
    · obtain ⟨piece, hpiece, rfl⟩ := List.mem_map.1 hp
      rw [String.toList_ofList]
      exact not_mem_of_mem_splitAt hpiece
    · rw [← String.toList_inj, String.toList_intercalate, List.map_map]
      have hlist : String.toList ∘ String.ofList = id := funext fun _ => String.toList_ofList
      rw [hlist, List.map_id]
      exact intercalate_splitAt ',' text.toList

/-- The hosts of a joined text are its parts in canonical form. -/
theorem DomainSet.ofJoined_of_isJoined {text : String} {parts : List String}
    (h : IsJoined text parts) : ofJoined text = ofHosts parts := by
  rw [ofJoined, isJoined_iff.1 h]

/-! ## What is told of a fault -/

/-- What is wrong with a text that should be an integer, in words. -/
def reasons : List (IntFault × String) :=
  [(.empty, "cannot parse integer from empty string"),
    (.invalidDigit, "invalid digit found in string"),
    (.tooLarge, "number too large to fit in target type"),
    (.tooSmall, "number too small to fit in target type")]

theorem mem_reasons_iff {fault : IntFault} {why : String} :
    (fault, why) ∈ reasons ↔ why = fault.message := by
  cases fault <;> simp [reasons, IntFault.message]

namespace BookkeepingFault

/-- What is told of a fault. -/
inductive Tells : BookkeepingFault → String → Prop where
  /-- Which annotation is missing. -/
  | missing {key : String} : Tells (.missing key) ("missing " ++ key)
  /-- Which annotation is no timestamp, what it holds, and why that is none. -/
  | notATimestamp {key raw shown why : String} {fault : IntFault} (hshown : IsQuoted raw shown)
      (hwhy : (fault, why) ∈ reasons) :
      Tells (.notATimestamp key raw fault)
        (key ++ "=" ++ shown ++ " is not a unix timestamp: " ++ why)
  /-- Which annotation is out of range, and what it holds. -/
  | outOfRange {key raw shown : String} (hshown : IsQuoted raw shown) :
      Tells (.outOfRange key raw) (key ++ "=" ++ shown ++ " is out of range")

/-- A fault is told in one way. -/
theorem tells_iff {fault : BookkeepingFault} {text : String} :
    Tells fault text ↔ text = fault.message := by
  constructor
  · intro h
    cases h with
    | missing => rfl
    | notATimestamp hshown hwhy =>
        rw [isQuoted_iff.1 hshown, mem_reasons_iff.1 hwhy]
        rfl
    | outOfRange hshown =>
        rw [isQuoted_iff.1 hshown]
        rfl
  · rintro rfl
    cases fault with
    | missing key => exact .missing
    | notATimestamp key raw fault => exact .notATimestamp (isQuoted_iff.2 rfl) (mem_reasons_iff.2 rfl)
    | outOfRange key raw => exact .outOfRange (isQuoted_iff.2 rfl)

end BookkeepingFault

namespace Bookkeeping

variable {m : Metadata} {key : String} {t : Instant} {fault : BookkeepingFault}

/-! ## One annotation -/

/-- The annotation under a key records the second of an instant. -/
def Records (m : Metadata) (key : String) (t : Instant) : Prop :=
  ∃ raw mid seconds, m.annotated? key = some raw ∧ IsTrimmed raw mid ∧ IsNumeral mid seconds ∧
    -8334601228800 ≤ seconds ∧ seconds ≤ 8210266876799 ∧ t = ⟨seconds, 0⟩

/-- What is wrong with an annotation that should record the second of an instant. -/
inductive Spoils (m : Metadata) (key : String) : BookkeepingFault → Prop where
  /-- It is not there. -/
  | missing (hnone : m.annotated? key = none) : Spoils m key (.missing key)
  /-- It is not the numeral of a 64-bit integer. -/
  | notATimestamp {raw : String} {mid : List Char} {fault : IntFault}
      (hraw : m.annotated? key = some raw) (hmid : IsTrimmed raw mid)
      (hfault : IsFault .int64 mid fault) : Spoils m key (.notATimestamp key raw fault)
  /-- It is the numeral of a second without an instant. -/
  | outOfRange {raw : String} {mid : List Char} {seconds : Int}
      (hraw : m.annotated? key = some raw) (hmid : IsTrimmed raw mid)
      (hnumeral : IsNumeral mid seconds)
      (hfits : -9223372036854775808 ≤ seconds ∧ seconds ≤ 9223372036854775807)
      (hyears : seconds < -8334601228800 ∨ 8210266876799 < seconds) :
      Spoils m key (.outOfRange key raw)

theorem isSigned_int64 : IntRange.int64.IsSigned := by
  constructor
  · decide
  · decide

theorem has_int64_iff {n : Int} : IntRange.int64.has n = true ↔
    -9223372036854775808 ≤ n ∧ n ≤ 9223372036854775807 := by
  rw [IntRange.has, Bool.and_eq_true, decide_eq_true_iff, decide_eq_true_iff]
  rfl

theorem ofSeconds?_eq_some_iff {n : Int} : Instant.ofSeconds? n = some t ↔
    (-8334601228800 ≤ n ∧ n ≤ 8210266876799) ∧ t = ⟨n, 0⟩ := by
  rw [Instant.ofSeconds?, Option.ite_none_right_eq_some, Bool.and_eq_true, decide_eq_true_iff,
    decide_eq_true_iff, Option.some.injEq, eq_comm (a := t)]
  rfl

theorem ofSeconds?_eq_none_iff {n : Int} : Instant.ofSeconds? n = none ↔
    n < -8334601228800 ∨ 8210266876799 < n := by
  rw [Instant.ofSeconds?, ite_eq_right_iff, Bool.and_eq_true, decide_eq_true_iff,
    decide_eq_true_iff, Instant.leastSecond, Instant.greatestSecond]
  simp only [reduceCtorEq, imp_false]
  omega

/-- An annotation is read as what it records, or as what is wrong with it. -/
theorem readInstant_of_annotated_iff {raw : String} (hraw : m.annotated? key = some raw) :
    (∀ t, readInstant m key = .ok t ↔ ∃ n, readInt .int64 (trimChars raw.toList) = .ok n ∧
      Instant.ofSeconds? n = some t) ∧
    ∀ fault, readInstant m key = .error fault ↔
      (∃ why, readInt .int64 (trimChars raw.toList) = .error why ∧
        fault = .notATimestamp key raw why) ∨
      ∃ n, readInt .int64 (trimChars raw.toList) = .ok n ∧ Instant.ofSeconds? n = none ∧
        fault = .outOfRange key raw := by
  rw [readInstant, hraw]
  cases hread : readInt .int64 (trimChars raw.toList) with
  | error why => simp [hread, eq_comm]
  | ok n => cases hn : Instant.ofSeconds? n <;> simp [hread, hn, eq_comm]

theorem readInstant_eq_ok_iff : readInstant m key = .ok t ↔ Records m key t := by
  cases hraw : m.annotated? key with
  | none =>
      rw [readInstant, hraw]
      refine iff_of_false (error_ne_ok _ _) ?_
      rintro ⟨raw, -, -, h, -⟩
      cases hraw.symm.trans h
  | some raw =>
      rw [(readInstant_of_annotated_iff hraw).1 t]
      constructor
      · rintro ⟨n, hread, hn⟩
        obtain ⟨hnumeral, -⟩ := (readInt_eq_ok_iff isSigned_int64).1 hread
        obtain ⟨⟨hleast, hgreatest⟩, ht⟩ := ofSeconds?_eq_some_iff.1 hn
        exact ⟨raw, _, n, hraw, isTrimmed_iff.2 rfl, hnumeral, hleast, hgreatest, ht⟩
      · rintro ⟨raw', mid, n, hraw', hmid, hnumeral, hleast, hgreatest, ht⟩
        cases hraw.symm.trans hraw'
        cases isTrimmed_iff.1 hmid
        refine ⟨n, (readInt_eq_ok_iff isSigned_int64).2 ⟨hnumeral, has_int64_iff.2 ?_⟩,
          ofSeconds?_eq_some_iff.2 ⟨⟨hleast, hgreatest⟩, ht⟩⟩
        omega

theorem readInstant_eq_error_iff : readInstant m key = .error fault ↔ Spoils m key fault := by
  cases hraw : m.annotated? key with
  | none =>
      have hmissing : readInstant m key = .error (.missing key) := by
        rw [readInstant, hraw]
      rw [hmissing]
      constructor
      · intro h
        cases h
        exact .missing hraw
      · rintro (_ | ⟨hsome, -, -⟩ | ⟨hsome, -, -, -, -⟩)
        · rfl
        · cases hraw.symm.trans hsome
        · cases hraw.symm.trans hsome
  | some raw =>
      rw [(readInstant_of_annotated_iff hraw).2 fault]
      constructor
      · rintro (⟨why, hread, rfl⟩ | ⟨n, hread, hn, rfl⟩)
        · exact .notATimestamp hraw (isTrimmed_iff.2 rfl)
            ((readInt_eq_error_iff isSigned_int64).1 hread)
        · obtain ⟨hnumeral, hfits⟩ := (readInt_eq_ok_iff isSigned_int64).1 hread
          exact .outOfRange hraw (isTrimmed_iff.2 rfl) hnumeral (has_int64_iff.1 hfits)
            (ofSeconds?_eq_none_iff.1 hn)
      · rintro (hnone | ⟨hsome, hmid, hfault⟩ | ⟨hsome, hmid, hnumeral, hfits, hyears⟩)
        · cases hraw.symm.trans hnone
        · cases hraw.symm.trans hsome
          cases isTrimmed_iff.1 hmid
          exact Or.inl ⟨_, (readInt_eq_error_iff isSigned_int64).2 hfault, rfl⟩
        · cases hraw.symm.trans hsome
          cases isTrimmed_iff.1 hmid
          exact Or.inr ⟨_, (readInt_eq_ok_iff isSigned_int64).2 ⟨hnumeral, has_int64_iff.2 hfits⟩,
            ofSeconds?_eq_none_iff.2 hyears, rfl⟩

/-! ## All annotations -/

/-- The first fault of the annotations of a secret. -/
inductive FirstFault (m : Metadata) : BookkeepingFault → Prop where
  /-- No hosts are recorded. -/
  | domains (hnone : m.annotated? Wire.domainsKey = none) : FirstFault m (.missing Wire.domainsKey)
  /-- The start of validity is not recorded as it should be. -/
  | notBefore {text : String} {fault : BookkeepingFault}
      (hdomains : m.annotated? Wire.domainsKey = some text)
      (hfault : Spoils m Wire.notBeforeKey fault) : FirstFault m fault
  /-- The start of validity is recorded, but not the end. -/
  | notAfter {text : String} {t : Instant} {fault : BookkeepingFault}
      (hdomains : m.annotated? Wire.domainsKey = some text)
      (hbefore : Records m Wire.notBeforeKey t)
      (hfault : Spoils m Wire.notAfterKey fault) : FirstFault m fault

/-- What the annotations of a secret say. -/
structure IsRecorded (m : Metadata) (b : Bookkeeping) : Prop where
  /-- The hosts are the parts of the text that records them. -/
  domains : ∃ text parts, m.annotated? Wire.domainsKey = some text ∧ IsJoined text parts ∧
    b.domains = .ofHosts parts
  /-- The start of validity. -/
  notBefore : Records m Wire.notBeforeKey b.notBefore
  /-- The end of validity. -/
  notAfter : Records m Wire.notAfterKey b.notAfter
  /-- The namespace of the secret, if it has one. -/
  ns : b.secret.ns = m.ns.getD ""
  /-- The name of the secret, or what it is made from. -/
  name : b.secret.name = (m.name.or m.generateName).getD ""

theorem readFrom_eq {text : String} (h : m.annotated? Wire.domainsKey = some text) :
    readFrom m = (readInstant m Wire.notBeforeKey).bind fun notBefore =>
      (readInstant m Wire.notAfterKey).map fun notAfter =>
        ⟨⟨m.nsOrEmpty, m.displayName⟩, .ofJoined text, notBefore, notAfter⟩ := by
  rw [readFrom, h]
  cases readInstant m Wire.notBeforeKey with
  | error fault => rfl
  | ok notBefore =>
      cases readInstant m Wire.notAfterKey with
      | error fault => rfl
      | ok notAfter => rfl

theorem isRecorded_iff {text : String} (h : m.annotated? Wire.domainsKey = some text)
    {b : Bookkeeping} : IsRecorded m b ↔ ∃ notBefore notAfter,
      Records m Wire.notBeforeKey notBefore ∧ Records m Wire.notAfterKey notAfter ∧
        b = ⟨⟨m.nsOrEmpty, m.displayName⟩, .ofJoined text, notBefore, notAfter⟩ := by
  constructor
  · rintro ⟨⟨text', parts, hdomains, hjoined, hparts⟩, hbefore, hafter, hns, hname⟩
    cases h.symm.trans hdomains
    refine ⟨b.notBefore, b.notAfter, hbefore, hafter, ?_⟩
    obtain ⟨⟨ns, name⟩, domains, notBefore, notAfter⟩ := b
    cases hns
    cases hname
    cases hparts
    rw [DomainSet.ofJoined_of_isJoined hjoined]
    rfl
  · rintro ⟨notBefore, notAfter, hbefore, hafter, rfl⟩
    have hjoined := isJoined_iff.2 (rfl : _ = (splitAt ',' text.toList).map String.ofList)
    exact ⟨⟨text, _, h, hjoined, DomainSet.ofJoined_of_isJoined hjoined⟩, hbefore, hafter, rfl, rfl⟩

theorem readFrom_eq_ok_iff {b : Bookkeeping} : readFrom m = .ok b ↔ IsRecorded m b := by
  cases h : m.annotated? Wire.domainsKey with
  | none =>
      rw [readFrom, h]
      refine iff_of_false (error_ne_ok _ _) fun hrecorded => ?_
      obtain ⟨text, -, hdomains, -⟩ := hrecorded.domains
      cases h.symm.trans hdomains
  | some text =>
      simp only [isRecorded_iff h, readFrom_eq h, ← readInstant_eq_ok_iff]
      cases readInstant m Wire.notBeforeKey with
      | error fault => simp [Except.bind]
      | ok notBefore =>
          cases readInstant m Wire.notAfterKey with
          | error fault => simp [Except.bind, Except.map]
          | ok notAfter => simp [Except.bind, Except.map, eq_comm]

theorem readFrom_eq_error_iff : readFrom m = .error fault ↔ FirstFault m fault := by
  cases h : m.annotated? Wire.domainsKey with
  | none =>
      have hmissing : readFrom m = .error (.missing Wire.domainsKey) := by
        rw [readFrom, h]
      rw [hmissing]
      constructor
      · intro heq
        cases heq
        exact .domains h
      · rintro (- | ⟨hdomains, -⟩ | ⟨hdomains, -, -⟩)
        · rfl
        · cases h.symm.trans hdomains
        · cases h.symm.trans hdomains
  | some text =>
      have hfirst : FirstFault m fault ↔ readInstant m Wire.notBeforeKey = .error fault ∨
          ∃ t, readInstant m Wire.notBeforeKey = .ok t ∧
            readInstant m Wire.notAfterKey = .error fault := by
        simp only [readInstant_eq_error_iff, readInstant_eq_ok_iff]
        constructor
        · rintro (hnone | ⟨-, hfault⟩ | ⟨-, hbefore, hfault⟩)
          · cases h.symm.trans hnone
          · exact Or.inl hfault
          · exact Or.inr ⟨_, hbefore, hfault⟩
        · rintro (hfault | ⟨t, hbefore, hfault⟩)
          · exact .notBefore h hfault
          · exact .notAfter h hbefore hfault
      rw [hfirst, readFrom_eq h]
      cases readInstant m Wire.notBeforeKey with
      | error why => simp [Except.bind]
      | ok notBefore =>
          cases readInstant m Wire.notAfterKey with
          | error why => simp [Except.bind, Except.map]
          | ok notAfter => simp [Except.bind, Except.map]

/-- The bookkeeping of any secret is read exactly if it is recorded: some text for the hosts, and
for both ends of validity, after trimming, the numeral of a second that has an instant. Then the
hosts are those that the text joins, in canonical form. Otherwise the error names the secret and
tells of the first fault: the hosts are missing; else the start of validity is missing, no numeral
of 64 bits, or without an instant; else the same of the end. It tells which annotation it is, with
the text that it holds and the reason. -/
theorem reads_exactly (s : Secret) :
    (∀ b, read s = .ok b ↔ IsRecorded s.metadata b) ∧
    (∀ e, read s = .error e ↔ ∃ fault text, FirstFault s.metadata fault ∧ fault.Tells text ∧
      e = .invalidSecret
        ⟨s.metadata.ns.getD "", (s.metadata.name.or s.metadata.generateName).getD ""⟩ text) ∧
    ((∃ b, IsRecorded s.metadata b) ↔ ∀ fault, ¬ FirstFault s.metadata fault) := by
  simp only [← readFrom_eq_ok_iff, ← readFrom_eq_error_iff, read]
  cases readFrom s.metadata with
  | error fault =>
      refine ⟨fun b => iff_of_false (error_ne_ok _ _) (error_ne_ok _ _), fun e => ?_, ?_⟩
      · constructor
        · intro h
          cases h
          exact ⟨fault, _, rfl, BookkeepingFault.tells_iff.2 rfl, rfl⟩
        · rintro ⟨fault', text, h, htells, rfl⟩
          cases h
          rw [BookkeepingFault.tells_iff.1 htells]
          rfl
      · refine iff_of_false ?_ fun hnone => hnone fault rfl
        rintro ⟨b, h⟩
        cases h
  | ok b =>
      refine ⟨fun b' => ?_, fun e => iff_of_false (error_ne_ok _ _).symm ?_,
        iff_of_true ⟨b, rfl⟩ fun fault => (error_ne_ok fault b).symm⟩
      · rw [Except.mapError, Except.ok.injEq, Except.ok.injEq]
      · rintro ⟨fault, text, h, -, -⟩
        cases h

/-- Both ends are faulty, and the start counts; its numeral leaves the range before the letter. -/
example : read { (default : Secret) with
    metadata := { Metadata.empty with
      generateName := some "web-"
      annotations := some (Table.ofList
        [(Wire.domainsKey, ""), (Wire.notBeforeKey, " +92233720368547758080x")]) } } =
    .error (.invalidSecret ⟨"", "web-"⟩
      ("certpilot.dev/certificate-not-before=\" +92233720368547758080x\"" ++
        " is not a unix timestamp: number too large to fit in target type")) := by
  decide +kernel

end Bookkeeping

end IngressTls
