import IngressTls.Proofs.Integer
import IngressTls.Proofs.Joined
import IngressTls.View

set_option autoImplicit false

/-! # What is recorded on a secret is read back

A certificate is stored with a record of what it is for. Three readers depend on the record: the
renewal reads all of it, the view of the controller reads the place, the hosts and the owner, and
the manager asks for the owner alone. They all read what was written, but for the fractions of the
two ends of validity, and for hosts that hold the comma which the record joins hosts with.

Main statements: `Bookkeeping.read_managedSecret`, `Bookkeeping.toRequest_eq_ofHosts` and
`Bookkeeping.round_trip`.
-/

namespace IngressTls

variable {s : Secret} {b : Bookkeeping}

/-! ## Instants -/

namespace Instant

/-- The instant lies in the years that have instants. -/
def IsRepresentable (t : Instant) : Prop := leastSecond ≤ t.seconds ∧ t.seconds ≤ greatestSecond

instance (t : Instant) : Decidable t.IsRepresentable := inferInstanceAs (Decidable (_ ∧ _))

/-- The beginning of the second in which an instant lies. -/
def wholeSecond (t : Instant) : Instant := ⟨t.seconds, 0⟩

theorem ofSeconds?_seconds {t : Instant} (h : t.IsRepresentable) :
    ofSeconds? t.seconds = some t.wholeSecond := by
  rw [ofSeconds?, if_pos (by simpa [IsRepresentable] using h)]
  rfl

end Instant

/-! ## The owner -/

theorem isManagedBy_managedSecret_iff (r : Request) (c : Certificate) (name other : String) :
    (managedSecret r c name).metadata.isManagedBy other = true ↔ other = name := by
  have hlabel : (managedSecret r c name).metadata.label? Wire.managedByLabel = some name := rfl
  rw [Metadata.isManagedBy, hlabel, decide_eq_true_iff, Option.some.injEq, eq_comm]

theorem isManagedBy_managedSecret (r : Request) (c : Certificate) (name : String) :
    (managedSecret r c name).metadata.isManagedBy name = true :=
  (isManagedBy_managedSecret_iff r c name name).2 rfl

/-- The view of a secret and its metadata name the same owner. -/
theorem SecretView.isManagedBy_ofSecret (s : Secret) (name : String) :
    (ofSecret s).isManagedBy name = s.metadata.isManagedBy name :=
  rfl

/-! ## The annotations -/

theorem annotated_managedSecret (r : Request) (c : Certificate) (name : String) :
    (managedSecret r c name).metadata.annotated? Wire.domainsKey = some r.domains.joined ∧
    (managedSecret r c name).metadata.annotated? Wire.notBeforeKey =
      some (toString c.notBefore.seconds) ∧
    (managedSecret r c name).metadata.annotated? Wire.notAfterKey =
      some (toString c.notAfter.seconds) := by
  simp [managedSecret, Metadata.annotated?, Table.ofList, Wire.domainsKey, Wire.notBeforeKey,
    Wire.notAfterKey]

theorem domains_managedSecret (r : Request) (c : Certificate) (name : String) :
    (SecretView.ofSecret (managedSecret r c name)).domains = some (.ofJoined r.domains.joined) := by
  rw [SecretView.ofSecret, (annotated_managedSecret r c name).1]
  rfl

namespace Bookkeeping

/-- The second that is recorded for an instant is read back. -/
theorem readInstant_of_annotated {m : Metadata} {key : String} {t : Instant}
    (h : m.annotated? key = some (toString t.seconds)) (ht : t.IsRepresentable) :
    readInstant m key = .ok t.wholeSecond := by
  have hrange : Text.IntRange.int64.has t.seconds = true := by
    obtain ⟨hleast, hgreatest⟩ := ht
    rw [Instant.leastSecond] at hleast
    rw [Instant.greatestSecond] at hgreatest
    rw [Text.IntRange.has, Bool.and_eq_true, decide_eq_true_iff, decide_eq_true_iff]
    simp only [Text.IntRange.int64]
    omega
  rw [readInstant, h]
  simp only [Text.trimChars_toString, Text.readInt_toString hrange, Instant.ofSeconds?_seconds ht]

/-- The bookkeeping of a secret is about its place, and the hosts that it records. -/
theorem of_read (h : read s = .ok b) :
    b.secret = s.ref ∧
      (s.metadata.annotated? Wire.domainsKey).map DomainSet.ofJoined = some b.domains := by
  rw [read, readFrom] at h
  cases hosts : s.metadata.annotated? Wire.domainsKey with
  | none =>
      rw [hosts] at h
      cases h
  | some text =>
      rw [hosts] at h
      cases hbefore : readInstant s.metadata Wire.notBeforeKey with
      | error fault =>
          rw [hbefore] at h
          cases h
      | ok notBefore =>
          rw [hbefore] at h
          cases hafter : readInstant s.metadata Wire.notAfterKey with
          | error fault =>
              rw [hafter] at h
              cases h
          | ok notAfter =>
              rw [hafter] at h
              cases h
              exact ⟨rfl, rfl⟩

/-- What renewal reads from a secret that was stored for a request. -/
theorem read_managedSecret (r : Request) (c : Certificate) (name : String)
    (hbefore : c.notBefore.IsRepresentable) (hafter : c.notAfter.IsRepresentable) :
    read (managedSecret r c name) =
      .ok ⟨r.target, .ofJoined r.domains.joined, c.notBefore.wholeSecond, c.notAfter.wholeSecond⟩ := by
  obtain ⟨hosts, notBefore, notAfter⟩ := annotated_managedSecret r c name
  rw [read, readFrom, hosts]
  simp only [readInstant_of_annotated notBefore hbefore, readInstant_of_annotated notAfter hafter]
  rfl

/-- Bringing the recorded hosts into canonical form once more changes nothing. -/
theorem toRequest_eq_ofHosts (b : Bookkeeping) :
    b.toRequest = Request.ofHosts b.domains.hosts b.secret := by
  rw [toRequest, Request.ofHosts, DomainSet.ofHosts_hosts]

/-- The hosts of a bookkeeping have been read from a joined text. -/
theorem exists_text_of_read (h : read s = .ok b) :
    ∃ text, s.metadata.annotated? Wire.domainsKey = some text ∧ b.domains = .ofJoined text := by
  obtain ⟨text, htext, hdomains⟩ := Option.map_eq_some_iff.1 (of_read h).2
  exact ⟨text, htext, hdomains.symm⟩

/-- **What is recorded is read back.** A secret that is stored for a request without commas in its
hosts gives every reader the place and the hosts of the request and the seconds of the certificate,
and is the secret of the controller that stored it and of no other. A secret that is stored again
from its own bookkeeping keeps its place and its hosts, whatever text they have been read from. -/
theorem round_trip (controllerName : String) :
    (∀ (r : Request) (c : Certificate), (∀ host ∈ r.domains.hosts, ',' ∉ host.toList) →
      c.notBefore.IsRepresentable → c.notAfter.IsRepresentable →
      (∃ b, read (managedSecret r c controllerName) = .ok b ∧
        b.secret = r.target ∧ b.domains = r.domains ∧
        b.notBefore = c.notBefore.wholeSecond ∧ b.notAfter = c.notAfter.wholeSecond ∧
        b.toRequest = r) ∧
      (SecretView.ofSecret (managedSecret r c controllerName)).ref = r.target ∧
      (SecretView.ofSecret (managedSecret r c controllerName)).domains = some r.domains ∧
      ∀ name,
        ((managedSecret r c controllerName).metadata.isManagedBy name = true ↔
          name = controllerName) ∧
        ((SecretView.ofSecret (managedSecret r c controllerName)).isManagedBy name = true ↔
          name = controllerName)) ∧
    (∀ text, DomainSet.ofJoined (DomainSet.ofJoined text).joined = DomainSet.ofJoined text) ∧
    (∀ (s : Secret) (b : Bookkeeping) (c : Certificate), read s = .ok b →
      c.notBefore.IsRepresentable → c.notAfter.IsRepresentable →
      ∃ again, read (managedSecret b.toRequest c controllerName) = .ok again ∧
        again.secret = b.secret ∧ again.domains = b.domains) := by
  refine ⟨fun r c hcommas hbefore hafter => ?_, DomainSet.ofJoined_joined_ofJoined,
    fun s b c hread hbefore hafter => ?_⟩
  · have hback := DomainSet.ofJoined_joined hcommas
    refine ⟨?_, rfl, ?_, fun name => ?_⟩
    · refine ⟨_, read_managedSecret r c controllerName hbefore hafter, rfl, hback, rfl, rfl, ?_⟩
      rw [toRequest, hback]
    · rw [domains_managedSecret, hback]
    · have howner := isManagedBy_managedSecret_iff r c controllerName name
      exact ⟨howner, by rw [SecretView.isManagedBy_ofSecret, howner]⟩
  · obtain ⟨text, -, hdomains⟩ := exists_text_of_read hread
    refine ⟨_, read_managedSecret b.toRequest c controllerName hbefore hafter, rfl, ?_⟩
    show DomainSet.ofJoined b.domains.joined = b.domains
    rw [hdomains, DomainSet.ofJoined_joined_ofJoined]

/-- A certificate for two hosts in mixed case that is valid from half a second before the epoch
until a leap second. -/
def leapCertificate : Certificate where
  chain := [99]
  privateKey := [107]
  hosts := ["b.example.com", "ä.example.com"]
  notBefore := ⟨-1, 500000000⟩
  notAfter := ⟨1483228799, 1250000000⟩

/-- Its secret is read back, and its hosts stay what they are if it is stored again. -/
theorem round_trip_leapSecond :
    let r := Request.ofHosts [" Ä.example.com", "b.example.com", "B.Example.COM"] ⟨"prod", "web"⟩
    (∀ host ∈ r.domains.hosts, ',' ∉ host.toList) ∧
    leapCertificate.notBefore.IsRepresentable ∧ leapCertificate.notAfter.IsRepresentable ∧
    (∃ b, read (managedSecret r leapCertificate "certpilot") = .ok b ∧
      b.toRequest = r ∧ b.notBefore = ⟨-1, 0⟩ ∧ b.notAfter = ⟨1483228799, 0⟩ ∧
      ∃ again, read (managedSecret b.toRequest leapCertificate "certpilot") = .ok again ∧
        again.domains = b.domains) ∧
    (managedSecret r leapCertificate "certpilot").metadata.isManagedBy "helm" = false := by
  intro r
  have hcommas : ∀ host ∈ r.domains.hosts, ',' ∉ host.toList := by decide +kernel
  have hbefore : leapCertificate.notBefore.IsRepresentable := by decide
  have hafter : leapCertificate.notAfter.IsRepresentable := by decide
  obtain ⟨hread, -, hagain⟩ := round_trip "certpilot"
  obtain ⟨⟨b, hb, -, -, hnotBefore, hnotAfter, hrequest⟩, -, -, howner⟩ :=
    hread r leapCertificate hcommas hbefore hafter
  obtain ⟨again, hagain, -, hdomains⟩ := hagain _ b leapCertificate hb hbefore hafter
  refine ⟨hcommas, hbefore, hafter, ⟨b, hb, hrequest, hnotBefore, hnotAfter, again, hagain,
    hdomains⟩, ?_⟩
  rw [Bool.eq_false_iff]
  intro hhelm
  exact absurd ((howner "helm").1.1 hhelm) (by decide)

end Bookkeeping

end IngressTls
