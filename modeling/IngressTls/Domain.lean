import IngressTls.NameSet
import IngressTls.Text.Blank
import IngressTls.Text.Split

set_option autoImplicit false

/-! # Domain sets

The hosts a certificate covers, in canonical form: each host without surrounding blank
characters and in ASCII lower case, empty ones dropped, every host once, in increasing
order. Two requests for the same hosts therefore carry equal sets, whatever the case, the
order and the repetitions in which the hosts were named.

Main statements: `mem_ofHosts` and `normalHost_normalHost`.
-/

namespace IngressTls

open IngressTls.Text (isBlank trimStartChars trimChars)

/-- A host in its normal form. -/
def normalHost (host : String) : String :=
  String.ofList ((trimChars host.toList).map Char.toLower)

/-- The canonical form of a collection of hosts. -/
structure DomainSet where
  /-- The hosts in increasing order. -/
  names : NameSet
  /-- Every host is in normal form and not empty. -/
  normal : ∀ h ∈ names, normalHost h = h ∧ h ≠ ""
  deriving DecidableEq

namespace DomainSet

/-! ## Normal hosts -/

/-- The capital letters stand one after the other. -/
theorem capital_eq_ofNat {c : Char} (h : 'A' ≤ c ∧ c ≤ 'Z') :
    ∃ n, n < 26 ∧ c = Char.ofNat (65 + n) := by
  have hlow := h.1
  have hhigh := h.2
  simp only [Char.le_def, UInt32.le_iff_toNat_le] at hlow hhigh
  have ha : 'A'.val.toNat = 65 := rfl
  have hz : 'Z'.val.toNat = 90 := rfl
  have hc : c.toNat = c.val.toNat := rfl
  refine ⟨c.toNat - 65, by omega, ?_⟩
  have hsum : 65 + (c.toNat - 65) = c.toNat := by omega
  rw [hsum, Char.ofNat_toNat]

/-- Only capital letters have another lower case. -/
theorem toLower_of_not_capital {c : Char} (h : ¬ ('A' ≤ c ∧ c ≤ 'Z')) : c.toLower = c :=
  dif_neg h

theorem isBlank_toLower (c : Char) : isBlank c.toLower = isBlank c := by
  by_cases h : 'A' ≤ c ∧ c ≤ 'Z'
  · obtain ⟨n, hn, rfl⟩ := capital_eq_ofNat h
    have hall : ∀ n, n < 26 →
        isBlank (Char.ofNat (65 + n)).toLower = isBlank (Char.ofNat (65 + n)) := by
      decide
    exact hall n hn
  · rw [toLower_of_not_capital h]

theorem trimChars_map_toLower (cs : List Char) :
    trimChars (cs.map Char.toLower) = (trimChars cs).map Char.toLower := by
  have hb : isBlank ∘ Char.toLower = isBlank := funext isBlank_toLower
  simp only [trimChars, trimStartChars, List.dropWhile_map, hb, ← List.map_reverse]

theorem toLower_toLower (c : Char) : c.toLower.toLower = c.toLower := by
  by_cases h : 'A' ≤ c ∧ c ≤ 'Z'
  · obtain ⟨n, hn, rfl⟩ := capital_eq_ofNat h
    have hall : ∀ n, n < 26 →
        (Char.ofNat (65 + n)).toLower.toLower = (Char.ofNat (65 + n)).toLower := by
      decide
    exact hall n hn
  · rw [toLower_of_not_capital h, toLower_of_not_capital h]

/-- A normal form is its own normal form. -/
theorem normalHost_normalHost (host : String) :
    normalHost (normalHost host) = normalHost host := by
  simp only [normalHost, String.toList_ofList, trimChars_map_toLower,
    Text.trimChars_trimChars, List.map_map]
  congr 1
  exact List.map_congr_left fun c _ => toLower_toLower c

/-! ## Canonical sets -/

/-- The normal forms of the hosts that are not empty. -/
def normalHosts (hosts : List String) : List String :=
  (hosts.map normalHost).filter (· ≠ "")

/-- The canonical set of a collection of hosts. -/
def ofHosts (hosts : List String) : DomainSet :=
  ⟨NameSet.ofList (normalHosts hosts), by
    intro h hh
    simp only [NameSet.mem_ofList, normalHosts, List.mem_filter, List.mem_map,
      decide_eq_true_eq] at hh
    obtain ⟨⟨host, _, rfl⟩, hne⟩ := hh
    exact ⟨normalHost_normalHost host, hne⟩⟩

/-- The hosts of the set, in increasing order. -/
def hosts (s : DomainSet) : List String := s.names.toList

/-- The number of hosts. -/
def size (s : DomainSet) : Nat := s.hosts.length

/-- Whether the set has no hosts. -/
def isEmpty (s : DomainSet) : Bool := s.hosts.isEmpty

/-- The set without hosts. -/
def empty : DomainSet := ofHosts []

instance : Inhabited DomainSet := ⟨empty⟩

/-- The hosts joined by commas, as they are recorded on a secret. -/
def joined (s : DomainSet) : String := ",".intercalate s.hosts

/-- The canonical set of a comma-joined list of hosts. -/
def ofJoined (text : String) : DomainSet :=
  ofHosts ((Text.splitAt ',' text.toList).map String.ofList)

theorem mem_ofHosts {hosts : List String} {h : String} :
    h ∈ (ofHosts hosts).hosts ↔ h ≠ "" ∧ ∃ host ∈ hosts, normalHost host = h := by
  rw [DomainSet.hosts, ← NameSet.mem_iff, ofHosts, NameSet.mem_ofList]
  simp only [normalHosts, List.mem_filter, List.mem_map, decide_eq_true_eq]
  exact and_comm

end DomainSet

end IngressTls
