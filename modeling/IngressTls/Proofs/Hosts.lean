import IngressTls.Proofs.ByteOrder
import IngressTls.Proofs.Joined
import IngressTls.Proofs.Trimming
import Mathlib.Data.List.Destutter

set_option autoImplicit false

/-! # Canonical sets of hosts

A host is named in many ways: with white space around it, and in any case. What counts is its normal
form. A collection of hosts stands for the set of their normal forms, less the empty one, and its
canonical form is the list of that set in the order of bytes. It is found by sorting the normal
forms and dropping every one that equals its neighbour.

The order, the case, the padding and the repetitions of the hosts are therefore lost, and nothing
else is.

Main statement: `DomainSet.canonical_form`.
-/

namespace IngressTls

open IngressTls.Text (isBlank trimChars utf8Bytes utf8Bytes_lt_iff IsBare trimChars_eq_iff)

/-! ## Normal forms -/

/-- The second text is the first one without the white space at its ends and in ASCII lower
case. -/
def IsNormalForm (host name : String) : Prop :=
  ∃ lead mid trail, host.toList = lead ++ (mid ++ trail) ∧ (∀ c ∈ lead, isBlank c = true) ∧
    (∀ c ∈ trail, isBlank c = true) ∧ IsBare mid ∧ name.toList = mid.map Char.toLower

theorem normalHost_eq_iff {host name : String} :
    normalHost host = name ↔ IsNormalForm host name := by
  have hlist : normalHost host = name ↔
      name.toList = (trimChars host.toList).map Char.toLower := by
    rw [normalHost, ← String.toList_inj, String.toList_ofList, eq_comm]
  rw [hlist]
  constructor
  · intro hname
    obtain ⟨hmid, lead, trail, hhost, hlead, htrail⟩ :=
      trimChars_eq_iff.1 (rfl : trimChars host.toList = _)
    exact ⟨lead, _, trail, hhost, hlead, htrail, hmid, hname⟩
  · rintro ⟨lead, mid, trail, hhost, hlead, htrail, hmid, hname⟩
    rw [trimChars_eq_iff.2 ⟨hmid, lead, trail, hhost, hlead, htrail⟩]
    exact hname

/-- What a collection of hosts names: their normal forms that are not empty. -/
def named (hosts : List String) : Set String :=
  {name | name ≠ "" ∧ ∃ host ∈ hosts, IsNormalForm host name}

namespace DomainSet

theorem mem_hosts_iff {hosts : List String} {name : String} :
    name ∈ (ofHosts hosts).hosts ↔ name ∈ named hosts := by
  show _ ↔ name ≠ "" ∧ ∃ host ∈ hosts, IsNormalForm host name
  simp only [mem_ofHosts, normalHost_eq_iff]

/-- The canonical form is determined by what is named, and determines it. -/
theorem ofHosts_eq_iff {hosts hosts' : List String} :
    ofHosts hosts = ofHosts hosts' ↔ named hosts = named hosts' := by
  constructor
  · intro h
    ext name
    rw [← mem_hosts_iff, h, mem_hosts_iff]
  · intro h
    refine ext_mem fun name => ?_
    rw [mem_hosts_iff, h, mem_hosts_iff]

/-! ## Sorting -/

/-- The members of a list in the order of their bytes, without those that equal the one before. -/
def sortedOnce (names : List String) : List String :=
  (names.mergeSort fun s t => !decide (utf8Bytes t < utf8Bytes s)).destutter (· ≠ ·)

theorem sorted_mergeSort (names : List String) :
    (names.mergeSort fun s t => !decide (utf8Bytes t < utf8Bytes s)).Pairwise (· ≤ ·) := by
  have hle (s t : String) : (!decide (utf8Bytes t < utf8Bytes s)) = true ↔ s ≤ t := by
    rw [Bool.not_eq_true', decide_eq_false_iff_not, utf8Bytes_lt_iff, String.not_lt]
  refine (List.pairwise_mergeSort ?_ ?_ names).imp fun h => (hle _ _).1 h
  · intro r s t hrs hst
    rw [hle] at *
    exact String.le_trans hrs hst
  · intro s t
    rw [Bool.or_eq_true, hle, hle]
    exact String.le_total s t

/-- Equal members of a sorted list stand together, so none is left twice. -/
theorem sortedOnce_eq_dedup (names : List String) : sortedOnce names =
    (names.mergeSort fun s t => !decide (utf8Bytes t < utf8Bytes s)).dedup :=
  (sorted_mergeSort names).destutter_eq_dedup

theorem mem_sortedOnce {names : List String} {name : String} :
    name ∈ sortedOnce names ↔ name ∈ names := by
  rw [sortedOnce_eq_dedup, List.mem_dedup, List.mem_mergeSort]

theorem increasing_sortedOnce (names : List String) : (sortedOnce names).Pairwise (· < ·) := by
  have hle : (sortedOnce names).Pairwise (· ≤ ·) :=
    (sorted_mergeSort names).sublist (List.destutter_sublist _ _)
  have hne : (sortedOnce names).Pairwise (· ≠ ·) := by
    rw [sortedOnce_eq_dedup]
    exact List.nodup_dedup _
  refine (hle.and hne).imp fun {s t} h => ?_
  by_contra hnot
  exact h.2 (String.le_antisymm h.1 (String.not_lt.1 hnot))

/-- The canonical form is found by sorting. -/
theorem hosts_eq_sortedOnce (hosts : List String) :
    (ofHosts hosts).hosts = sortedOnce (normalHosts hosts) := by
  have hset : (ofHosts hosts).names =
      (⟨sortedOnce (normalHosts hosts), increasing_sortedOnce _⟩ : NameSet) := by
    refine NameSet.ext_mem fun name => ?_
    rw [ofHosts, NameSet.mem_ofList, NameSet.mem_iff, mem_sortedOnce]
  rw [DomainSet.hosts, hset]

/-! ## Canonical forms -/

/-- **Canonical form.** The canonical set of a collection of hosts lists what the collection names,
in strictly increasing order of bytes, which is what sorting the normal forms and dropping equal
neighbours gives. It is its own canonical form, and two collections have the same canonical form
exactly if they name the same hosts. So two requests are equal exactly if they are for the same
secret and name the same hosts. -/
theorem canonical_form (xs ys : List String) :
    (ofHosts xs).hosts.Pairwise (fun s t => utf8Bytes s < utf8Bytes t) ∧
    (∀ name, name ∈ (ofHosts xs).hosts ↔ name ∈ named xs) ∧
    (ofHosts xs).hosts = sortedOnce (normalHosts xs) ∧
    ofHosts (ofHosts xs).hosts = ofHosts xs ∧
    (ofHosts xs = ofHosts ys ↔ named xs = named ys) ∧
    ∀ s t : SecretRef, Request.ofHosts xs s = Request.ofHosts ys t ↔
      s.ns = t.ns ∧ s.name = t.name ∧ named xs = named ys := by
  refine ⟨?_, fun _ => mem_hosts_iff, hosts_eq_sortedOnce xs, ofHosts_hosts _, ofHosts_eq_iff, ?_⟩
  · exact (ofHosts xs).names.increasing.imp fun h => utf8Bytes_lt_iff.2 h
  · intro s t
    obtain ⟨ns, name⟩ := s
    obtain ⟨ns', name'⟩ := t
    rw [Request.ofHosts, Request.ofHosts, Request.mk.injEq, SecretRef.mk.injEq, ofHosts_eq_iff]
    exact ⟨fun h => ⟨h.2.1, h.2.2, h.1⟩, fun h => ⟨h.2.2, h.1, h.2.1⟩⟩

/-- Order, case, padding and repetitions are lost. -/
example : (ofHosts [" B.com", "a.COM", "b.com\t", " ", "A.com"]).hosts = ["a.com", "b.com"] := by
  decide +kernel

end DomainSet

end IngressTls
