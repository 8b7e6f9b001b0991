import IngressTls.Certificate
import Mathlib.Data.List.Basic

set_option autoImplicit false

/-! # Texts that are joined and taken apart

The hosts of a certificate are recorded as one text, joined by commas, and the name of a secret
and its namespace are joined to its key. Nothing is lost as long as no part holds the separator, and
what was read from a joined text never does.

Main statements: `DomainSet.ofJoined_joined_iff`, `DomainSet.ofJoined_joined_ofJoined` and
`SecretRef.key_inj`.
-/

namespace IngressTls

namespace Text

/-- A text without the separator is one piece. -/
theorem splitAt_of_not_mem {sep : Char} {cs : List Char} (h : sep ∉ cs) :
    splitAt sep cs = [cs] := by
  induction cs with
  | nil => rfl
  | cons c cs ih =>
      rw [List.mem_cons, not_or] at h
      rw [splitAt, if_neg fun heq => h.1 heq.symm, ih h.2]

/-- The first separator ends the first piece. -/
theorem splitAt_append {sep : Char} {cs : List Char} (h : sep ∉ cs) (rest : List Char) :
    splitAt sep (cs ++ sep :: rest) = cs :: splitAt sep rest := by
  induction cs with
  | nil => rw [List.nil_append, splitAt, if_pos rfl]
  | cons c cs ih =>
      rw [List.mem_cons, not_or] at h
      rw [List.cons_append, splitAt, if_neg fun heq => h.1 heq.symm, ih h.2]

/-- Pieces without the separator are found again. -/
theorem splitAt_intercalate {sep : Char} {pieces : List (List Char)} (hne : pieces ≠ [])
    (h : ∀ p ∈ pieces, sep ∉ p) : splitAt sep ([sep].intercalate pieces) = pieces := by
  induction pieces with
  | nil => exact absurd rfl hne
  | cons p ps ih =>
      have hp := h p List.mem_cons_self
      cases ps with
      | nil =>
          rw [List.intercalate_singleton]
          exact splitAt_of_not_mem hp
      | cons q qs =>
          have hrest := ih (List.cons_ne_nil q qs) fun x hx => h x (List.mem_cons_of_mem p hx)
          rw [List.intercalate_cons_cons, List.append_assoc, List.singleton_append,
            splitAt_append hp, hrest]

/-- No piece holds the separator. -/
theorem not_mem_of_mem_splitAt {sep : Char} {cs p : List Char} (h : p ∈ splitAt sep cs) :
    sep ∉ p := by
  induction cs generalizing p with
  | nil =>
      cases List.mem_singleton.1 h
      exact List.not_mem_nil
  | cons c cs ih =>
      obtain ⟨q, qs, hcs⟩ := List.exists_cons_of_ne_nil (splitAt_ne_nil sep cs)
      rw [hcs] at ih
      rw [splitAt, hcs] at h
      split at h
      · rcases List.mem_cons.1 h with rfl | hp
        · exact List.not_mem_nil
        · exact ih hp
      · next hc =>
        rcases List.mem_cons.1 h with rfl | hp
        · have hq := ih List.mem_cons_self
          rw [List.mem_cons, not_or]
          exact ⟨fun heq => hc heq.symm, hq⟩
        · exact ih (List.mem_cons_of_mem q hp)

/-- The pieces hold nothing that the text does not hold. -/
theorem mem_of_mem_splitAt {sep c : Char} {cs p : List Char} (hp : p ∈ splitAt sep cs)
    (hc : c ∈ p) : c ∈ cs := by
  induction cs generalizing p with
  | nil =>
      cases List.mem_singleton.1 hp
      exact hc
  | cons d cs ih =>
      obtain ⟨q, qs, hcs⟩ := List.exists_cons_of_ne_nil (splitAt_ne_nil sep cs)
      rw [hcs] at ih
      rw [splitAt, hcs] at hp
      split at hp
      · rcases List.mem_cons.1 hp with rfl | hp
        · cases hc
        · exact List.mem_cons_of_mem d (ih hp hc)
      · rcases List.mem_cons.1 hp with rfl | hp
        · rcases List.mem_cons.1 hc with rfl | hc
          · exact List.mem_cons_self
          · exact List.mem_cons_of_mem d (ih List.mem_cons_self hc)
        · exact List.mem_cons_of_mem d (ih (List.mem_cons_of_mem q hp) hc)

theorem mem_of_mem_trimChars {c : Char} {cs : List Char} (h : c ∈ trimChars cs) : c ∈ cs := by
  rw [trimChars, List.mem_reverse] at h
  have hstart := (List.dropWhile_suffix isBlank).subset h
  exact (List.dropWhile_suffix isBlank).subset (List.mem_reverse.1 hstart)

end Text

theorem NameSet.nodup (s : NameSet) : s.toList.Nodup :=
  s.increasing.imp fun hlt => String.ne_of_lt hlt

/-- Sets with the same members are the same. -/
theorem NameSet.ext_mem {s t : NameSet} (h : ∀ x, x ∈ s ↔ x ∈ t) : s = t := by
  -- a list that increases is determined by its members
  have hperm : s.toList.Perm t.toList := (List.perm_ext_iff_of_nodup s.nodup t.nodup).2 h
  have heq : s.toList = t.toList := by
    refine hperm.eq_of_pairwise (fun x y _ _ hxy hyx => ?_) s.increasing t.increasing
    exact absurd (String.lt_trans hxy hyx) (String.lt_irrefl x)
  cases s
  cases t
  cases heq
  rfl

namespace DomainSet

/-- Sets with the same hosts are the same. -/
theorem ext_mem {s t : DomainSet} (h : ∀ x, x ∈ s.hosts ↔ x ∈ t.hosts) : s = t := by
  have hnames : s.names = t.names := NameSet.ext_mem h
  cases s
  cases t
  cases hnames
  rfl

/-- The hosts of a set are its own normal forms. -/
theorem ofHosts_hosts (s : DomainSet) : ofHosts s.hosts = s := by
  refine ext_mem fun x => ?_
  rw [mem_ofHosts]
  constructor
  · rintro ⟨-, host, hhost, rfl⟩
    rw [(s.normal host hhost).1]
    exact hhost
  · intro hx
    exact ⟨(s.normal x hx).2, x, hx, (s.normal x hx).1⟩

/-- What is recorded of hosts without commas is read back. -/
theorem ofJoined_joined {s : DomainSet} (h : ∀ host ∈ s.hosts, ',' ∉ host.toList) :
    ofJoined s.joined = s := by
  rw [ofJoined, joined, String.toList_intercalate]
  by_cases hnone : s.hosts = []
  · refine ext_mem fun x => ?_
    rw [mem_ofHosts, hnone]
    -- the empty text is one piece, and it is no host
    refine iff_of_false ?_ List.not_mem_nil
    rintro ⟨hx, host, hhost, rfl⟩
    cases List.mem_singleton.1 hhost
    exact hx rfl
  · have hpieces : Text.splitAt ',' (",".toList.intercalate (s.hosts.map String.toList)) =
        s.hosts.map String.toList := by
      refine Text.splitAt_intercalate (by simpa using hnone) fun p hp => ?_
      obtain ⟨host, hhost, rfl⟩ := List.mem_map.1 hp
      exact h host hhost
    rw [hpieces, List.map_map]
    have hback : s.hosts.map (String.ofList ∘ String.toList) = s.hosts :=
      (List.map_congr_left fun x _ => String.ofList_toList).trans (List.map_id _)
    rw [hback, ofHosts_hosts]

theorem eq_comma_of_toLower {c : Char} (h : c.toLower = ',') : c = ',' := by
  by_cases hcapital : 'A' ≤ c ∧ c ≤ 'Z'
  · obtain ⟨n, hn, rfl⟩ := capital_eq_ofNat hcapital
    have hall : ∀ n, n < 26 → (Char.ofNat (65 + n)).toLower ≠ ',' := by decide
    exact absurd h (hall n hn)
  · rw [← h, toLower_of_not_capital hcapital]

/-- A normal form holds no new comma. -/
theorem comma_of_normalHost {host : String} (h : ',' ∈ (normalHost host).toList) :
    ',' ∈ host.toList := by
  rw [normalHost, String.toList_ofList] at h
  obtain ⟨c, hc, hlower⟩ := List.mem_map.1 h
  rw [← eq_comma_of_toLower hlower]
  exact Text.mem_of_mem_trimChars hc

/-- No host that is read from a joined text holds a comma. -/
theorem comma_not_mem_ofJoined {text host : String} (h : host ∈ (ofJoined text).hosts) :
    ',' ∉ host.toList := by
  rw [ofJoined, mem_ofHosts] at h
  obtain ⟨-, piece, hpiece, rfl⟩ := h
  obtain ⟨p, hp, rfl⟩ := List.mem_map.1 hpiece
  intro hcomma
  have hmem := comma_of_normalHost hcomma
  rw [String.toList_ofList] at hmem
  exact Text.not_mem_of_mem_splitAt hp hmem

/-- Exactly the sets of hosts without commas are read back. -/
theorem ofJoined_joined_iff {s : DomainSet} :
    ofJoined s.joined = s ↔ ∀ host ∈ s.hosts, ',' ∉ host.toList := by
  refine ⟨fun h host hhost => ?_, ofJoined_joined⟩
  rw [← h] at hhost
  exact comma_not_mem_ofJoined hhost

/-- What has been read from a text is read back when it is recorded again. -/
theorem ofJoined_joined_ofJoined (text : String) :
    ofJoined (ofJoined text).joined = ofJoined text :=
  ofJoined_joined fun _ => comma_not_mem_ofJoined

end DomainSet

namespace SecretRef

/-- The name and the namespace of a secret are without the sign that joins them. -/
def IsPlain (s : SecretRef) : Prop := '@' ∉ s.name.toList ∧ '@' ∉ s.ns.toList

instance (s : SecretRef) : Decidable s.IsPlain := inferInstanceAs (Decidable (_ ∧ _))

/-- The key of such a secret is nobody else's. -/
theorem key_inj {s t : SecretRef} (h : s.IsPlain) (hkey : t.key = s.key) : t = s := by
  have hlist : t.name.toList ++ '@' :: t.ns.toList = s.name.toList ++ '@' :: s.ns.toList := by
    have htoList := congrArg String.toList hkey
    simpa [key] using htoList
  -- the only sign in a key is the one that joins its parts
  obtain ⟨hname, -, hns⟩ := (List.append_cons_inj_of_notMem h.1 h.2).1 hlist.symm
  obtain ⟨ns, name⟩ := s
  obtain ⟨ns', name'⟩ := t
  rw [SecretRef.mk.injEq]
  exact ⟨(String.toList_inj.1 hns).symm, (String.toList_inj.1 hname).symm⟩

end SecretRef

end IngressTls
