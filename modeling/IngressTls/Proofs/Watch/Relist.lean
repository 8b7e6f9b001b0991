import IngressTls.Proofs.Cluster.Asked
import IngressTls.Proofs.Cluster.GivenUp
import IngressTls.Proofs.Watch.Replay

set_option autoImplicit false

/-! # A listing that brings nothing new

A watch that has lost its stream lists its kind again. Every object of the listing is compared with
the one that the store holds under its key, and every object that the listing does not name is
reported as deleted. If the listing names exactly what the store holds, in any order, then the store
stays what it is, and every object is reported as a new version of itself. A controller takes such a
change for what it is: the version is the one that was known, and nobody is called.

A store holds every object under its own key, whatever the watch has been through (`Filed.run?`);
otherwise an object could be compared with another one.

Main statements: `run?_relist` and `relist_unchanged`.
-/

namespace IngressTls

variable {α : Type}

namespace Snapshot

/-- Every object stands under its own key, and it has a name. -/
def Filed (metadata : α → Metadata) (s : Snapshot α) : Prop :=
  ∀ k o, s.lookup k = some o → (metadata o).key = k ∧ (metadata o).name ≠ none

/-- The snapshot of a list of objects; of two objects with one key the later one counts. -/
def collect (key : α → ObjectKey) (os : List α) : Snapshot α :=
  os.foldl (fun s o => s.insert (key o) o) .empty

variable {metadata : α → Metadata} {key : α → ObjectKey} {s t : Snapshot α} {os : List α}

theorem Filed.keyed (h : s.Filed metadata) : s.Keyed fun o => (metadata o).key :=
  fun k o ho => (h k o ho).1

theorem Filed.empty : (Snapshot.empty : Snapshot α).Filed metadata := by
  intro k o h
  cases h

theorem Filed.insert (h : s.Filed metadata) {o : α} (ho : (metadata o).name ≠ none) :
    (s.insert (metadata o).key o).Filed metadata := by
  intro k o' ho'
  rw [lookup_insert] at ho'
  split at ho'
  · next hk =>
      cases ho'
      exact ⟨hk.symm, ho⟩
  · exact h k o' ho'

theorem Filed.erase (h : s.Filed metadata) (k : ObjectKey) : (s.erase k).Filed metadata := by
  intro k' o ho
  rw [lookup_erase] at ho
  split at ho
  · cases ho
  · exact h k' o ho

theorem mem_entries_iff {k : ObjectKey} {o : α} : (k, o) ∈ s.entries ↔ s.lookup k = some o :=
  ⟨lookup_of_mem s.keys_nodup, mem_of_lookup⟩

/-- Snapshots in which the same is looked up hold the same objects. -/
theorem perm_of_lookup (h : ∀ k o, s.lookup k = some o ↔ t.lookup k = some o) :
    s.entries.Perm t.entries := by
  have hs : s.entries.Nodup := s.keys_nodup.of_map
  have ht : t.entries.Nodup := t.keys_nodup.of_map
  rw [List.perm_ext_iff_of_nodup hs ht]
  rintro ⟨k, o⟩
  rw [mem_entries_iff, mem_entries_iff]
  exact h k o

/-- In a keyed snapshot no two objects have one key. -/
theorem Keyed.nodup_objects (h : s.Keyed key) : (s.objects.map key).Nodup := by
  have hkeys : s.objects.map key = s.entries.map Prod.fst := by
    rw [objects, List.map_map]
    refine List.map_congr_left fun e he => ?_
    exact h e.1 e.2 (lookup_of_mem s.keys_nodup he)
  rw [hkeys]
  exact s.keys_nodup

theorem Keyed.lookup_eq_some_iff (h : s.Keyed key) {k : ObjectKey} {o : α} :
    s.lookup k = some o ↔ o ∈ s.objects ∧ key o = k := by
  rw [mem_objects]
  constructor
  · intro ho
    exact ⟨⟨k, ho⟩, h k o ho⟩
  · rintro ⟨⟨k', ho⟩, rfl⟩
    rw [h k' o ho]
    exact ho

theorem lookup_foldl_insert {k : ObjectKey} {o : α} (hnodup : (os.map key).Nodup) :
    (os.foldl (fun s o => s.insert (key o) o) s).lookup k = some o ↔
      (o ∈ os ∧ key o = k) ∨ (k ∉ os.map key ∧ s.lookup k = some o) := by
  induction os generalizing s with
  | nil => simp
  | cons o' os ih =>
      rw [List.map_cons, List.nodup_cons] at hnodup
      rw [List.foldl_cons, ih hnodup.2, lookup_insert, List.map_cons]
      by_cases hk : k = key o'
      · -- the key of this object is not among the others
        subst hk
        have hother : ∀ x ∈ os, key x ≠ key o' := fun x hx heq =>
          hnodup.1 (List.mem_map.2 ⟨x, hx, heq⟩)
        rw [if_pos rfl, Option.some.injEq]
        constructor
        · rintro (⟨ho, heq⟩ | ⟨-, rfl⟩)
          · exact absurd heq (hother o ho)
          · exact Or.inl ⟨List.mem_cons_self, rfl⟩
        · rintro (⟨ho, heq⟩ | ⟨hnot, -⟩)
          · rcases List.mem_cons.1 ho with rfl | ho
            · exact Or.inr ⟨hnodup.1, rfl⟩
            · exact absurd heq (hother o ho)
          · exact absurd List.mem_cons_self hnot
      · rw [if_neg hk]
        constructor
        · rintro (⟨ho, heq⟩ | ⟨hnot, hs⟩)
          · exact Or.inl ⟨List.mem_cons_of_mem o' ho, heq⟩
          · exact Or.inr ⟨fun h => (List.mem_cons.1 h).elim hk hnot, hs⟩
        · rintro (⟨ho, heq⟩ | ⟨hnot, hs⟩)
          · rcases List.mem_cons.1 ho with rfl | ho
            · exact absurd heq.symm hk
            · exact Or.inl ⟨ho, heq⟩
          · exact Or.inr ⟨fun h => hnot (List.mem_cons_of_mem _ h), hs⟩

/-- The objects of a keyed snapshot, collected in any order, make the snapshot again. -/
theorem Keyed.collect_perm (h : s.Keyed key) (hos : os.Perm s.objects) :
    (collect key os).entries.Perm s.entries := by
  have hnodup : (os.map key).Nodup := (hos.map key).nodup_iff.2 h.nodup_objects
  refine perm_of_lookup fun k o => ?_
  rw [collect, lookup_foldl_insert hnodup, h.lookup_eq_some_iff, hos.mem_iff]
  exact or_iff_left fun hnone => nomatch hnone.2

end Snapshot

namespace KindWatch

open Snapshot (collect)

variable {metadata : α → Metadata} {key : α → ObjectKey} {w w' : KindWatch α} {os : List α}
  {es : List (WatchEvent α)} {cs : List (Change α)}

/-! ## What every watch keeps -/

/-- The snapshots of a watch hold every object under its own key, with its name. -/
structure Filed (metadata : α → Metadata) (w : KindWatch α) : Prop where
  /-- The objects as they were last seen. -/
  store : w.store.Filed metadata
  /-- The objects of an unfinished listing. -/
  buffer : w.buffer.Filed metadata

theorem Filed.new : (KindWatch.new : KindWatch α).Filed metadata := ⟨.empty, .empty⟩

/-- An event that can be taken leaves every object under its own key. -/
theorem Filed.take? {e : WatchEvent α} (h : w.Filed metadata)
    (htake : w.take? metadata e = some (w', cs)) : w'.Filed metadata := by
  have hnamed : ∀ o, e.object? = some o → (metadata o).name ≠ none := by
    intro o ho hname
    exact Option.some_ne_none _ (htake.symm.trans
      ((take?_eq_none_iff w metadata e).2 ⟨o, ho, hname⟩))
  have hw' : (w.take (fun o => (metadata o).key) e).1 = w' :=
    congrArg Prod.fst (eq_take_of_take? htake)
  rw [← hw']
  cases e with
  | apply o => exact ⟨h.store.insert (hnamed o rfl), h.buffer⟩
  | delete o => exact ⟨h.store.erase _, h.buffer⟩
  | listing => exact ⟨h.store, .empty⟩
  | listed o => exact ⟨h.store, h.buffer.insert (hnamed o rfl)⟩
  | listingDone => exact ⟨h.buffer, .empty⟩

theorem Filed.run? (h : w.Filed metadata) (hrun : w.run? metadata es = some (w', cs)) :
    w'.Filed metadata := by
  induction es generalizing w cs with
  | nil =>
      cases hrun
      exact h
  | cons e es ih =>
      obtain ⟨⟨w₁, ds⟩, htake, hrest⟩ := Option.bind_eq_some_iff.1 hrun
      obtain ⟨⟨w₂, fs⟩, hfs, heq⟩ := Option.map_eq_some_iff.1 hrest
      cases heq
      exact ih (h.take? htake) hfs

/-! ## Listings -/

/-- The events of a listing. -/
def relist (os : List α) : List (WatchEvent α) := .listing :: (os.map .listed ++ [.listingDone])

theorem take?_listed {o : α} (ho : (metadata o).name ≠ none) :
    w.take? metadata (.listed o) = some
      ({ w with listed := w.listed ++ [o], buffer := w.buffer.insert (metadata o).key o }, []) :=
  if_pos (Option.isSome_iff_ne_none.2 ho)

/-- Listed objects are gathered, and nothing else changes. -/
theorem run?_listed (hnamed : ∀ o ∈ os, (metadata o).name ≠ none) :
    w.run? metadata (os.map .listed) = some
      (⟨w.store, os.foldl (fun s o => s.insert (metadata o).key o) w.buffer, w.listed ++ os⟩,
        []) := by
  induction os generalizing w with
  | nil => rw [List.append_nil]; rfl
  | cons o os ih =>
      rw [List.map_cons, KindWatch.run?, take?_listed (hnamed o List.mem_cons_self),
        Option.bind_some, ih fun o' ho' => hnamed o' (List.mem_cons_of_mem o ho')]
      simp

/-- A complete listing replaces the store, whatever was listed before it. -/
theorem run?_relist (w : KindWatch α) (hnamed : ∀ o ∈ os, (metadata o).name ≠ none) :
    w.run? metadata (relist os) = some
      (⟨collect (fun o => (metadata o).key) os, .empty, []⟩,
        listingChanges w.store (fun o => (metadata o).key) os) := by
  have hlisting : w.take? metadata .listing = some ({ w with listed := [], buffer := .empty }, []) :=
    rfl
  rw [relist, KindWatch.run?, hlisting, Option.bind_some, run?_append, run?_listed hnamed,
    Option.bind_some, List.nil_append]
  simp only [KindWatch.run?, KindWatch.take?, canTake, WatchEvent.object?, Option.all_none, if_true,
    Option.bind_some, Option.map_some, KindWatch.take, List.nil_append, List.append_nil]
  rfl

/-- An object that stands under its key is a new version of itself. -/
theorem changeOf_of_keyed {s : Snapshot α} (h : s.Keyed key) {o : α} (ho : o ∈ s.objects) :
    changeOf s key o = .updated o o := by
  have hfind : s.find? (key o) = some o := by
    rw [Snapshot.find?, h.lookup_eq_some_iff.2 ⟨ho, rfl⟩, Option.some_or]
  rw [changeOf, hfind]

/-- If a listing names what the store holds, nothing is new and nothing is gone. -/
theorem listingChanges_of_perm {s : Snapshot α} (h : s.Keyed key) (hos : os.Perm s.objects) :
    listingChanges s key os = os.map fun o => .updated o o := by
  have hgone : (s.objects.filter fun o => !(os.map key).contains (key o)) = [] := by
    refine List.filter_eq_nil_iff.2 fun o ho => ?_
    rw [Bool.not_eq_true', Bool.not_eq_false, List.contains_iff_mem]
    exact List.mem_map_of_mem (hos.mem_iff.2 ho)
  rw [listingChanges, hgone, List.map_nil, List.append_nil]
  exact List.map_congr_left fun o ho => changeOf_of_keyed h (hos.mem_iff.1 ho)

/-! ## The same objects again -/

/-- A watch of any kind, whatever it has been through, lists what its store holds, in any order, and
every object has a version. Then the store holds the same afterwards; every object is reported once,
as a new version of itself with the version that it had; and no such change makes a controller call
anybody, whatever it looks up and whichever deletions would fail. -/
theorem relist_unchanged (k : Kind) {es : List (WatchEvent k.Object)} {w : KindWatch k.Object}
    {earlier : List (Change k.Object)} {os : List k.Object}
    (hrun : new.run? k.metadata es = some (w, earlier))
    (hversions : ∀ o ∈ w.store.objects, (k.metadata o).resourceVersion ≠ none)
    (hos : os.Perm w.store.objects) :
    ∃ w' cs, w.run? k.metadata (relist os) = some (w', cs) ∧
      w'.store.entries.Perm w.store.entries ∧ cs = os.map (fun o => .updated o o) ∧
      ∀ change ∈ cs,
        (∃ old new version, change = .updated old new ∧
          (k.metadata old).resourceVersion = some version ∧
          (k.metadata new).resourceVersion = some version) ∧
        ∀ (c : Controller) (failures : List Bool), Rehearsal.callsOf c failures ⟨k, change⟩ = [] := by
  have hfiled : w.store.Filed k.metadata := (Filed.new.run? hrun).store
  have hnamed : ∀ o ∈ os, (k.metadata o).name ≠ none := by
    intro o ho
    obtain ⟨key, hkey⟩ := Snapshot.mem_objects.1 (hos.mem_iff.1 ho)
    exact (hfiled key o hkey).2
  refine ⟨_, _, run?_relist w hnamed, hfiled.keyed.collect_perm hos,
    listingChanges_of_perm hfiled.keyed hos, ?_⟩
  rw [listingChanges_of_perm hfiled.keyed hos]
  intro change hchange
  obtain ⟨o, ho, rfl⟩ := List.mem_map.1 hchange
  obtain ⟨version, hversion⟩ :=
    Option.ne_none_iff_exists'.1 (hversions o (hos.mem_iff.1 ho))
  refine ⟨⟨o, o, version, rfl, hversion, hversion⟩, fun c failures => ?_⟩
  have hsame : (k.secured o).SameVersion (k.secured o) := by
    refine ⟨version, ?_, ?_⟩ <;> rw [Kind.secured_info] <;> exact hversion
  rw [Rehearsal.callsOf_eq, c.react_of_repeats ⟨k, o, o, rfl, hsame⟩]
  rfl

/-- An opted-in ingress of a name and a version that names the secret `first`. -/
def ingressNamed (name version : String) : Ingress :=
  let i := Rehearsal.ingressFor version ["first"]
  { i with metadata := { i.metadata with name := some name } }

/-- A listing, a new version of `b`, and another listing that is not complete. -/
def interrupted : List (WatchEvent Ingress) :=
  [.listing, .listed (ingressNamed "a" "1"), .listed (ingressNamed "b" "1"), .listingDone,
    .apply (ingressNamed "b" "2"), .listing, .listed (ingressNamed "c" "1")]

/-- When the two ingresses are listed again, in the other order, each is reported as a new version
of itself. A controller that has not got their secret does not ask for it. -/
theorem relist_unchanged_interrupted :
    ∃ w earlier, new.run? Kind.ingress.metadata interrupted = some (w, earlier) ∧
      (∀ o ∈ w.store.objects, (Kind.ingress.metadata o).resourceVersion ≠ none) ∧
      List.Perm [ingressNamed "a" "1", ingressNamed "b" "2"] w.store.objects ∧
      ∃ w', w.run? Kind.ingress.metadata
          (relist [ingressNamed "a" "1", ingressNamed "b" "2"]) = some (w',
            [.updated (ingressNamed "a" "1") (ingressNamed "a" "1"),
              .updated (ingressNamed "b" "2") (ingressNamed "b" "2")]) ∧
        w'.store.entries.Perm w.store.entries ∧
        Rehearsal.callsOf Rehearsal.sharing []
          ⟨.ingress, .updated (ingressNamed "b" "2") (ingressNamed "b" "2")⟩ = [] := by
  obtain ⟨w, earlier, hrun, hobjects⟩ : ∃ w earlier,
      new.run? Kind.ingress.metadata interrupted = some (w, earlier) ∧
      w.store.objects = [ingressNamed "b" "2", ingressNamed "a" "1"] := ⟨_, _, rfl, rfl⟩
  have hversions : ∀ o ∈ w.store.objects, (Kind.ingress.metadata o).resourceVersion ≠ none := by
    rw [hobjects]
    intro o ho
    rcases List.mem_cons.1 ho with rfl | ho
    · exact Option.some_ne_none "2"
    · rw [List.mem_singleton.1 ho]
      exact Option.some_ne_none "1"
  have hos : List.Perm [ingressNamed "a" "1", ingressNamed "b" "2"] w.store.objects := by
    rw [hobjects]
    exact List.Perm.swap _ _ _
  obtain ⟨w', cs, hrelist, hstore, rfl, hcalls⟩ := relist_unchanged .ingress hrun hversions hos
  refine ⟨w, earlier, hrun, hversions, hos, w', hrelist, hstore, ?_⟩
  exact (hcalls _ (List.mem_cons_of_mem _ List.mem_cons_self)).2 Rehearsal.sharing []

end KindWatch

end IngressTls
