import IngressTls.Proofs.Snapshot
import IngressTls.Watch.Kind
import Mathlib.Data.List.Basic
import Mathlib.Logic.Function.Basic

set_option autoImplicit false

/-! # Changes replay the store

A watch keeps a snapshot of its kind and tells what has changed. Somebody who only hears of the
changes can keep a picture of the kind: an object that is new is entered under its key, a new
version takes the place of the old one, and an object that is gone is struck out. After every
event the picture is the snapshot, whatever the order of the events. Moreover each change fits
the picture: what is new was not there, and the old version of what has changed was.

Two things would spoil this. A listing that names an object twice brings two changes, both of
them against the snapshot as it was. And in a kind with objects both inside and outside of
namespaces the look-up of the one can find the other.

Main statements: `isSome_run?_iff` and `picture_eq_store`.
-/

namespace IngressTls

variable {α : Type}

/-! ## Pictures -/

/-- What is known of the objects of a kind, under their keys. -/
abbrev Picture (α : Type) := ObjectKey → Option α

namespace Change

/-- A change is entered into a picture. -/
def enter (key : α → ObjectKey) (p : Picture α) : Change α → Picture α
  | added o => Function.update p (key o) (some o)
  | updated _ new => Function.update p (key new) (some new)
  | deleted o => Function.update p (key o) none

/-- A change fits a picture: what is new is not there, and the old version of what has changed
is. -/
def Fits (key : α → ObjectKey) (p : Picture α) : Change α → Prop
  | added o => p (key o) = none
  | updated old new => p (key new) = some old
  | deleted _ => True

end Change

namespace Picture

/-- The picture of a kind of which nothing is known. -/
def blank : Picture α := fun _ => none

/-- Changes are entered one after the other. -/
def enterAll (key : α → ObjectKey) (p : Picture α) (cs : List (Change α)) : Picture α :=
  cs.foldl (Change.enter key) p

/-- Each change fits the picture into which those before it have been entered. -/
def FitsAll (key : α → ObjectKey) : Picture α → List (Change α) → Prop
  | _, [] => True
  | p, c :: cs => c.Fits key p ∧ FitsAll key (c.enter key p) cs

variable {key : α → ObjectKey} {p : Picture α}

theorem enterAll_append (cs ds : List (Change α)) :
    enterAll key p (cs ++ ds) = enterAll key (enterAll key p cs) ds :=
  List.foldl_append

theorem fitsAll_append {cs ds : List (Change α)} :
    FitsAll key p (cs ++ ds) ↔ FitsAll key p cs ∧ FitsAll key (enterAll key p cs) ds := by
  induction cs generalizing p with
  | nil => simp [FitsAll, enterAll]
  | cons c cs ih => simp [FitsAll, enterAll, ih, and_assoc]

theorem fitsAll_deleted (os : List α) : FitsAll key p (os.map .deleted) := by
  induction os generalizing p with
  | nil => trivial
  | cons o os ih => exact ⟨trivial, ih⟩

/-- Objects that are gone are struck out. -/
theorem enterAll_deleted (os : List α) (k : ObjectKey) :
    enterAll key p (os.map .deleted) k = if k ∈ os.map key then none else p k := by
  induction os generalizing p with
  | nil => rfl
  | cons o os ih =>
      refine (ih (p := Function.update p (key o) none)).trans ?_
      by_cases hk : k = key o
      · simp [hk]
      · simp [hk]

end Picture

namespace KindWatch

open Picture

/-! ## Written and listed objects -/

variable {key : α → ObjectKey} {p : Picture α} {s : Snapshot α}

/-- Whatever was known, a written object stands under its key afterwards. -/
theorem enter_changeOf (o : α) :
    (changeOf s key o).enter key p = Function.update p (key o) (some o) := by
  rw [changeOf]
  split
  · rfl
  · rfl

theorem fits_changeOf {o : α} (h : s.find? (key o) = p (key o)) :
    (changeOf s key o).Fits key p := by
  rw [changeOf]
  split
  · next old hold => exact h.symm.trans hold
  · next hnone => exact h.symm.trans hnone

/-- A listing leaves the objects alone that it does not name. -/
theorem enterAll_changeOf_of_not_mem {os : List α} {k : ObjectKey} (hk : k ∉ os.map key) :
    enterAll key p (os.map (changeOf s key)) k = p k := by
  induction os generalizing p with
  | nil => rfl
  | cons o os ih =>
      rw [List.map_cons, List.mem_cons, not_or] at hk
      have hrest := ih (p := (changeOf s key o).enter key p) hk.2
      rw [enter_changeOf, Function.update_of_ne hk.1] at hrest
      rw [← hrest, ← enter_changeOf (s := s)]
      rfl

/-- The objects that a listing names stand under their keys, if no two have the same one. -/
theorem enterAll_changeOf_of_mem {os : List α} {o : α} (hnodup : (os.map key).Nodup)
    (ho : o ∈ os) : enterAll key p (os.map (changeOf s key)) (key o) = some o := by
  induction os generalizing p with
  | nil => cases ho
  | cons o' os ih =>
      rw [List.map_cons, List.nodup_cons] at hnodup
      rcases List.mem_cons.1 ho with rfl | ho
      · have hrest := enterAll_changeOf_of_not_mem (s := s)
          (p := (changeOf s key o).enter key p) hnodup.1
        rw [enter_changeOf, Function.update_self] at hrest
        rw [← hrest, ← enter_changeOf (s := s)]
        rfl
      · exact ih hnodup.2 ho

/-- The changes of a listing fit one after the other, since no two are about the same key. -/
theorem fitsAll_changeOf {os : List α} (hnodup : (os.map key).Nodup)
    (h : ∀ o ∈ os, s.find? (key o) = p (key o)) : FitsAll key p (os.map (changeOf s key)) := by
  induction os generalizing p with
  | nil => trivial
  | cons o os ih =>
      rw [List.map_cons, List.nodup_cons] at hnodup
      refine ⟨fits_changeOf (h o List.mem_cons_self), ih hnodup.2 fun o' ho' => ?_⟩
      have hne : key o' ≠ key o := fun heq => hnodup.1 (heq ▸ List.mem_map_of_mem ho')
      rw [enter_changeOf, Function.update_of_ne hne]
      exact h o' (List.mem_cons_of_mem o ho')

/-! ## Runs -/

/-- Events are taken one after the other; the result holds the changes they bring. -/
def run? (w : KindWatch α) (metadata : α → Metadata) :
    List (WatchEvent α) → Option (KindWatch α × List (Change α))
  | [] => some (w, [])
  | e :: es =>
    (w.take? metadata e).bind fun p => (p.1.run? metadata es).map fun q => (q.1, p.2 ++ q.2)

theorem run?_append (w : KindWatch α) (metadata : α → Metadata) (es fs : List (WatchEvent α)) :
    w.run? metadata (es ++ fs) = (w.run? metadata es).bind fun p =>
      (p.1.run? metadata fs).map fun q => (q.1, p.2 ++ q.2) := by
  induction es generalizing w with
  | nil => simp [run?]
  | cons e es ih =>
      cases h : w.take? metadata e with
      | none => simp [run?, h]
      | some p =>
          rw [List.cons_append, run?, run?, h, Option.bind_some, Option.bind_some, ih]
          cases p.1.run? metadata es with
          | none => rfl
          | some q =>
              rw [Option.bind_some, Option.map_some, Option.bind_some]
              cases q.1.run? metadata fs with
              | none => rfl
              | some r => simp

/-- Events can be taken exactly if every object that they bring has a name. -/
theorem isSome_run?_iff (w : KindWatch α) (metadata : α → Metadata) (es : List (WatchEvent α)) :
    (w.run? metadata es).isSome ↔
      ∀ e ∈ es, ∀ o, e.object? = some o → (metadata o).name ≠ none := by
  induction es generalizing w with
  | nil => simp [run?]
  | cons e es ih =>
      rw [List.forall_mem_cons]
      cases h : w.take? metadata e with
      | none =>
          obtain ⟨o, ho, hname⟩ := (take?_eq_none_iff w metadata e).1 h
          refine iff_of_false (by simp [run?, h]) fun hall => hall.1 o ho hname
      | some p =>
          have hfirst : ∀ o, e.object? = some o → (metadata o).name ≠ none := by
            intro o ho hname
            exact Option.some_ne_none p (h.symm.trans
              ((take?_eq_none_iff w metadata e).2 ⟨o, ho, hname⟩))
          rw [run?, h, Option.bind_some, Option.isSome_map, ih]
          exact ⟨fun hrest => ⟨hfirst, hrest⟩, fun hall => hall.2⟩

/-! ## Orderly events -/

/-- The objects that are listed before the next listing begins or the present one is complete. -/
def restOfListing : List (WatchEvent α) → List α
  | [] => []
  | .listed o :: es => o :: restOfListing es
  | .listing :: _ | .listingDone :: _ => []
  | .apply _ :: es | .delete _ :: es => restOfListing es

/-- No listing names an object twice. -/
def ListsOnce (key : α → ObjectKey) : List (WatchEvent α) → Prop
  | [] => True
  | .listed o :: es => key o ∉ (restOfListing es).map key ∧ ListsOnce key es
  | .listing :: es | .listingDone :: es | .apply _ :: es | .delete _ :: es => ListsOnce key es

/-- Either every object is in a namespace, or none is. -/
def OfOneScope (metadata : α → Metadata) (es : List (WatchEvent α)) : Prop :=
  ∃ namespaced : Bool, ∀ e ∈ es, ∀ o, e.object? = some o → (metadata o).ns.isSome = namespaced

instance decidableListsOnce (key : α → ObjectKey) :
    (es : List (WatchEvent α)) → Decidable (ListsOnce key es)
  | [] => isTrue trivial
  | .listed o :: es =>
    have := decidableListsOnce key es
    inferInstanceAs (Decidable (key o ∉ (restOfListing es).map key ∧ ListsOnce key es))
  | .listing :: es | .listingDone :: es | .apply _ :: es | .delete _ :: es =>
    decidableListsOnce key es

theorem ListsOnce.tail {e : WatchEvent α} {es : List (WatchEvent α)}
    (h : ListsOnce key (e :: es)) : ListsOnce key es := by
  cases e with
  | listed o => exact h.2
  | _ => exact h

theorem eq_take_of_take? {metadata : α → Metadata} {w : KindWatch α} {e : WatchEvent α}
    {p : KindWatch α × List (Change α)} (h : w.take? metadata e = some p) :
    w.take (fun o => (metadata o).key) e = p :=
  Option.some.inj (Option.ite_none_right_eq_some.1 h).2

/-- What a watch keeps while its events are orderly. -/
structure Orderly (key : α → ObjectKey) (namespaced : Bool) (w : KindWatch α) : Prop where
  /-- Every object of the snapshot stands under its own key. -/
  keyed : w.store.Keyed key
  /-- The keys of the snapshot are of one scope. -/
  scope : ∀ k o, w.store.lookup k = some o → k.ns.isSome = namespaced
  /-- The unfinished listing is buffered under its keys. -/
  buffered : ∀ k o, w.buffer.lookup k = some o ↔ o ∈ w.listed ∧ key o = k
  /-- Its keys are of the same scope. -/
  listed : ∀ o ∈ w.listed, (key o).ns.isSome = namespaced
  /-- They are different. -/
  nodup : (w.listed.map key).Nodup

namespace Orderly

variable {namespaced : Bool} {w : KindWatch α} {e : WatchEvent α} {o : α}

theorem new : Orderly key namespaced (KindWatch.new : KindWatch α) where
  keyed := Snapshot.Keyed.empty
  scope _ _ h := nomatch h
  buffered _ _ := ⟨fun h => (nomatch h), fun h => (nomatch h.1)⟩
  listed _ h := nomatch h
  nodup := List.nodup_nil

/-- The look-up of an object of the same scope is exact. -/
theorem find?_eq (h : Orderly key namespaced w) (ho : (key o).ns.isSome = namespaced) :
    w.store.find? (key o) = w.store.lookup (key o) :=
  Snapshot.find?_eq_lookup h.scope ho

theorem apply (h : Orderly key namespaced w) (ho : (key o).ns.isSome = namespaced) :
    Orderly key namespaced { w with store := w.store.insert (key o) o } where
  keyed := h.keyed.insert o
  scope k o' hk := by
    rw [Snapshot.lookup_insert] at hk
    split at hk
    · next heq => exact heq ▸ ho
    · exact h.scope k o' hk
  buffered := h.buffered
  listed := h.listed
  nodup := h.nodup

theorem delete (h : Orderly key namespaced w) (k : ObjectKey) :
    Orderly key namespaced { w with store := w.store.erase k } where
  keyed := h.keyed.erase k
  scope j o' hj := by
    rw [Snapshot.lookup_erase] at hj
    split at hj
    · cases hj
    · exact h.scope j o' hj
  buffered := h.buffered
  listed := h.listed
  nodup := h.nodup

theorem list (h : Orderly key namespaced w) (ho : (key o).ns.isSome = namespaced)
    (hfresh : key o ∉ w.listed.map key) :
    Orderly key namespaced
      { w with listed := w.listed ++ [o], buffer := w.buffer.insert (key o) o } where
  keyed := h.keyed
  scope := h.scope
  buffered k o' := by
    rw [Snapshot.lookup_insert, List.mem_append, List.mem_singleton]
    by_cases hk : k = key o
    · rw [if_pos hk, Option.some_inj]
      constructor
      · rintro rfl
        exact ⟨Or.inr rfl, hk.symm⟩
      · rintro ⟨ho' | rfl, hkey⟩
        · exact absurd (List.mem_map.2 ⟨o', ho', hkey.trans hk⟩) hfresh
        · rfl
    · rw [if_neg hk, h.buffered]
      constructor
      · rintro ⟨ho', hkey⟩
        exact ⟨Or.inl ho', hkey⟩
      · rintro ⟨ho' | rfl, hkey⟩
        · exact ⟨ho', hkey⟩
        · exact absurd hkey.symm hk
  listed o' ho' := by
    rcases List.mem_append.1 ho' with ho' | ho'
    · exact h.listed o' ho'
    · rw [List.mem_singleton.1 ho', ho]
  nodup := by
    rw [List.map_append, List.map_singleton]
    refine List.nodup_append.2 ⟨h.nodup, List.pairwise_singleton _ _, fun a ha b hb hab => ?_⟩
    exact hfresh (List.mem_singleton.1 hb ▸ hab ▸ ha)

theorem listing (h : Orderly key namespaced w) :
    Orderly key namespaced { w with listed := [], buffer := .empty } where
  keyed := h.keyed
  scope := h.scope
  buffered := (new : Orderly key namespaced .new).buffered
  listed := (new : Orderly key namespaced .new).listed
  nodup := List.nodup_nil

theorem listingDone (h : Orderly key namespaced w) :
    Orderly key namespaced ⟨w.buffer, .empty, []⟩ where
  keyed k o' ho' := ((h.buffered k o').1 ho').2
  scope k o' ho' := by
    obtain ⟨hmem, rfl⟩ := (h.buffered k o').1 ho'
    exact h.listed o' hmem
  buffered := (new : Orderly key namespaced .new).buffered
  listed := (new : Orderly key namespaced .new).listed
  nodup := List.nodup_nil

/-- Whatever is known before a listing, what it has named is known when it is complete, and nothing
else. -/
theorem enterAll_listingChanges (h : Orderly key namespaced w) :
    enterAll key w.store.lookup (listingChanges w.store key w.listed) = w.buffer.lookup := by
  funext k
  rw [listingChanges, enterAll_append, enterAll_deleted]
  by_cases hk : k ∈ w.listed.map key
  · -- an object that the listing names is not struck out
    obtain ⟨o, ho, rfl⟩ := List.mem_map.1 hk
    have hkept : key o ∉ (w.store.objects.filter fun o' =>
        !(w.listed.map key).contains (key o')).map key := by
      intro hmem
      obtain ⟨o', ho', heq⟩ := List.mem_map.1 hmem
      have hunseen := (List.mem_filter.1 ho').2
      rw [heq, Bool.not_eq_true', ← Bool.not_eq_true, List.contains_iff_mem] at hunseen
      exact hunseen hk
    rw [if_neg hkept, enterAll_changeOf_of_mem h.nodup ho]
    exact ((h.buffered _ o).2 ⟨ho, rfl⟩).symm
  · have hbuffer : w.buffer.lookup k = none := by
      cases hb : w.buffer.lookup k with
      | none => rfl
      | some o =>
          obtain ⟨ho, rfl⟩ := (h.buffered k o).1 hb
          exact absurd (List.mem_map_of_mem ho) hk
    rw [hbuffer, enterAll_changeOf_of_not_mem hk]
    split
    · rfl
    · next hkept =>
        -- an object that it does not name was known only if it is struck out
        cases hs : w.store.lookup k with
        | none => rfl
        | some o =>
            have hkey := h.keyed k o hs
            refine absurd (List.mem_map.2 ⟨o, List.mem_filter.2 ⟨?_, ?_⟩, hkey⟩) hkept
            · exact Snapshot.mem_objects.2 ⟨k, hs⟩
            · rw [hkey, Bool.not_eq_true', ← Bool.not_eq_true, List.contains_iff_mem]
              exact hk

theorem fitsAll_listingChanges (h : Orderly key namespaced w) :
    FitsAll key w.store.lookup (listingChanges w.store key w.listed) :=
  fitsAll_append.2
    ⟨fitsAll_changeOf h.nodup fun o ho => h.find?_eq (h.listed o ho), fitsAll_deleted _⟩

/-! ## Steps and runs -/

/-- An event keeps order if its object is of the same scope and not listed already. -/
theorem take (h : Orderly key namespaced w)
    (hscope : ∀ o, e.object? = some o → (key o).ns.isSome = namespaced)
    (hfresh : ∀ o, e = .listed o → key o ∉ w.listed.map key) :
    Orderly key namespaced (w.take key e).1 := by
  cases e with
  | apply o => exact h.apply (hscope o rfl)
  | delete o => exact h.delete (key o)
  | listing => exact h.listing
  | listed o => exact h.list (hscope o rfl) (hfresh o rfl)
  | listingDone => exact h.listingDone

/-- The changes that an event brings make the picture of the new snapshot from that of the old
one. -/
theorem enterAll_take (h : Orderly key namespaced w) :
    enterAll key w.store.lookup (w.take key e).2 = (w.take key e).1.store.lookup := by
  cases e with
  | apply o =>
      refine (enter_changeOf o).trans (funext fun k => ?_)
      rw [Function.update_apply]
      exact (Snapshot.lookup_insert w.store (key o) k o).symm
  | delete o =>
      funext k
      refine (Function.update_apply _ _ _ k).trans ?_
      exact (Snapshot.lookup_erase w.store (key o) k).symm
  | listing => rfl
  | listed o => rfl
  | listingDone => exact h.enterAll_listingChanges

theorem fitsAll_take (h : Orderly key namespaced w)
    (hscope : ∀ o, e.object? = some o → (key o).ns.isSome = namespaced) :
    FitsAll key w.store.lookup (w.take key e).2 := by
  cases e with
  | apply o => exact ⟨fits_changeOf (h.find?_eq (hscope o rfl)), trivial⟩
  | delete o => exact ⟨trivial, trivial⟩
  | listing => trivial
  | listed o => trivial
  | listingDone => exact h.fitsAll_listingChanges

/-- What has not been listed yet stays unlisted by the events before it. -/
theorem unlisted_take {es : List (WatchEvent α)} (honce : ListsOnce key (e :: es))
    (h : ∀ o ∈ restOfListing (e :: es), key o ∉ w.listed.map key) :
    ∀ o ∈ restOfListing es, key o ∉ (w.take key e).1.listed.map key := by
  intro o ho
  cases e with
  | apply o' => exact h o ho
  | delete o' => exact h o ho
  | listing => exact List.not_mem_nil
  | listingDone => exact List.not_mem_nil
  | listed o' =>
      have hne : key o ≠ key o' := fun heq => honce.1 (heq ▸ List.mem_map_of_mem ho)
      show key o ∉ (w.listed ++ [o']).map key
      rw [List.map_append, List.mem_append, not_or, List.map_singleton, List.mem_singleton]
      exact ⟨h o (List.mem_cons_of_mem o' ho), hne⟩

/-- The changes of a run make the picture of its last snapshot from that of its first one. -/
theorem run? {metadata : α → Metadata} {before after : List (WatchEvent α)} {w' : KindWatch α}
    {cs : List (Change α)} (h : Orderly (fun o => (metadata o).key) namespaced w)
    (hscope : ∀ e ∈ before, ∀ o, e.object? = some o → (metadata o).ns.isSome = namespaced)
    (honce : ListsOnce (fun o => (metadata o).key) (before ++ after))
    (hunlisted : ∀ o ∈ restOfListing (before ++ after),
      (metadata o).key ∉ w.listed.map fun o => (metadata o).key)
    (hrun : w.run? metadata before = some (w', cs)) :
    enterAll (fun o => (metadata o).key) w.store.lookup cs = w'.store.lookup ∧
      FitsAll (fun o => (metadata o).key) w.store.lookup cs := by
  induction before generalizing w cs with
  | nil =>
      cases hrun
      exact ⟨rfl, trivial⟩
  | cons e es ih =>
      obtain ⟨⟨w₁, ds⟩, htake, hrest⟩ := Option.bind_eq_some_iff.1 hrun
      obtain ⟨⟨w₂, fs⟩, hfs, heq⟩ := Option.map_eq_some_iff.1 hrest
      cases heq
      have hstep := eq_take_of_take? htake
      have hfirst := hscope e List.mem_cons_self
      have hmake := h.enterAll_take (e := e)
      have hfit := h.fitsAll_take hfirst
      have hnext := h.take hfirst fun o ho => hunlisted o (by rw [ho]; exact List.mem_cons_self)
      have hunlisted₁ := unlisted_take honce hunlisted
      rw [hstep] at hmake hfit hnext hunlisted₁
      have honce₁ : ListsOnce (fun o => (metadata o).key) (es ++ after) := honce.tail
      obtain ⟨hpicture, hfits⟩ :=
        ih hnext (fun e' he' => hscope e' (List.mem_cons_of_mem e he')) honce₁ hunlisted₁ hfs
      rw [enterAll_append, fitsAll_append, hmake]
      exact ⟨hpicture, hfit, hfits⟩

end Orderly

/-- Somebody who enters the changes of a watch into a blank picture has the snapshot of the watch
after every event, if no listing names an object twice and the kind is of one scope: every change
fits the picture that he has so far. The events can be taken as long as their objects have names.
The listings may be abandoned for others, they may be completed without having begun, and single
objects may be written and deleted in between. -/
theorem picture_eq_store {metadata : α → Metadata} {es before : List (WatchEvent α)}
    (honce : ListsOnce (fun o => (metadata o).key) es) (hscope : OfOneScope metadata es)
    (hbefore : before <+: es) :
    ((new.run? metadata before).isSome ↔
        ∀ e ∈ before, ∀ o, e.object? = some o → (metadata o).name ≠ none) ∧
      ∀ w cs, new.run? metadata before = some (w, cs) →
        enterAll (fun o => (metadata o).key) blank cs = w.store.lookup ∧
          FitsAll (fun o => (metadata o).key) blank cs := by
  refine ⟨isSome_run?_iff new metadata before, fun w cs hrun => ?_⟩
  obtain ⟨after, rfl⟩ := hbefore
  obtain ⟨namespaced, hscope⟩ := hscope
  have hnew : Orderly (fun o => (metadata o).key) namespaced (new : KindWatch α) := .new
  exact hnew.run? (fun e he => hscope e (List.mem_append_left after he)) honce
    (fun o _ => List.not_mem_nil) hrun

/-! ## A restless watch -/

/-- A version of an object of the only namespace. -/
def versionOf (name version : String) : Metadata :=
  { Metadata.empty with name := some name, ns := some "default", resourceVersion := some version }

/-- A listing is abandoned, another one goes on while single objects are written and deleted, and
finally a listing is complete that has not begun. -/
def restless : List (WatchEvent Metadata) :=
  [.apply (versionOf "a" "1"), .apply (versionOf "b" "1"), .listing,
    .listed (versionOf "a" "2"), .listing, .listed (versionOf "c" "1"),
    .apply (versionOf "a" "3"), .listed (versionOf "a" "2"), .delete (versionOf "b" "1"),
    .listingDone, .apply (versionOf "b" "2"), .listingDone]

/-- Before the last event the picture is the snapshot, and `a` has the version that was listed. -/
theorem picture_eq_store_restless :
    ListsOnce (fun o => (id o : Metadata).key) restless ∧ OfOneScope id restless ∧
      ∃ w cs, new.run? id (restless.take 11) = some (w, cs) ∧ cs.length = 7 ∧
        enterAll (fun o => (id o : Metadata).key) blank cs = w.store.lookup ∧
        w.store.lookup ⟨some "default", "a"⟩ = some (versionOf "a" "2") := by
  have honce : ListsOnce (fun o => (id o : Metadata).key) restless := by decide
  have hinside : ∀ e ∈ restless, (e.object?.all fun o => o.ns.isSome) = true := by decide
  have hscope : OfOneScope id restless := by
    refine ⟨true, fun e he o ho => ?_⟩
    have hobject := hinside e he
    rw [ho] at hobject
    exact hobject
  obtain ⟨-, hpicture⟩ := picture_eq_store honce hscope (List.take_prefix 11 restless)
  exact ⟨honce, hscope, _, _, rfl, rfl, (hpicture _ _ rfl).1, rfl⟩

end KindWatch

end IngressTls
