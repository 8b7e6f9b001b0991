import IngressTls.Proofs.Cluster.Calls

set_option autoImplicit false

/-! # What is reclaimed

A change of a resource gives up the secrets that the resource named before and does not name any
more; a version that has opted out names none. Of these the controller deletes the ones that it
owns and that no opted-in resource of the namespace names, each once, and it releases those whose
deletion succeeds. A version that was known already makes it call nobody.

Main statement: `reclaims_exactly`.
-/

namespace IngressTls

/-- A change brings the version that was known. -/
def KindChange.Repeats (c : KindChange) : Prop :=
  ∃ k old new, c = ⟨k, .updated old new⟩ ∧ (k.secured old).SameVersion (k.secured new)

namespace Controller

theorem nodup_places (ns : String) (names : NameSet) :
    (names.toList.map fun n => (⟨ns, n⟩ : SecretRef)).Nodup :=
  names.nodup.map fun _ _ h => congrArg SecretRef.name h

theorem nodup_givenUp_reconcile (sync : List Request) (change : Change SecuredView) :
    (reconcile sync change).givenUp.Nodup := by
  cases change with
  | added v => exact List.nodup_nil
  | deleted v => exact nodup_places _ _
  | updated old new =>
      rw [reconcile]
      split
      · exact List.nodup_nil
      · exact nodup_places _ _

/-- A change gives each secret up once. -/
theorem nodup_givenUp_react (c : Controller) (change : KindChange) :
    (c.react change).givenUp.Nodup := by
  obtain ⟨k, change⟩ := change
  cases k with
  | ingress => exact nodup_givenUp_reconcile _ _
  | legacyIngress => exact nodup_givenUp_reconcile _ _
  | route => exact nodup_givenUp_reconcile _ _
  | secret =>
      cases change with
      | _ => exact List.nodup_nil
  | _ => exact List.nodup_nil

theorem reconcile_of_sameVersion (sync : List Request) {old new : SecuredView}
    (h : old.SameVersion new) : reconcile sync (.updated old new) = .nothing := by
  rw [reconcile, if_pos ((SecuredView.sameVersion_iff old new).2 h)]

theorem react_of_repeats (c : Controller) {change : KindChange} (h : change.Repeats) :
    c.react change = .nothing := by
  obtain ⟨k, old, new, rfl, hsame⟩ := h
  cases k with
  | ingress => exact reconcile_of_sameVersion _ hsame
  | legacyIngress => exact reconcile_of_sameVersion _ hsame
  | route => exact reconcile_of_sameVersion _ hsame
  | _ => rfl

end Controller

namespace Rehearsal

/-- What a change makes the controller delete and release: after the requests for certificates, it
deletes exactly the secrets that the change gives up, that it owns and that nobody refers to, each
of them once, and it releases a secret exactly if the deletion succeeds. A version that was known
causes no call at all. -/
theorem reclaims_exactly (c : Controller) (failures : List Bool) (change : KindChange) :
    (∃ secrets : List SecretRef, secrets.Nodup ∧
      (∀ s, s ∈ secrets ↔ change.GivesUp s ∧ c.cache.Owned c.name s ∧ ¬ c.cache.Refers s) ∧
      callsOf c failures change = (c.react change).requests.map .obtain ++
        (secrets.mapIdx fun i s => deletionCalls s (failures.getD i false)).flatten) ∧
    (change.Repeats → callsOf c failures change = []) := by
  constructor
  · refine ⟨(c.react change).givenUp.filter c.reclaims, ?_, fun s => ?_, callsOf_eq c _ change⟩
    · exact (c.nodup_givenUp_react change).filter _
    · rw [List.mem_filter, Controller.reclaims_iff, Controller.mem_givenUp_react]
  · intro hrepeats
    rw [callsOf_eq, c.react_of_repeats hrepeats]
    rfl

/-! ## An ingress that drops its secrets -/

/-- A controller that sees a route which names the secret `shared`, and four secrets of which it
owns all but `users`. -/
def tidying : Controller where
  name := "certpilot"
  cache := .ofContents {
    ingresses := []
    routes := [.ofRoute (World.routeFor "1" "a.com")]
    classes := []
    secrets := [⟨⟨"default", "first"⟩, some "certpilot", none⟩,
      ⟨⟨"default", "second"⟩, some "certpilot", none⟩,
      ⟨World.sharedSecret, some "certpilot", none⟩, ⟨⟨"default", "users"⟩, none, none⟩] }

/-- The new version of an ingress names none of its secrets any more. -/
def dropsAll : KindChange :=
  ⟨.ingress, .updated (ingressFor "1" ["second", "users", "shared", "first", "second"])
    (ingressFor "2" [])⟩

/-- The same version again. -/
def dropsNothing : KindChange :=
  ⟨.ingress, .updated (ingressFor "1" ["first"]) (ingressFor "1" ["first"])⟩

/-- The ingress drops four secrets. One of them is somebody else's, and one is still referred to; of
the other two only the second can be deleted. -/
theorem reclaims_exactly_dropsAll :
    (∃ secrets : List SecretRef, ⟨"default", "second"⟩ ∈ secrets ∧ World.sharedSecret ∉ secrets ∧
      callsOf tidying [true] dropsAll = (tidying.react dropsAll).requests.map .obtain ++
        (secrets.mapIdx fun i s => deletionCalls s ([true].getD i false)).flatten) ∧
    dropsNothing.Repeats ∧ callsOf tidying [] dropsNothing = [] := by
  obtain ⟨secrets, -, hmem, hcalls⟩ := (reclaims_exactly tidying [true] dropsAll).1
  have hrepeats : dropsNothing.Repeats := ⟨.ingress, _, _, rfl, "1", rfl, rfl⟩
  refine ⟨⟨secrets, (hmem _).2 ⟨?_, ⟨_, rfl, rfl⟩, ?_⟩, fun h => ((hmem _).1 h).2.2 ?_, hcalls⟩,
    hrepeats, (reclaims_exactly tidying [] dropsNothing).2 hrepeats⟩
  · refine ⟨?_, rfl, ⟨by decide, _, List.mem_cons_self, rfl⟩, ?_⟩
    · rintro ⟨version, hold, hnew⟩
      exact absurd (Option.some.inj (hold.trans hnew.symm)) (by decide)
    · rintro ⟨-, b, hb, -⟩
      cases hb
  · rw [← ClusterCache.isReferenced_iff_refers]
    decide +kernel
  · rw [← ClusterCache.isReferenced_iff_refers]
    decide +kernel

example : callsOf tidying [true] dropsAll =
    [.delete ⟨"default", "first"⟩, .delete ⟨"default", "second"⟩,
      .release ⟨"default", "second"⟩] := by
  rfl

end Rehearsal

end IngressTls
