import IngressTls.Demand
import IngressTls.Snapshot
import IngressTls.Watch.Kinds

set_option autoImplicit false

/-! # The cache over snapshots

What the controller looks up, read from the snapshots of the watched kinds. A kind that is not
watched has an empty snapshot. Resources are found by exactly the namespace they are in; a
class is looked for among platform classes first, then among classes, then among those of
the older version; of several default classes of one sort the one with the least name counts.
-/

namespace IngressTls

/-- The snapshots of all kinds. -/
abbrev Snapshots := PerKind fun k => Snapshot k.Object

/-- A change of an object of some kind. -/
structure KindChange where
  /-- The kind. -/
  kind : Kind
  /-- The change. -/
  change : Change kind.Object

namespace Snapshots

/-- The objects of a kind that are in a namespace. -/
def inNamespace (s : Snapshots) (k : Kind) (ns : String) : List k.Object :=
  (s.get k).objects.filter fun o => (k.metadata o).ns = some ns

/-- The class of least name among the default ones. -/
def leastDefault (classes : List ClassView) : Option ClassView :=
  (classes.filter ClassView.isDefault).foldl (fun least c =>
    match least with
    | none => some c
    | some l => if c.name < l.name then some c else some l) none

/-- The views of the classes of each sort, in the order in which they are searched. -/
def classes (s : Snapshots) : List (List ClassView) :=
  [s.platformClass.objects.map ClassView.ofPlatform, s.ingressClass.objects.map ClassView.ofClass,
    s.legacyClass.objects.map ClassView.ofLegacy]

/-- The cache that looks up the snapshots. -/
def cache (s : Snapshots) : ClusterCache where
  ingresses ns :=
    (s.inNamespace .ingress ns).map IngressView.ofIngress ++
      (s.inNamespace .legacyIngress ns).map IngressView.ofLegacy
  routes ns := (s.inNamespace .route ns).map RouteView.ofRoute
  ingressClass name :=
    ((s.platformClass.find? ⟨none, name⟩).map ClassView.ofPlatform).or <|
      ((s.ingressClass.find? ⟨none, name⟩).map ClassView.ofClass).or <|
        (s.legacyClass.find? ⟨none, name⟩).map ClassView.ofLegacy
  defaultClass := s.classes.findSome? leastDefault
  secret r := (s.secret.find? ⟨some r.ns, r.name⟩).map SecretView.ofSecret

end Snapshots

/-- The reaction to a change. Classes are only looked up; their changes ask for nothing. -/
def Controller.react (c : Controller) : KindChange → Reaction
  | ⟨.ingress, change⟩ => c.onIngress (change.map IngressView.ofIngress)
  | ⟨.legacyIngress, change⟩ => c.onIngress (change.map IngressView.ofLegacy)
  | ⟨.route, change⟩ => c.onRoute (change.map RouteView.ofRoute)
  | ⟨.secret, change⟩ => c.onSecret (change.map SecretView.ofSecret)
  | ⟨.platformClass, _⟩ | ⟨.ingressClass, _⟩ | ⟨.legacyClass, _⟩ => .nothing

end IngressTls
