import IngressTls.Resource.Ingress
import IngressTls.Resource.IngressClass
import IngressTls.Resource.Route
import IngressTls.Resource.Secret
import IngressTls.Surface

set_option autoImplicit false

/-! # The watched kinds

The seven kinds of resources that the controller watches, the types of their objects, and
families with one member for each kind.

Main statements: `PerKind.get_set_self` and `PerKind.get_set_ne`.
-/

namespace IngressTls

/-- The watched kinds. -/
inductive Kind where
  | ingress | legacyIngress | route | platformClass | ingressClass | legacyClass | secret
  deriving DecidableEq, Repr

namespace Kind

/-- All kinds, in the order in which their watches are begun. -/
def all : List Kind :=
  [ingress, legacyIngress, route, platformClass, ingressClass, legacyClass, secret]

/-- The objects of a kind. -/
def Object : Kind → Type
  | ingress => Ingress
  | legacyIngress => LegacyIngress
  | route => IngressRoute
  | platformClass => PlatformClass
  | ingressClass => IngressClass
  | legacyClass => LegacyClass
  | secret => Secret

/-- The name of a kind at the gate. -/
def title : Kind → String
  | ingress => "Ingress/v1"
  | legacyIngress => "Ingress/v1beta1"
  | route => "IngressRoute"
  | platformClass => "IngressClass/platform"
  | ingressClass => "IngressClass/v1"
  | legacyClass => "IngressClass/v1beta1"
  | secret => "Secret"

/-- Under what a kind is served. -/
def served : Kind → ServedKind
  | ingress => ⟨Surface.networkingGroup, "v1", "Ingress"⟩
  | legacyIngress => ⟨Surface.networkingGroup, "v1beta1", "Ingress"⟩
  | route => ⟨Surface.routeGroup, "v1alpha1", "IngressRoute"⟩
  | platformClass => ⟨Surface.platformGroup, "v1alpha1", "IngressClass"⟩
  | ingressClass => ⟨Surface.networkingGroup, "v1", "IngressClass"⟩
  | legacyClass => ⟨Surface.networkingGroup, "v1beta1", "IngressClass"⟩
  | secret => ⟨"", "v1", "Secret"⟩

/-- The word for several objects of a kind. -/
def plural : Kind → String
  | ingress | legacyIngress => "ingresses"
  | route => "ingressroutes"
  | platformClass | ingressClass | legacyClass => "ingressclasses"
  | secret => "secrets"

/-- Whether a kind is watched on a surface. Secrets always are. -/
def isWatched (s : Surface) : Kind → Bool
  | ingress => s.ingress
  | legacyIngress => s.legacyIngress
  | route => s.route
  | platformClass => s.platformClass
  | ingressClass => s.ingressClass
  | legacyClass => s.legacyClass
  | secret => true

/-- The metadata of an object. -/
def metadata : (k : Kind) → k.Object → Metadata
  | ingress, o => Ingress.metadata o
  | legacyIngress, o => LegacyIngress.metadata o
  | route, o => IngressRoute.metadata o
  | platformClass, o => PlatformClass.metadata o
  | ingressClass, o => IngressClass.metadata o
  | legacyClass, o => LegacyClass.metadata o
  | secret, o => Secret.metadata o

/-- An object with other metadata. -/
def withMetadata : (k : Kind) → k.Object → Metadata → k.Object
  | ingress, o, m => ({ (o : Ingress) with metadata := m } : Ingress)
  | legacyIngress, o, m => ({ (o : LegacyIngress) with metadata := m } : LegacyIngress)
  | route, o, m => ({ (o : IngressRoute) with metadata := m } : IngressRoute)
  | platformClass, o, m => ({ (o : PlatformClass) with metadata := m } : PlatformClass)
  | ingressClass, o, m => ({ (o : IngressClass) with metadata := m } : IngressClass)
  | legacyClass, o, m => ({ (o : LegacyClass) with metadata := m } : LegacyClass)
  | secret, o, m => ({ (o : Secret) with metadata := m } : Secret)

/-- Reads an object. -/
def object? : (k : Kind) → Json → Option k.Object
  | ingress, j => Ingress.ofJson? j
  | legacyIngress, j => LegacyIngress.ofJson? j
  | route, j => IngressRoute.ofJson? j
  | platformClass, j => PlatformClass.ofJson? j
  | ingressClass, j => IngressClass.ofJson? j
  | legacyClass, j => LegacyClass.ofJson? j
  | secret, j => Secret.ofJson? j

/-- An object with metadata and nothing else. -/
def bare (k : Kind) (m : Metadata) : k.Object :=
  match k with
  | ingress => { (default : Ingress) with metadata := m }
  | legacyIngress => { (default : LegacyIngress) with metadata := m }
  | route => { (default : IngressRoute) with metadata := m }
  | platformClass => { (default : PlatformClass) with metadata := m }
  | ingressClass => { (default : IngressClass) with metadata := m }
  | legacyClass => { (default : LegacyClass) with metadata := m }
  | secret => { (default : Secret) with metadata := m }

end Kind

/-- The API version of a served kind, as objects give it. -/
def ServedKind.apiVersion (s : ServedKind) : String :=
  if s.group.isEmpty then s.version else s.group ++ "/" ++ s.version

/-- The path of the collection of all objects of a kind. -/
def Kind.path (k : Kind) : String :=
  let root := if k.served.group.isEmpty then "/api/" else "/apis/"
  root ++ k.served.apiVersion ++ "/" ++ k.plural

/-- The kind that an object says it is of. -/
def Kind.ofObject? (j : Json) : Option Kind :=
  Kind.all.find? fun k =>
    (j.field "apiVersion").string? = some k.served.apiVersion &&
      (j.field "kind").string? = some k.served.kind

/-- One member for each kind. -/
structure PerKind (F : Kind → Type) where
  /-- The member for ingresses. -/
  ingress : F .ingress
  /-- The member for ingresses of the older version. -/
  legacyIngress : F .legacyIngress
  /-- The member for routes. -/
  route : F .route
  /-- The member for platform classes. -/
  platformClass : F .platformClass
  /-- The member for ingress classes. -/
  ingressClass : F .ingressClass
  /-- The member for ingress classes of the older version. -/
  legacyClass : F .legacyClass
  /-- The member for secrets. -/
  secret : F .secret

namespace PerKind

variable {F : Kind → Type}

/-- The family with the members that a function gives. -/
def ofFn (f : (k : Kind) → F k) : PerKind F :=
  ⟨f .ingress, f .legacyIngress, f .route, f .platformClass, f .ingressClass, f .legacyClass,
    f .secret⟩

/-- The member for a kind. -/
def get (m : PerKind F) : (k : Kind) → F k
  | .ingress => m.ingress
  | .legacyIngress => m.legacyIngress
  | .route => m.route
  | .platformClass => m.platformClass
  | .ingressClass => m.ingressClass
  | .legacyClass => m.legacyClass
  | .secret => m.secret

/-- The family with another member for a kind. -/
def set (m : PerKind F) : (k : Kind) → F k → PerKind F
  | .ingress, v => { m with ingress := v }
  | .legacyIngress, v => { m with legacyIngress := v }
  | .route, v => { m with route := v }
  | .platformClass, v => { m with platformClass := v }
  | .ingressClass, v => { m with ingressClass := v }
  | .legacyClass, v => { m with legacyClass := v }
  | .secret, v => { m with secret := v }

@[simp] theorem get_ofFn (f : (k : Kind) → F k) (k : Kind) : (ofFn f).get k = f k := by
  cases k <;> rfl

@[simp] theorem get_set_self (m : PerKind F) (k : Kind) (v : F k) : (m.set k v).get k = v := by
  cases k <;> rfl

theorem get_set_ne (m : PerKind F) {k j : Kind} (v : F k) (h : j ≠ k) :
    (m.set k v).get j = m.get j := by
  cases k <;> cases j <;> simp_all [get, set]

end PerKind

end IngressTls
