import IngressTls.IngressController
import IngressTls.View

set_option autoImplicit false

/-! # The cache of the cluster

What the controller can look up about the cluster at one moment, and what follows from it
about the controller that serves an ingress.
-/

namespace IngressTls

/-- Look-ups of the state of a cluster. -/
structure ClusterCache where
  /-- The ingresses of a namespace, of either version. -/
  ingresses : String → List IngressView
  /-- The routes of a namespace. -/
  routes : String → List RouteView
  /-- The class of a name. -/
  ingressClass : String → Option ClassView
  /-- The class that serves ingresses without a class. -/
  defaultClass : Option ClassView
  /-- The secret at a place. -/
  secret : SecretRef → Option SecretView

namespace ClusterCache

/-- The controller that serves an ingress: the one that its annotation stands for, if that
is a known class; else the controller of its class; else, if it has no class, the one of the
default class. -/
def controllerOf? (c : ClusterCache) (v : IngressView) : Option String :=
  match v.legacyClass?.bind IngressController.ofKnownClass? with
  | some controller => some controller
  | none =>
    match v.effectiveClass? with
    | some name => (c.ingressClass name).map ClassView.controller
    | none => c.defaultClass.map ClassView.controller

/-- Whether a supported controller serves an ingress. -/
def serves (c : ClusterCache) (v : IngressView) : Bool :=
  (c.controllerOf? v).any IngressController.isSupported

/-- Whether an opted-in resource of the namespace names a secret. -/
def isReferenced (c : ClusterCache) (s : SecretRef) : Bool :=
  let names := fun v : SecuredView => v.info.isOptedIn && !(v.blocksFor s.name).isEmpty
  (c.ingresses s.ns).any (fun v => names v.secured) ||
    (c.routes s.ns).any fun v => names v.secured

/-- The views of the resources of a cluster, in the order in which they are found. -/
structure Contents where
  /-- The ingresses. -/
  ingresses : List IngressView
  /-- The routes. -/
  routes : List RouteView
  /-- The classes. -/
  classes : List ClassView
  /-- The secrets. -/
  secrets : List SecretView

/-- The cache that looks up the first match among given views. -/
def ofContents (c : Contents) : ClusterCache where
  ingresses ns := c.ingresses.filter fun v => v.info.ns = ns
  routes ns := c.routes.filter fun v => v.info.ns = ns
  ingressClass name := c.classes.find? fun v => v.name = name
  defaultClass := c.classes.find? ClassView.isDefault
  secret r := c.secrets.find? fun v => v.ref = r

end ClusterCache

end IngressTls
