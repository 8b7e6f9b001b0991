set_option autoImplicit false

/-! # Ingress controllers

The controllers that serve ingresses, by name. A few ingress classes are known without a
class object, because an annotation names them; certificates are only requested for the
ingresses of supported controllers.
-/

namespace IngressTls.IngressController

/-- The class names that stand for a controller without a class object. -/
def knownClasses : List (String × String) :=
  [("traefik", "traefik.io/ingress-controller"),
   ("nginx", "k8s.io/ingress-nginx"),
   ("haproxy", "haproxy-ingress.github.io/controller")]

/-- The controllers whose ingresses get certificates. -/
def supported : List String :=
  ["traefik.io/ingress-controller",
   "k8s.io/ingress-nginx",
   "nginx.org/ingress-controller",
   "haproxy-ingress.github.io/controller",
   "haproxy.org/ingress-controller"]

/-- The controller that a known class name stands for. -/
def ofKnownClass? (className : String) : Option String := knownClasses.lookup className

/-- Whether a controller's ingresses get certificates. -/
def isSupported (controller : String) : Bool := supported.contains controller

end IngressTls.IngressController
