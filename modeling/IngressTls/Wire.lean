set_option autoImplicit false

/-! # Names on the wire

The labels, annotations, types and payload keys by which resources and secrets carry what
the controller knows about them.
-/

namespace IngressTls.Wire

/-- The annotation that opts a resource into certificate management. -/
def enableKey : String := "certpilot.dev/enable-certificates"

/-- The label that says which controller owns a secret. -/
def managedByLabel : String := "app.kubernetes.io/managed-by"

/-- The controller name if none is configured. -/
def defaultControllerName : String := "certpilot"

/-- The annotation that records the hosts a managed secret covers, joined by commas. -/
def domainsKey : String := "certpilot.dev/certificate-domains"

/-- The annotation that records the start of validity in Unix seconds. -/
def notBeforeKey : String := "certpilot.dev/certificate-not-before"

/-- The annotation that records the end of validity in Unix seconds. -/
def notAfterKey : String := "certpilot.dev/certificate-not-after"

/-- The type of a secret that holds a certificate and its key. -/
def tlsSecretType : String := "kubernetes.io/tls"

/-- The payload key of the certificate chain. -/
def certificateEntry : String := "tls.crt"

/-- The payload key of the private key. -/
def privateKeyEntry : String := "tls.key"

/-- The annotation that named the ingress class before the specification did. -/
def legacyClassKey : String := "kubernetes.io/ingress.class"

/-- The annotation that makes an ingress class the default one. -/
def defaultClassKey : String := "ingressclass.kubernetes.io/is-default-class"

/-- Whether annotations opt a resource in. -/
def isOptedIn (find? : String → Option String) : Bool :=
  find? enableKey = some "true"

end IngressTls.Wire
