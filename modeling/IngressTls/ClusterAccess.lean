import IngressTls.Text.Integer
import IngressTls.Text.IpAddress
import IngressTls.Text.Quoted
import IngressTls.Text.Split
import IngressTls.Text.Uri

set_option autoImplicit false

/-! # Access to the cluster

How the way to the API server is looked for: first in configuration files of the user, then
in what a pod is told about its cluster. If both fail, both reasons are given. Files that are
all empty name no cluster; what stands in others is not looked at here.
-/

namespace IngressTls

/-- What can be seen of the machine. -/
structure Surroundings where
  /-- The value of a variable. -/
  environment : String → Option String
  /-- What stands in a file, or why it cannot be read. -/
  file : String → Except String String

/-- Where an API server was found. -/
inductive ClusterAccess where
  /-- In configuration files. -/
  | configured (paths : List String)
  /-- In the pod's surroundings. -/
  | inCluster (address : String)
  deriving DecidableEq, Repr

namespace ClusterAccess

/-- A file below a directory. -/
def below (directory file : String) : String :=
  if directory.isEmpty || directory.endsWith "/" then directory ++ file
  else directory ++ "/" ++ file

/-- The configuration files of the user: those of a list of paths, or the usual one. -/
def paths (environment : String → Option String) : List String :=
  let listed := ((environment "KUBECONFIG").map fun v =>
    ((Text.splitAt ':' v.toList).map String.ofList).filter (!·.isEmpty)).getD []
  if listed.isEmpty then [below ((environment "HOME").getD "/root") ".kube/config"] else listed

/-- Reads a configuration file. -/
def readFile (s : Surroundings) (path : String) : Except String String :=
  match s.file path with
  | .ok content => .ok content
  | .error fault => .error s!"failed to read kubeconfig from '{Text.quoted path}': {fault}"

/-- Looks for configuration files; all of a list must be readable. -/
def ofFiles (s : Surroundings) : Except String ClusterAccess := do
  let contents ← (paths s.environment).mapM (readFile s)
  if contents.all String.isEmpty then throw "failed to determine current context"
  return .configured (paths s.environment)

/-- The directory with what a pod is told about its cluster. -/
def podDirectory : String := "/var/run/secrets/kubernetes.io/serviceaccount"

/-- The file that names the namespace of a pod. -/
def namespaceFile : String := below podDirectory "namespace"

/-- The address of an API server. An IPv6 address stands in brackets, and the usual port of
secure connections is left out. -/
def address (host : String) (number : Nat) : String :=
  let host := if Text.isIpv6 host.toList then "[" ++ host ++ "]" else host
  if number = 443 then "https://" ++ host else s!"https://{host}:{number}"

/-- Looks at the surroundings of a pod. -/
def ofPod (s : Surroundings) : Except String ClusterAccess := do
  let variableText (name : String) : Except String String :=
    match s.environment name with
    | some v => .ok v
    | none =>
      .error "failed to read an incluster environment variable: environment variable not found"
  let host ← variableText "KUBERNETES_SERVICE_HOST"
  let socket ← variableText "KUBERNETES_SERVICE_PORT"
  match Text.readInt .nat16 socket.toList with
  | .error fault => throw ("failed to parse cluster port: " ++ fault.message)
  | .ok number =>
    let address := address host number.toNat
    match Text.uriFault? address.toUTF8.toList with
    | some fault => throw ("failed to parse cluster url: " ++ fault.message)
    | none =>
      match s.file namespaceFile with
      | .error fault => throw ("failed to read the default namespace: " ++ fault)
      | .ok _ => return .inCluster address

/-- Looks for a way to the API server. -/
def infer (s : Surroundings) : Except String ClusterAccess :=
  match ofFiles s with
  | .ok access => .ok access
  | .error fault =>
    match ofPod s with
    | .ok access => .ok access
    | .error podFault =>
      .error <| "Failed to infer configuration: failed to infer config: " ++
        s!"in-cluster: ({podFault}), kubeconfig: ({fault})"

end ClusterAccess

end IngressTls
