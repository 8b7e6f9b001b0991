import IngressTls.ClusterAccess
import IngressTls.CommandLine.Help
import IngressTls.Manifest
import IngressTls.Telemetry

set_option autoImplicit false

/-! # Running the program

What the program prints and how it exits, up to the point where the controller talks to the
cluster. A mistake on the command line exits with 2, a failed start with 1, one that breaks off
with 101. Telemetry is set up before the settings are checked, and these before the cluster is
looked for.
-/

namespace IngressTls.CommandLine

/-- What a run of the program leaves behind. -/
structure Outcome where
  /-- The exit status. -/
  exit : Nat
  /-- What was printed. -/
  out : String
  /-- What was printed about failures. -/
  err : String
  deriving DecidableEq, Repr

/-- Where a run ends up. -/
inductive Run where
  /-- The program has ended. -/
  | ended (outcome : Outcome)
  /-- The controller is ready to be started. -/
  | ready (settings : Settings) (access : ClusterAccess)

/-- The name and the version. -/
def versionText : String := "certpilot 0.1.0\n"

/-- A start that failed. -/
def failed (message : String) : Outcome := ⟨1, "", s!"Error: {message}\n"⟩

/-- A start that broke off. -/
def brokenOff (message : String) : Outcome := ⟨101, "", message ++ "\n"⟩

/-- Starts the controller up to the way to the cluster. -/
def startUp (s : Surroundings) (flags : Flags) : Except Outcome (Settings × ClusterAccess) := do
  match (Telemetry.ofEnvironment s.environment).setUp s.environment false with
  | .error .traceQueue => throw (brokenOff TelemetryError.traceQueue.message)
  | .error e => throw (failed ("Failed to initialize telemetry: " ++ e.message))
  | .ok () => pure ()
  let settings ← (Settings.ofFlags flags).mapError fun e => failed e.message
  match ClusterAccess.infer s with
  | .error fault => throw (failed ("Failed to create Kubernetes client: " ++ fault))
  | .ok access => return (settings, access)

/-- Runs a command line. -/
def run (s : Surroundings) (args : List String) : Run :=
  match read s.environment args with
  | .error (.help page) => .ended ⟨0, page.text s.environment, ""⟩
  | .error .version => .ended ⟨0, versionText, ""⟩
  | .error _ => .ended ⟨2, "", ""⟩
  | .ok (.crd, _) => .ended ⟨0, ResourceDefinition.platformClass.manifestYaml ++ "\n", ""⟩
  | .ok (.controller, flags) =>
    match startUp s flags with
    | .error outcome => .ended outcome
    | .ok (settings, access) => .ready settings access

end IngressTls.CommandLine
