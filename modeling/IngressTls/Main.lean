import IngressTls.CommandLine.Run
import IngressTls.FileTree

set_option autoImplicit false

/-! # The program

Looks at the machine, runs the command line and prints what comes of it. The controller itself
needs a connection to an API server, which this program does not open.
-/

open IngressTls

/-- The variables that a run may look at. -/
def knownVariables : List String :=
  ["KUBECONFIG", "HOME", "KUBERNETES_SERVICE_HOST", "KUBERNETES_SERVICE_PORT"] ++
    [HelpPage.forceVariable, HelpPage.forbidVariable] ++
    Telemetry.variableNames ++ Flag.all.map Flag.environmentName

/-- The values of the known variables that are set. -/
def readEnvironment : IO (List (String × String)) :=
  knownVariables.filterMapM fun name => do return (← IO.getEnv name).map (name, ·)

/-- The wording of a failure to read a file. -/
def readFaultText : IO.Error → String
  | .noFileOrDirectory .. => FileFault.missing.message
  | .inappropriateType _ code _ =>
    if code = 21 then FileFault.isDirectory.message else FileFault.notDirectory.message
  | .invalidArgument .. => FileFault.nameTooLong.message
  | e => toString e

/-- What stands in the known files, or why they cannot be read. -/
def readFiles (paths : List String) : IO (List (String × Except String String)) :=
  paths.mapM fun (path : String) => do
    match ← (IO.FS.readFile path).toBaseIO with
    | .ok content => return (path, .ok content)
    | .error e => return (path, .error (readFaultText e))

/-- Runs the program. -/
def main (args : List String) : IO UInt32 := do
  let values ← readEnvironment
  let environment (name : String) : Option String := values.lookup name
  let files ← readFiles (ClusterAccess.namespaceFile :: ClusterAccess.paths environment)
  let file (path : String) : Except String String :=
    (files.lookup path).getD (.error FileFault.missing.message)
  match CommandLine.run ⟨environment, file⟩ args with
  | .ended outcome =>
    IO.print outcome.out
    IO.eprint outcome.err
    return outcome.exit.toUInt32
  | .ready _ _ =>
    IO.eprintln "Error: no connection to the cluster can be opened"
    return 1
