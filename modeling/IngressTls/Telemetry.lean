import IngressTls.Text.Integer
import IngressTls.Text.Uri
import IngressTls.Wire

set_option autoImplicit false

/-! # Telemetry

Where traces and metrics are sent, and the ways in which setting this up can fail. If there is
an endpoint, an exporter of metrics is built first and one of traces second. Each looks at the
environment once more: a compression that is asked for there is never at hand, and an endpoint
that is named there for its own kind of data takes the place of the common one. The
compression is looked at before the endpoint.
-/

namespace IngressTls

/-- Failures while telemetry is set up. -/
inductive TelemetryError where
  /-- The exporter of traces could not be built. -/
  | tracer (message : String)
  /-- The exporter of metrics could not be built. -/
  | metrics (message : String)
  /-- The log subscriber could not be installed. -/
  | subscriber (message : String)
  /-- The queue of traces that wait for their export cannot have the size that is asked for. -/
  | traceQueue
  deriving DecidableEq, Repr

/-- The wording of a failure. -/
def TelemetryError.message : TelemetryError → String
  | tracer m => "failed to initialize tracer: " ++ m
  | metrics m => "failed to initialize metrics exporter: " ++ m
  | subscriber m => "failed to initialize tracing subscriber: " ++ m
  | traceQueue => "the queue of traces cannot have that size"

/-- The kinds of data that are exported. -/
inductive Signal where
  | metrics | traces
  deriving DecidableEq, Repr

/-- The variable that sets something for all exporters. -/
def Signal.commonVariable (setting : String) : String := "OTEL_EXPORTER_OTLP_" ++ setting

/-- The variable that sets something for one kind of data. -/
def Signal.variable (s : Signal) (setting : String) : String :=
  commonVariable ((match s with | metrics => "METRICS_" | traces => "TRACES_") ++ setting)

/-- What is set for one kind of data, by its own variable or by the common one. -/
def Signal.setting (s : Signal) (environment : String → Option String) (name : String) :
    Option String :=
  (environment (s.variable name)).or (environment (commonVariable name))

/-- Why an exporter cannot be built. -/
inductive ExporterFault where
  /-- A compression is asked for that this program was built without. -/
  | missingCompression (algorithm : String)
  /-- A compression is asked for that does not exist. -/
  | unknownCompression (algorithm : String)
  /-- The endpoint is no identifier of a server. -/
  | badEndpoint (fault : Text.UriFault)
  deriving DecidableEq, Repr

/-- The wording of a fault. -/
def ExporterFault.message : ExporterFault → String
  | missingCompression a =>
    "feature '" ++ a ++ "-tonic' is required to use the compression algorithm '" ++ a ++ "'"
  | unknownCompression a => "unsupported compression algorithm '" ++ a ++ "'"
  | badEndpoint fault => "invalid URI " ++ fault.message

/-- Why the exporter of a kind of data cannot be built, if it cannot. -/
def Signal.exporterFault? (s : Signal) (environment : String → Option String)
    (endpoint : String) : Option ExporterFault :=
  match s.setting environment "COMPRESSION" with
  | some a =>
    some (if a = "gzip" || a = "zstd" then .missingCompression a else .unknownCompression a)
  | none =>
    let endpoint := (s.setting environment "ENDPOINT").getD endpoint
    (Text.uriFault? endpoint.toUTF8.toList).map .badEndpoint

/-- What telemetry is set to. -/
structure Telemetry where
  /-- The name under which traces and metrics are sent. -/
  serviceName : String
  /-- Where they are sent, if anywhere. -/
  endpoint : Option String
  deriving DecidableEq, Repr

namespace Telemetry

/-- The variable that names the endpoint. -/
def endpointVariable : String := Signal.commonVariable "ENDPOINT"

/-- The variable that says how many traces may wait for their export. -/
def queueVariable : String := "OTEL_BSP_MAX_QUEUE_SIZE"

/-- The variables that are looked at. -/
def variableNames : List String :=
  queueVariable :: ["ENDPOINT", "COMPRESSION"].flatMap fun name =>
    [Signal.commonVariable name, Signal.metrics.variable name, Signal.traces.variable name]

/-- The size of the queue of traces. A text that is no number of 64 bits asks for nothing. -/
def queueSize (environment : String → Option String) : Int :=
  ((environment queueVariable).bind fun v =>
    (Text.readInt .nat64 v.toList).toOption).getD 2048

/-- The largest size that the queue can have. -/
def largestQueue : Int := 2305843009213693951

/-- Telemetry under the usual name, to where the environment says. -/
def ofEnvironment (environment : String → Option String) : Telemetry :=
  ⟨Wire.defaultControllerName, environment endpointVariable⟩

/-- Builds the exporters, and last the queue of traces. -/
def buildExporters (environment : String → Option String) (endpoint : String) :
    Except TelemetryError Unit := do
  match Signal.metrics.exporterFault? environment endpoint with
  | some fault => throw (.metrics ("Metrics exporter otlp failed with " ++ fault.message))
  | none => pure ()
  match Signal.traces.exporterFault? environment endpoint with
  | some fault =>
    throw (.tracer ("Exporter otlp encountered the following error(s): " ++ fault.message))
  | none => pure ()
  let size := queueSize environment
  if size = 0 || largestQueue < size then throw .traceQueue

/-- Sets telemetry up. Only one log subscriber can be installed in a process. -/
def setUp (t : Telemetry) (environment : String → Option String) (hasSubscriber : Bool) :
    Except TelemetryError Unit := do
  match t.endpoint with
  | some endpoint => buildExporters environment endpoint
  | none => pure ()
  if hasSubscriber then
    throw (.subscriber "a global default trace dispatcher has already been set")

end Telemetry

end IngressTls
