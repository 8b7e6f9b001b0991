import IngressTls.Error
import IngressTls.Manager.Basic
import IngressTls.Text.Blank

set_option autoImplicit false

/-! # Settings

The flags that the controller is started with, and the settings that they make once they have
been checked. Names and credentials are trimmed, the platform's URL loses its trailing slashes,
and every period must be positive. The first fault in a fixed order is the one reported.
-/

namespace IngressTls

/-- The flags as they were given, with the usual values for those that were not. -/
structure Flags where
  /-- The ownership label of managed secrets. -/
  controllerName : String := Wire.defaultControllerName
  /-- The base URL of the platform. -/
  platformUrl : Option String := none
  /-- The bearer token for the platform. -/
  platformToken : Option String := none
  /-- The time limit of a call to the platform, in seconds. -/
  platformTimeout : Nat := 5
  /-- The number of hosts that may be secured; 0 switches the quota off. -/
  quota : Int := 0
  /-- Certificates with fewer days of validity left are renewed. -/
  renewBeforeDays : Nat := 30
  /-- The period of the renewal scan, in seconds. -/
  renewalInterval : Nat := 3600
  /-- The period of the usage report, in seconds. -/
  reportInterval : Nat := 10
  /-- The number of workers. -/
  workers : Nat := 4
  /-- How often a failing request is tried again. -/
  maxRetries : Nat := 10
  /-- How long the first listings may take, in seconds. -/
  cacheSyncTimeout : Nat := 120
  deriving DecidableEq, Repr

/-- Checked settings. -/
structure Settings where
  /-- The ownership label of managed secrets. -/
  controllerName : String
  /-- The base URL of the platform, without a trailing slash. -/
  platformUrl : String
  /-- The bearer token for the platform. -/
  platformToken : String
  /-- The time limit of a call to the platform, in seconds. -/
  platformTimeout : Nat
  /-- The number of hosts that may be secured; 0 switches the quota off. -/
  quota : Int
  /-- Certificates with less validity left are renewed, in seconds. -/
  renewBefore : Nat
  /-- The period of the renewal scan, in seconds. -/
  renewalInterval : Nat
  /-- The period of the usage report, in seconds. -/
  reportInterval : Nat
  /-- The number of workers. -/
  workers : Nat
  /-- How often a failing request is tried again. -/
  maxRetries : Nat
  /-- How long the first listings may take, in seconds. -/
  cacheSyncTimeout : Nat
  deriving DecidableEq, Repr

namespace Settings

/-- The longest time span that can be set, in seconds. -/
def longest : Nat := UInt64.size - 1

/-- The seconds of a number of days, up to the longest span. -/
def secondsOfDays (days : Nat) : Nat := min (days * (24 * 3600)) longest

/-- A text that must be there and not blank, trimmed. -/
def needed (flag : String) (value : Option String) : Except Error String :=
  match value.map Text.trim with
  | some v => if v.isEmpty then .error (.validation s!"--{flag} is required") else .ok v
  | none => .error (.validation s!"--{flag} is required")

/-- A period that must be positive. -/
def positive (flag : String) (seconds : Nat) : Except Error Nat :=
  if seconds = 0 then .error (.validation s!"--{flag} must be greater than 0") else .ok seconds

/-- Whether a text starts like a web address. -/
def isWebAddress (url : String) : Bool :=
  "http://".toList.isPrefixOf url.toList || "https://".toList.isPrefixOf url.toList

/-- A text without its trailing slashes. -/
def withoutSlash (url : String) : String :=
  String.ofList (url.toList.reverse.dropWhile (· = '/')).reverse

/-- Checks the flags. -/
def ofFlags (f : Flags) : Except Error Settings := do
  let controllerName := Text.trim f.controllerName
  if controllerName.isEmpty then
    throw (.validation "--controller-name must not be empty")
  let url ← needed "platform-url" f.platformUrl
  if !isWebAddress url then
    throw (.validation s!"--platform-url must be an http(s) URL, got {url}")
  let token ← needed "platform-token" f.platformToken
  if f.quota < 0 then
    throw (.validation "--secured-routes-quota must not be negative")
  if f.workers = 0 then
    throw (.validation "--workers must be at least 1")
  let platformTimeout ← positive "platform-timeout-secs" f.platformTimeout
  let renewalInterval ← positive "renewal-interval-secs" f.renewalInterval
  let reportInterval ← positive "report-interval-secs" f.reportInterval
  let cacheSyncTimeout ← positive "cache-sync-timeout-secs" f.cacheSyncTimeout
  return {
    controllerName, platformUrl := withoutSlash url, platformToken := token, platformTimeout
    quota := f.quota, renewBefore := secondsOfDays f.renewBeforeDays, renewalInterval
    reportInterval, workers := f.workers, maxRetries := f.maxRetries, cacheSyncTimeout }

/-- What the manager is set to. -/
def manager (s : Settings) : ManagerSettings where
  controllerName := s.controllerName
  renewBefore := s.renewBefore
  renewalInterval := s.renewalInterval
  workers := s.workers
  maxRetries := s.maxRetries

end Settings

end IngressTls
