import IngressTls.Settings
import IngressTls.Text.Integer

set_option autoImplicit false

/-! # Flags by name

Every flag has a name on the command line and a variable in the environment, and takes one
value: a text, or an integer of a fixed range.
-/

namespace IngressTls

/-- The flags. -/
inductive Flag where
  | controllerName | platformUrl | platformToken | platformTimeout | quota | renewBefore
  | renewalInterval | reportInterval | workers | maxRetries | cacheSyncTimeout
  deriving DecidableEq, Repr

namespace Flag

/-- All flags. -/
def all : List Flag :=
  [controllerName, platformUrl, platformToken, platformTimeout, quota, renewBefore,
    renewalInterval, reportInterval, workers, maxRetries, cacheSyncTimeout]

/-- The name behind the two dashes. -/
def name : Flag → String
  | controllerName => "controller-name"
  | platformUrl => "platform-url"
  | platformToken => "platform-token"
  | platformTimeout => "platform-timeout-secs"
  | quota => "secured-routes-quota"
  | renewBefore => "renew-before-days"
  | renewalInterval => "renewal-interval-secs"
  | reportInterval => "report-interval-secs"
  | workers => "workers"
  | maxRetries => "max-retries"
  | cacheSyncTimeout => "cache-sync-timeout-secs"

/-- The flag of a name. -/
def ofName? (name : String) : Option Flag := all.find? (·.name = name)

/-- The name in capitals, with underscores. -/
def capitals (f : Flag) : String :=
  String.ofList (f.name.toList.map fun c => if c = '-' then '_' else c.toUpper)

/-- The variable that stands for the flag where it is not given. -/
def environmentName (f : Flag) : String := "CERTPILOT_" ++ f.capitals

end Flag

/-- The flags with one of them set from a text, if the text is a value of that flag. The number
of retries is read as a signed integer, so that `-0` stands for none. -/
def Flags.set? (fs : Flags) (f : Flag) (text : String) : Option Flags :=
  let integer (r : Text.IntRange) : Option Int := (Text.readInt r text.toList).toOption
  let natural (r : Text.IntRange) : Option Nat := (integer r).map Int.toNat
  match f with
  | .controllerName => some { fs with controllerName := text }
  | .platformUrl => some { fs with platformUrl := some text }
  | .platformToken => some { fs with platformToken := some text }
  | .platformTimeout => (natural .nat64).map fun n => { fs with platformTimeout := n }
  | .quota => (integer .int64).map fun n => { fs with quota := n }
  | .renewBefore => (natural .nat64).map fun n => { fs with renewBeforeDays := n }
  | .renewalInterval => (natural .nat64).map fun n => { fs with renewalInterval := n }
  | .reportInterval => (natural .nat64).map fun n => { fs with reportInterval := n }
  | .workers => (natural .nat64).map fun n => { fs with workers := n }
  | .maxRetries =>
    ((integer .int64).filter (Text.IntRange.has .nat32)).map fun n =>
      { fs with maxRetries := n.toNat }
  | .cacheSyncTimeout => (natural .nat64).map fun n => { fs with cacheSyncTimeout := n }

end IngressTls
