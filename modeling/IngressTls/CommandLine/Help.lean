import IngressTls.CommandLine.Reading
import IngressTls.Text.Terminal

set_option autoImplicit false

/-! # Help texts

The texts that explain the program and its commands. Every flag is listed with its variable
and the value that the variable has, except for the token, and with its usual value. Headings and
names are set off for a terminal. Unless the environment asks for it, the texts are shown without
control sequences, so that those in the value of a variable are left out as well.
-/

namespace IngressTls

namespace Flag

/-- What a flag is for. -/
def summary : Flag → String
  | controllerName => "Ownership label value and server-side apply field manager"
  | platformUrl => "Base URL of the platform API"
  | platformToken => "Bearer token for the platform API"
  | platformTimeout => "Timeout of every platform API call, in seconds"
  | quota => "Maximum number of secured routes; 0 disables the quota"
  | renewBefore => "Renew certificates with less than this many days of validity left"
  | renewalInterval => "Period of the renewal scan, in seconds"
  | reportInterval => "Period of the quota usage report, in seconds"
  | workers => "Number of concurrent issuance workers"
  | maxRetries => "Retries of a failing certificate request before it is dropped"
  | cacheSyncTimeout => "How long the initial cache sync may take, in seconds"

/-- The usual value of a flag, if it has one. -/
def usual? (f : Flag) : Option String :=
  let fs : Flags := {}
  match f with
  | controllerName => some fs.controllerName
  | platformUrl => fs.platformUrl
  | platformToken => fs.platformToken
  | platformTimeout => some (toString fs.platformTimeout)
  | quota => some (toString fs.quota)
  | renewBefore => some (toString fs.renewBeforeDays)
  | renewalInterval => some (toString fs.renewalInterval)
  | reportInterval => some (toString fs.reportInterval)
  | workers => some (toString fs.workers)
  | maxRetries => some (toString fs.maxRetries)
  | cacheSyncTimeout => some (toString fs.cacheSyncTimeout)

/-- A text of several lines, with the indentation of what is said about a flag. -/
def indented (s : String) : String :=
  String.join (s.toList.map fun c => if c = '\n' then "\n          " else String.singleton c)

/-- The lines about a flag. -/
def helpLines (environment : String → Option String) (f : Flag) : List String :=
  let value :=
    if f = platformToken then ""
    else "=" ++ indented ((environment f.environmentName).getD "")
  let usual := (f.usual?.map fun v => s!" [default: {v}]").getD ""
  ["      " ++ Text.bold ("--" ++ f.name) ++ s!" <{f.capitals}>",
   s!"          {f.summary} [env: {f.environmentName}{value}]{usual}"]

end Flag

namespace HelpPage

/-- A text of lines. -/
def ofLines (lines : List String) : String := String.join (lines.map (· ++ "\n"))

/-- What is said about the commands. -/
def commandSummary : Command → String
  | .controller => "Run the controller (default mode)"
  | .crd => "Print the platform IngressClass CRD manifest and exit"

/-- How a program or a command is called. -/
def usage (call rest : String) : String := Text.heading "Usage:" ++ " " ++ Text.bold call ++ rest

/-- The flag that asks for help. -/
def helpFlag : String := "  " ++ Text.bold "-h" ++ ", " ++ Text.bold "--help"

/-- The lines of a page, as they are set for a terminal. -/
def lines (environment : String → Option String) : HelpPage → List String
  | program =>
    ["certpilot - provisions and renews TLS certificates for opted-in ingresses",
      "", usage "certpilot" " [OPTIONS] [COMMAND]", "", Text.heading "Commands:",
      "  " ++ Text.bold "controller" ++ "  " ++ commandSummary .controller,
      "  " ++ Text.bold "crd" ++ "         " ++ commandSummary .crd,
      "  " ++ Text.bold "help" ++
        "        Print this message or the help of the given subcommand(s)", "",
      Text.heading "Options:"] ++
    Flag.all.flatMap (Flag.helpLines environment) ++
    [helpFlag, "          Print help",
      "  " ++ Text.bold "-V" ++ ", " ++ Text.bold "--version", "          Print version"]
  | command .controller true =>
    [commandSummary .controller, "",
      "Watches Ingresses, IngressRoutes, IngressClasses and Secrets, requests certificates " ++
        "for opted-in resources and renews them before expiry.",
      "", usage "certpilot controller" "", "", Text.heading "Options:", helpFlag,
      "          Print help (see a summary with '-h')"]
  | command .controller false =>
    [commandSummary .controller, "", usage "certpilot controller" "", "",
      Text.heading "Options:", helpFlag ++ "  Print help (see more with '--help')"]
  | command .crd _ =>
    [commandSummary .crd, "", usage "certpilot crd" "", "", Text.heading "Options:",
      helpFlag ++ "  Print help"]
  | help =>
    ["Print this message or the help of the given subcommand(s)", "",
      usage "certpilot help" " [COMMAND]...", "", Text.heading "Arguments:",
      "  [COMMAND]...  Print help for the subcommand(s)"]

/-- The variable that asks for control sequences where there is no terminal. -/
def forceVariable : String := "CLICOLOR_FORCE"

/-- The variable that asks for no control sequences at all, which comes first. -/
def forbidVariable : String := "NO_COLOR"

/-- Whether control sequences are shown where there is no terminal. An empty variable asks for
nothing, any other value does. -/
def isStyled (environment : String → Option String) : Bool :=
  let asks (name : String) : Bool := (environment name).any (!·.isEmpty)
  asks forceVariable && !asks forbidVariable

/-- The text of a page as it is shown where there is no terminal. -/
def text (environment : String → Option String) (page : HelpPage) : String :=
  let styled := ofLines (page.lines environment)
  if isStyled environment then styled else Text.plain styled

end HelpPage

end IngressTls
