import IngressTls.CommandLine.Flag

set_option autoImplicit false

/-! # Reading a command line

Arguments are taken one by one. A flag has its value behind an equals sign or as the next
argument, whatever that is unless it starts with a dash; a value behind an equals sign is
looked at once, a detached one when the next flag or the end comes. After `--` there are
only plain arguments. Where a command may be given, the first plain argument is it, and what
follows belongs to the command. A flag that is not on the command line is taken from the
environment last, even if it is empty there.
-/

namespace IngressTls

/-- What the program can be told to do. -/
inductive Command where
  /-- Run the controller. -/
  | controller
  /-- Print the manifest of the ingress class. -/
  | crd
  deriving DecidableEq, Repr

/-- The command of a name. -/
def Command.ofName? (name : String) : Option Command :=
  if name = "controller" then some controller
  else if name = "crd" then some crd
  else none

/-- The texts that explain the command line. -/
inductive HelpPage where
  /-- The flags and the commands. -/
  | program
  /-- A command, in full or in short. -/
  | command (c : Command) (full : Bool)
  /-- The command that prints these texts. -/
  | help
  deriving DecidableEq, Repr

/-- Why reading a command line stops. The first two ask for a text and are no mistakes. -/
inductive UsageStop where
  /-- A text of explanation is asked for. -/
  | help (page : HelpPage)
  /-- The version is asked for. -/
  | version
  /-- A value does not fit its flag. -/
  | badValue
  /-- A flag has no value. -/
  | missingValue
  /-- A flag is given twice. -/
  | repeated
  /-- A value follows where none is taken. -/
  | needlessValue
  /-- An argument is not known. -/
  | unknownArgument
  deriving DecidableEq, Repr

namespace CommandLine

/-- The forms of an argument that starts with a dash. -/
inductive Shape where
  /-- Two dashes alone: what follows is plain. -/
  | divider
  /-- A long name, with a value if an equals sign follows. -/
  | long (name : String) (value : Option String)
  /-- A short name of one character, and what is written behind it. -/
  | short (name : Char)
  /-- Anything else. -/
  | plain

/-- The form of an argument. -/
def shapeOf (arg : String) : Shape :=
  match arg.toList with
  | ['-', '-'] => .divider
  | '-' :: '-' :: cs =>
    let value : Option String :=
      match cs.dropWhile (· ≠ '=') with
      | [] => none
      | _ :: v => some (String.ofList v)
    .long (String.ofList (cs.takeWhile (· ≠ '='))) value
  | '-' :: c :: _ => .short c
  | _ => .plain

/-- A flag that is waiting to be set: it has no value yet, or one that is not looked at yet. -/
inductive Pending where
  | flag (f : Flag)
  | value (f : Flag) (text : String)

/-- What has been read. -/
structure Reading where
  /-- The flags so far. -/
  flags : Flags := {}
  /-- The ones that are set. -/
  given : List Flag := []
  /-- The one that is to be set next. -/
  pending : Option Pending := none
  /-- Whether only plain arguments may follow. -/
  divided : Bool := false

namespace Reading

/-- Sets a flag. -/
def set (r : Reading) (f : Flag) (text : String) : Except UsageStop Reading :=
  if r.given.contains f then .error .repeated
  else match r.flags.set? f text with
  | none => .error .badValue
  | some flags => .ok { r with flags, given := f :: r.given }

/-- Sets the flag that waits. -/
def settle (r : Reading) : Except UsageStop Reading :=
  let rest := { r with pending := none }
  match r.pending with
  | none => .ok rest
  | some (.flag _) => .error .missingValue
  | some (.value f text) => rest.set f text

/-- Settles what waits and then stops. -/
def stop (r : Reading) (s : UsageStop) : Except UsageStop Reading := do
  let _ ← r.settle
  throw s

/-- Takes an argument. The version can be asked for only where there is one. -/
def take (versioned : Bool) (r : Reading) (arg : String) : Except UsageStop Reading :=
  if r.divided then .error .unknownArgument
  else match shapeOf arg with
  | .divider => .ok { r with divided := true }
  | .long name value =>
    match Flag.ofName? name, value with
    | some f, some text => do (← r.settle).set f text
    | some f, none => do return { ← r.settle with pending := some (.flag f) }
    | none, value =>
      let known (s : UsageStop) := if value.isSome then .error .needlessValue else r.stop s
      if name = "help" then known (.help .program)
      else if versioned && name = "version" then known .version
      else .error .unknownArgument
  | .short c =>
    if c = 'h' then r.stop (.help .program)
    else if versioned && c = 'V' then r.stop .version
    else .error .unknownArgument
  | .plain =>
    match r.pending with
    | some (.flag f) => .ok { r with pending := some (.value f arg) }
    | _ => .error .unknownArgument

/-- Ends the reading: settles what waits, then fills in from the environment. -/
def finish (environment : String → Option String) (r : Reading) : Except UsageStop Flags := do
  let r ← r.settle
  let missing := Flag.all.filter fun f => !r.given.contains f
  let r ← missing.foldlM (fun r f =>
    match environment f.environmentName with
    | some text => r.set f text
    | none => .ok r) r
  return r.flags

/-- Whether the next plain argument is a value. -/
def awaitsValue (r : Reading) : Bool := r.pending matches some (.flag _)

end Reading

/-- Reads a command line that holds flags only. -/
def readFlags (environment : String → Option String) (args : List String) :
    Except UsageStop Flags := do
  (← args.foldlM (Reading.take false) {}).finish environment

/-- Reads what follows a command. Commands have no flags of their own. -/
def readCommandRest (c : Command) : List String → Except UsageStop Unit
  | [] => .ok ()
  | arg :: args =>
    match shapeOf arg with
    | .divider => if args.isEmpty then .ok () else .error .unknownArgument
    | .long "help" none => .error (.help (.command c true))
    | .long "help" (some _) => .error .needlessValue
    | .short 'h' => .error (.help (.command c false))
    | _ => .error .unknownArgument

/-- Reads what follows the command that explains commands. -/
def readHelpTopic : List String → UsageStop
  | [] => .help .program
  | ["help"] => .help .help
  | [topic] =>
    match Command.ofName? topic with
    | some c => .help (.command c true)
    | none => .unknownArgument
  | _ => .unknownArgument

/-- Reads arguments up to a command and the command. -/
def readArguments (r : Reading) : List String → Except UsageStop (Option Command × Reading)
  | [] => .ok (none, r)
  | arg :: args =>
    if r.divided || r.awaitsValue then do readArguments (← r.take true arg) args
    else if arg = "help" then .error (readHelpTopic args)
    else match Command.ofName? arg with
    | some command => do
      readCommandRest command args
      return (some command, r)
    | none => do readArguments (← r.take true arg) args

/-- Reads a command line. Without a command the controller is run. -/
def read (environment : String → Option String) (args : List String) :
    Except UsageStop (Command × Flags) := do
  let (command, r) ← readArguments {} args
  return (command.getD .controller, ← r.finish environment)

end CommandLine

end IngressTls
