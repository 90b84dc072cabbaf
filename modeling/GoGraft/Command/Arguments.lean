import GoGraft.Text.Basic

/-! The arguments of the command. Options may stand before, after and between the paths; all that
follows a double dash is a path. The first argument that asks for help, or cannot be understood,
decides. -/

namespace GoGraft.Command

structure Options where
  paths : List Text := []
  suffix : Option Text := none
  check : Bool := false
  json : Bool := false
  deriving DecidableEq, Repr

inductive Request where
  | run (options : Options)
  | help
  | version
  | invalid
  deriving DecidableEq, Repr

/-- A long option with the value that is joined to it, if one is. -/
def splitLong (body : Text) : Text × Option Text :=
  match Text.splitAt? ['='] body with
  | some (name, value) => (name, some value)
  | none => (body, none)

/-- Whether an argument cannot be the value of an option. -/
def isOption : Text → Bool
  | '-' :: _ :: _ => true
  | _ => false

/-- Letters behind a single dash: what they ask for, unless they only ask for more messages. -/
def readLetters : Text → Option Request
  | [] => none
  | 'v' :: rest => readLetters rest
  | 'h' :: _ => some .help
  | 'V' :: _ => some .version
  | _ => some .invalid

def finish (options : Options) : Request :=
  if options.paths.isEmpty ∨ options.paths.any List.isEmpty then .invalid else .run options

inductive LongOption where
  | suffix
  | check
  | json
  | verbose
  | help
  | version
  deriving DecidableEq, Repr

def LongOption.ofName? (name : Text) : Option LongOption :=
  if name = "suffix".toList then some .suffix
  else if name = "check".toList then some .check
  else if name = "json".toList then some .json
  else if name = "verbose".toList then some .verbose
  else if name = "help".toList then some .help
  else if name = "version".toList then some .version
  else none

/-- Reads the arguments that are left. The suffix, and each of the other options that may be set
only once, must not come a second time. -/
def readArguments (options : Options) : List Text → Request
  | [] => finish options
  | argument :: rest =>
    match argument with
    | [] => .invalid
    | ['-', '-'] => finish { options with paths := options.paths ++ rest }
    | '-' :: '-' :: body =>
      let (name, value) := splitLong body
      match LongOption.ofName? name, value, rest with
      | some .suffix, some value, rest =>
        if options.suffix.isSome then .invalid
        else readArguments { options with suffix := some value } rest
      | some .suffix, none, value :: rest =>
        if options.suffix.isSome ∨ isOption value then .invalid
        else readArguments { options with suffix := some value } rest
      | some .check, none, rest =>
        if options.check then .invalid else readArguments { options with check := true } rest
      | some .json, none, rest =>
        if options.json then .invalid else readArguments { options with json := true } rest
      | some .verbose, none, rest => readArguments options rest
      | some .help, none, _ => .help
      | some .version, none, _ => .version
      | _, _, _ => .invalid
    | '-' :: c :: letters =>
      match readLetters (c :: letters) with
      | some request => request
      | none => readArguments options rest
    | _ => readArguments { options with paths := options.paths ++ [argument] } rest

def Request.ofArguments (arguments : List Text) : Request :=
  readArguments {} arguments

end GoGraft.Command
