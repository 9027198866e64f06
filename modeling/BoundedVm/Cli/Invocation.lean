import BoundedVm.Text.Decimal

/-! # Command lines

The arguments of the program: two options for all commands, then the command with its own arguments.
An option value stands after the option or, behind an equals sign, in the same argument; options may
not be repeated; after two dashes every argument is positional. Arguments are judged from the left, so
that the first fault, or the first request for help or for the version, decides. -/

namespace BoundedVm

namespace Cli

/-- What the program is asked to do. -/
inductive Command where
  | limits
  /-- Shows a payload; the source is its text, or `-` for standard input. -/
  | hash (source : String)
  /-- Checks the witnesses of a payload against a snapshot file. -/
  | verify (source : String) (snapshot : Option String)
  /-- Clones and compares a nested struct. -/
  | stress (depth width : Nat)

/-- A command line. -/
structure Invocation where
  /-- The file with the limits. -/
  limitsFile : Option String
  verbose : Bool
  command : Command

/-- Why a command line is not carried out. -/
inductive Exit where
  | usage
  | help
  | version

/-- Whether an argument cannot be the value of an option, because it begins like an option itself. -/
def looksLikeOption (arg : String) : Bool :=
  arg.startsWith "-" && arg != "-"

/-- The name of a long option and the value attached to it by an equals sign. -/
def splitOption (arg : String) : String × Option String :=
  match arg.toList.span (· != '=') with
  | (name, '=' :: value) => (String.ofList name, some (String.ofList value))
  | (name, _) => (String.ofList name, none)

/-! ## Arguments of a command -/

/-- An option of a command and the values it takes. -/
structure OptionRule where
  name : String
  accepts : String → Bool

/-- The arguments of a command found so far. -/
structure Found where
  positional : List String
  options : List (String × String)

/-- Adds the value of an option, unless it has one or does not take this one. -/
def Found.addOption (found : Found) (rule : OptionRule) (value : String) : Except Exit Found :=
  if (found.options.lookup rule.name).isSome || !rule.accepts value then .error .usage
  else .ok { found with options := (rule.name, value) :: found.options }

/-- Collects the arguments of a command that has the given options and at most `room` positional
arguments. `escaped` holds after two dashes. -/
def collect (rules : List OptionRule) (room : Nat) (found : Found) (escaped : Bool) :
    List String → Except Exit Found
  | [] => .ok found
  | arg :: rest =>
    if escaped || !looksLikeOption arg then
      if found.positional.length < room then
        collect rules room { found with positional := found.positional ++ [arg] } escaped rest
      else .error .usage
    else if arg = "--" then collect rules room found true rest
    else if arg = "--help" || arg.startsWith "-h" then .error .help
    else
      let (name, attached) := splitOption arg
      match rules.find? (·.name = name) with
      | none => .error .usage
      | some rule =>
        match attached, rest with
        | some value, rest =>
          match found.addOption rule value with
          | .ok found => collect rules room found false rest
          | .error e => .error e
        | none, value :: rest =>
          if looksLikeOption value then .error .usage
          else
            match found.addOption rule value with
            | .ok found => collect rules room found false rest
            | .error e => .error e
        | none, [] => .error .usage

/-- The largest count that an option takes lies below this. -/
def countBound : Nat := UInt64.size

/-- The count that an option value writes. -/
def count? (value : String) : Option Nat := Decimal.readBelow? countBound value.toList

/-- The count given by an option, or its default. -/
def countOption (found : Found) (name : String) (default : Nat) : Nat :=
  ((found.options.lookup name).bind count?).getD default

/-- The command with a name and its arguments. -/
def command (name : String) (args : List String) : Except Exit Command :=
  let start : Found := ⟨[], []⟩
  match name with
  | "limits" => (collect [] 0 start false args).map fun _ => .limits
  | "hash" => (collect [] 1 start false args).map fun found => .hash (found.positional.headD "-")
  | "verify" =>
    match collect [⟨"--snapshot", fun _ => true⟩] 1 start false args with
    | .ok found =>
      match found.positional with
      | source :: _ => .ok (.verify source (found.options.lookup "--snapshot"))
      | [] => .error .usage
    | .error e => .error e
  | "stress" =>
    let accepts := fun value => (count? value).isSome
    (collect [⟨"--depth", accepts⟩, ⟨"--width", accepts⟩] 0 start false args).map fun found =>
      .stress (countOption found "--depth" 16) (countOption found "--width" 4)
  | "help" =>
    match args with
    | [] => .error .help
    | [topic] =>
      if topic ∈ ["limits", "hash", "verify", "stress", "help"] then .error .help
      else .error .usage
    | _ => .error .usage
  | _ => .error .usage

/-! ## The whole line -/

/-- The verbose flag after a cluster of one-letter options. -/
def readFlags (verbose : Bool) : List Char → Except Exit Bool
  | [] => .ok verbose
  | 'v' :: rest => if verbose then .error .usage else readFlags true rest
  | 'h' :: _ => .error .help
  | 'V' :: _ => .error .version
  | _ => .error .usage

/-- Reads the options in front of the command, and the command. -/
def readLine (limitsFile : Option String) (verbose : Bool) :
    List String → Except Exit Invocation
  | [] => .error .usage
  | arg :: rest =>
    if !looksLikeOption arg then (command arg rest).map fun c => ⟨limitsFile, verbose, c⟩
    else if arg = "--help" then .error .help
    else if arg = "--version" then .error .version
    else if arg = "--verbose" then
      if verbose then .error .usage else readLine limitsFile true rest
    else if !arg.startsWith "--" then
      match readFlags verbose (arg.toList.drop 1) with
      | .ok verbose => readLine limitsFile verbose rest
      | .error e => .error e
    else
      match splitOption arg, limitsFile, rest with
      | ("--limits", some value), none, rest => readLine (some value) verbose rest
      | ("--limits", none), none, value :: rest =>
        -- a dash alone is a value, anything else that begins with one is not
        if looksLikeOption value then .error .usage else readLine (some value) verbose rest
      | _, _, _ => .error .usage

/-- The command line that some arguments make. -/
def Invocation.ofArgs (args : List String) : Except Exit Invocation :=
  readLine none false args

end Cli

end BoundedVm
