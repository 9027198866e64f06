import BoundedVm.Cli.FileTree
import BoundedVm.Cli.Invocation
import BoundedVm.Cli.Stress
import BoundedVm.Ledger.Inventory

/-! # Running the program

`Cli.run` is the whole program as a function: from its arguments and its surroundings (environment
variables, files and standard input) to what it prints and its exit status. The status is 0 for
success, 2 for faults of the input, 3 for a resource limit and 1 for every other refusal. -/

namespace BoundedVm

namespace Cli

/-- What the program can read: environment variables, files by their paths, and the standard input. -/
structure Surroundings where
  setting : String → Option String
  file : String → Except ReadFault (List UInt8)
  input : Except ReadFault (List UInt8)

/-- What the program prints and its exit status. -/
structure Outcome where
  status : Nat
  output : String
  errors : String

/-- Why a command fails. -/
inductive Failure where
  /-- A fault of the value model, with what was being done. -/
  | value (context : Option String) (fault : ValueFault)
  | payload (fault : PayloadFault)
  /-- Something could not be read. -/
  | unreadable (what : String) (fault : ReadFault)

namespace Failure

/-- The exit status of a failure. -/
def status : Failure → Nat
  | value _ fault =>
    if fault.isResourceLimit then 3
    else match fault with
      | .badLimits _ => 2
      | _ => 1
  | payload fault => if fault.isMalformed then 2 else 1
  | unreadable _ _ => 2

/-- The wording of a failure: what was being done, and each cause after it. -/
def message : Failure → String
  | value none fault => fault.message
  | value (some context) fault => context ++ ": " ++ fault.message
  | payload (.hex fault) => (PayloadFault.hex fault).message ++ ": " ++ fault.message
  | payload fault => fault.message
  | unreadable what fault => "read " ++ what ++ ": " ++ fault.message

/-- What the program leaves behind after a failure, given what it has printed. -/
def outcome (failure : Failure) (printed : String) : Outcome :=
  ⟨failure.status, printed, "error: " ++ failure.message ++ "\n"⟩

end Failure

/-- The text that was read, which must be UTF-8. -/
def readText (what : String) (content : Except ReadFault (List UInt8)) : Except Failure String :=
  match content with
  | .error fault => .error (.unreadable what fault)
  | .ok bytes =>
    match String.fromUTF8? ⟨bytes.toArray⟩ with
    | some text => .ok text
    | none => .error (.unreadable what .notUtf8)

/-- The limits in the file, or without a file those of the environment. -/
def loadLimits (world : Surroundings) (file : Option String) : Except Failure Limits :=
  match file with
  | some path =>
    -- a file replaces the environment as a whole
    match readText ("limits " ++ path) (world.file path) with
    | .ok text => (Limits.ofJson text).mapError (.value none)
    | .error e => .error e
  | none => (Limits.ofEnvironment world.setting).mapError (.value none)

/-- The payload that a hexadecimal text between blanks writes. -/
def decodePayload (text : String) : Except PayloadFault ExtensiblePayload :=
  match Hex.decode (Hex.dropMark (trim text.toList)) with
  | .ok bytes => Verifiable.ofBytes bytes
  | .error fault => .error (.hex fault)

/-- The payload of a source, which is `-` for the standard input. -/
def loadPayload (world : Surroundings) (source : String) : Except Failure ExtensiblePayload :=
  match if source = "-" then readText "stdin" world.input else .ok source with
  | .ok text => (decodePayload text).mapError .payload
  | .error e => .error e

/-- The snapshot in the file, or without a file the empty one. -/
def loadSnapshot (world : Surroundings) (file : Option String) : Except Failure Snapshot :=
  match file with
  | some path =>
    match readText ("snapshot " ++ path) (world.file path) with
    | .ok text => (Snapshot.ofJson text).mapError .payload
    | .error e => .error e
  | none => .ok .empty

/-- Lines, each ended. -/
def lines (ls : List String) : String :=
  String.join (ls.map (· ++ "\n"))

/-- What is printed about a payload. -/
def describePayload (p : ExtensiblePayload) : String :=
  lines [
    "Hash:      " ++ (Verifiable.id p).text,
    "Type:      " ++ p.inventoryType.name,
    "Category:  " ++ p.category,
    "Sender:    " ++ p.sender.text,
    "Valid:     " ++ toString p.validFrom ++ ".." ++ toString p.validUntil,
    "Data:      " ++ toString p.data.length ++ " bytes",
    "Witnesses: " ++ toString p.witnesses.length]

/-- Shows a payload. -/
def runHash (world : Surroundings) (source : String) : Outcome :=
  match loadPayload world source with
  | .ok p => ⟨0, describePayload p, ""⟩
  | .error failure => failure.outcome ""

/-- Checks a payload against a snapshot. -/
def verifyPayload (snapshot : Snapshot) (p : ExtensiblePayload) : Outcome :=
  -- what was found out before a failure is printed all the same
  let heading := lines ["Hash: " ++ (Verifiable.id p).text]
  match Verifiable.accounts snapshot p with
  | .error fault => (Failure.payload fault).outcome heading
  | .ok accounts =>
    let printed := heading ++ lines (accounts.zipIdx.map fun account =>
      "Account: [" ++ toString account.2 ++ "] " ++ account.1.text)
    match Verifiable.verify snapshot p with
    | .ok () => ⟨0, printed ++ lines ["✓ witnesses bound to their accounts"], ""⟩
    | .error fault =>
      (Failure.payload fault).outcome (printed ++ lines ["✗ witness binding rejected"])

/-- Checks a payload against the snapshot in a file. The payload is read first. -/
def runVerify (world : Surroundings) (source : String) (file : Option String) : Outcome :=
  match loadPayload world source with
  | .error failure => failure.outcome ""
  | .ok p =>
    match loadSnapshot world file with
    | .error failure => failure.outcome ""
    | .ok snapshot => verifyPayload snapshot p

/-- Runs the stress test and reports it. -/
def runStress (limits : Limits) (depth width : Nat) : Outcome :=
  let builtLine := fun built =>
    lines ["Built:  depth=" ++ toString depth ++ " width=" ++ toString width
      ++ " live=" ++ toString (built : Nat)]
  let clonedLine := fun cloned => lines ["Cloned: live=" ++ toString (cloned : Nat)]
  match stress limits depth width with
  | .levelRefused level fault =>
    (Failure.value (some ("build level " ++ toString level)) fault).outcome ""
  | .rootRefused fault => (Failure.value none fault).outcome ""
  | .cloneRefused built fault =>
    (Failure.value (some "bounded clone") fault).outcome (builtLine built)
  | .comparisonRefused built cloned fault =>
    (Failure.value (some "bounded equality") fault).outcome (builtLine built ++ clonedLine cloned)
  | .finished built cloned equal peak limit =>
    ⟨0, builtLine built ++ clonedLine cloned ++ lines [
      "Equal:  " ++ (if equal then "yes" else "no"),
      "Tracker: peak=" ++ toString peak ++ " limit=" ++ toString limit], ""⟩

/-- Carries out a command under loaded limits. -/
def runCommand (world : Surroundings) (limits : Limits) : Command → Outcome
  | .limits => ⟨0, lines [limits.prettyJson], ""⟩
  | .hash source => runHash world source
  | .verify source snapshot => runVerify world source snapshot
  | .stress depth width => runStress limits depth width

/-- The file that the limits are read from: the one named on the command line, or else in the
environment. -/
def Invocation.limitsPath (invocation : Invocation) (world : Surroundings) : Option String :=
  invocation.limitsFile <|> world.setting "VM_LIMITS"

/-- Carries out a command line that was understood. -/
def runInvocation (world : Surroundings) (invocation : Invocation) : Outcome :=
  match loadLimits world (invocation.limitsPath world) with
  | .ok limits => runCommand world limits invocation.command
  | .error failure => failure.outcome ""

/-- How the program is called. -/
def usage : String := lines [
  "Usage: vmx [--limits FILE] [-v] COMMAND",
  "",
  "Commands:",
  "  limits                         print the execution limits as JSON",
  "  hash [HEX]                     show a payload and its hash",
  "  verify HEX [--snapshot FILE]   check the witnesses of a payload",
  "  stress [--depth N] [--width N] clone and compare a nested struct",
  "",
  "HEX may be - for the standard input."]

/-- The whole program. -/
def run (world : Surroundings) (args : List String) : Outcome :=
  match Invocation.ofArgs args with
  | .ok invocation => runInvocation world invocation
  | .error .help => ⟨0, usage, ""⟩
  | .error .version => ⟨0, lines ["vmx 0.1.0"], ""⟩
  | .error .usage => ⟨2, "", "error: the command line is not understood\n\n" ++ usage⟩

end Cli

end BoundedVm
