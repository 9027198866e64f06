import BoundedVm.Cli.Run

/-! # The program

Reads what the command line names, runs `Cli.run` on it, prints what that prints and exits with its
status. -/

namespace BoundedVm

namespace Cli

/-- Whether an error code, of either sign, has the given amount. -/
def isCode (code amount : UInt32) : Bool :=
  code = amount ∨ code = 0 - amount

/-- Why something could not be read. -/
def readFault (e : IO.Error) : ReadFault :=
  match e with
  | .noFileOrDirectory _ _ _ => .notFound
  | .permissionDenied _ _ _ => .permissionDenied
  | .inappropriateType _ code _ => if isCode code 21 then .isDirectory else .notDirectory
  | .invalidArgument _ code _ => if isCode code 36 then .nameTooLong else .other (toString e)
  | e => .other (toString e)

/-- The result of a reading action, or why it failed. -/
def attempt (action : IO ByteArray) : IO (Except ReadFault (List UInt8)) := do
  try
    let content ← action
    pure (.ok content.data.toList)
  catch e => pure (.error (readFault e))

/-- All bytes of a stream, after those read already. -/
partial def readStream (stream : IO.FS.Stream) (content : ByteArray) : IO ByteArray := do
  let piece ← stream.read 65536
  if piece.isEmpty then pure content else readStream stream (content ++ piece)

/-- The files that a command line reads. -/
def Invocation.files (invocation : Invocation) (world : Surroundings) : List String :=
  (invocation.limitsPath world).toList ++ match invocation.command with
    | .verify _ (some snapshot) => [snapshot]
    | _ => []

/-- Whether a command line reads the standard input. -/
def Invocation.readsInput (invocation : Invocation) : Bool :=
  match invocation.command with
  | .hash source | .verify source _ => source = "-"
  | _ => false

/-- The environment variables that the program reads. -/
def settingNames : List String := ["VM_LIMITS", "VM_MAX_STACK_SIZE", "VM_MAX_COMPARABLE_SIZE"]

/-- Everything that a command line can read. -/
def surroundings (args : List String) : IO Surroundings := do
  let settings ← settingNames.mapM fun name => do pure (name, ← IO.getEnv name)
  let lookup := fun name => (settings.lookup name).join
  let bare : Surroundings := ⟨lookup, fun _ => .error .notFound, .ok []⟩
  match Invocation.ofArgs args with
  | .error _ => pure bare
  | .ok invocation =>
    let contents ← (invocation.files bare).mapM fun (path : String) => do
      pure (path, ← attempt (IO.FS.readBinFile path))
    let input ← if invocation.readsInput then
        attempt do readStream (← IO.getStdin) .empty
      else pure bare.input
    pure ⟨lookup, fun path => (contents.lookup path).getD (.error .notFound), input⟩

end Cli

end BoundedVm

def main (args : List String) : IO UInt32 := do
  let outcome := BoundedVm.Cli.run (← BoundedVm.Cli.surroundings args) args
  (← IO.getStdout).putStr outcome.output
  (← IO.getStderr).putStr outcome.errors
  pure (UInt32.ofNat outcome.status)
