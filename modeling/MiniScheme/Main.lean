import MiniScheme.Shell.Command
/-! # The command line

Reads files and standard input, and writes what the commands come to.
-/
namespace MiniScheme.Shell

/-- Number of steps that no run of the program uses up. -/
def enoughFuel : Nat := 0x4000000000000000

def emit (written : Written) : IO Unit := do
  let out ← IO.getStdout
  out.putStr written.out
  out.flush
  (← IO.getStderr).putStr written.err

/-- Write a report and answer its status. -/
def emitReport : Option Report → IO UInt32
  | some report => do
    emit report.written
    return report.status.toUInt32
  | none => return 1

/-- The cause of a failed attempt to read a file, by its number if that is known. -/
def fileError : IO.Error → FileError
  | .noFileOrDirectory .. => .notFound
  | .permissionDenied .. => .notPermitted
  | .inappropriateType _ code _ => if code = 20 then .notADirectory else .isDirectory
  | .invalidArgument _ code message => if code = 36 then .nameTooLong else .other message
  | e => .other (toString e)

def readText (path : String) : IO (Except FileError String) := do
  try
    return fileText (← IO.FS.readBinFile path)
  catch e => return .error (fileError e)

/-- The interactive loop on standard input. -/
partial def interact (s : Session) : IO UInt32 := do
  emit (.onOut (prompt s))
  let line ← try some <$> (← IO.getStdin).getLine catch _ => pure none
  match line with
  | none =>
    emit replUnreadable
    return 1
  | some line =>
    if line.isEmpty then
      emit (replEnd s)
      return 0
    else
      match replLine enoughFuel s line with
      | none => return 1
      | some (written, .running s) =>
        emit written
        interact s
      | some (written, .ended status) =>
        emit written
        return status.toUInt32

end MiniScheme.Shell

open MiniScheme.Shell in
def main (args : List String) : IO UInt32 := do
  match Command.parse args with
  | .repl options =>
    match options.interpreter with
    | .ok i => interact (.ofInterpreter i)
    | .error e => emitReport (some ⟨1, errorLine e⟩)
  | .run path options => emitReport (runFile enoughFuel options path (← readText path))
  | .eval source options => emitReport (evalAll enoughFuel options source true)
  | .say report => emitReport (some report)
