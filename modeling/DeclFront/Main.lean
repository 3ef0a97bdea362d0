import DeclFront.CommandLine.Program

/-!
# The executable

Connects the program to its arguments, its streams and the file system.
-/

open DeclFront

/-- Why the system could not read a file. -/
def readFailure : IO.Error → ReadFailure
  | .noFileOrDirectory _ number text | .permissionDenied (some _) number text
  | .inappropriateType (some _) number text => .system text number.toNat
  | .invalidArgument _ number text => .system text number.toNat
  | .otherError number text => .system text number.toNat
  | e => .system (toString e) 0

/-- All bytes of a stream, behind those read before. -/
partial def readAll (stream : IO.FS.Stream) (before : ByteArray) : IO ByteArray := do
  let bytes ← stream.read 65536
  if bytes.isEmpty then return before else readAll stream (before ++ bytes)

/-- The bytes of an input, and what a file gave if it is one. -/
def readInput (i : Input) : IO (ByteArray × Except ReadFailure ByteArray) := do
  match i with
  | .stdin => return (← readAll (← IO.getStdin) .empty, .ok .empty)
  | .path p =>
    try return (.empty, .ok (← IO.FS.readBinFile p))
    catch e => return (.empty, .error (readFailure e))

/-- Writes what the program leaves behind. -/
def leave (e : Program.Exit) : IO UInt32 := do
  let out ← IO.getStdout
  out.write e.stdout
  out.flush
  (← IO.getStderr).putStr e.stderr
  return e.status.toUInt32

def main (args : List String) : IO UInt32 := do
  match Program.plan args with
  | .answer e => leave e
  | .execute o =>
    let stream ← if o.diagnosticsToStdout then IO.getStdout else IO.getStderr
    let (stdin, file) ← readInput o.input
    leave (Program.conclude (o.execute stdin (fun _ => file) (← stream.isTty) none))
