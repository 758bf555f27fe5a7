import RegisterIR.CommandLine.Run

/-! The command line program: reads the file that the arguments name, or standard input, and
writes the result. -/

namespace RegisterIR.CommandLine

partial def readAll (stream : IO.FS.Stream) (bytes : ByteArray) : IO ByteArray := do
  let more ← stream.read 65536
  if more.isEmpty then return bytes else readAll stream (bytes ++ more)

/-- The cause of a failed read. The system gives its code with either sign. -/
def ReadFailure.ofError : IO.Error → ReadFailure
  | .noFileOrDirectory .. => .notFound
  | .permissionDenied .. => .permissionDenied
  | .inappropriateType _ code _ =>
    if code = 21 || code = 0 - 21 then .isDirectory else .notDirectory
  | .invalidArgument .. => .nameTooLong
  | error => .other (toString error)

def readInput : Option String → IO (Except ReadFailure String)
  | some path => do
    try
      return decode (← IO.FS.readBinFile path)
    catch error => return .error (.ofError error)
  | none => do
    return decode (← readAll (← IO.getStdin) .empty)

end RegisterIR.CommandLine

open RegisterIR CommandLine

def main (arguments : List String) : IO UInt32 := do
  let completion ← match Options.parse arguments with
    | .error stop => pure stop.completion
    | .ok options => do
      let input ← readInput options.input
      pure (runOn options input)
  let out ← IO.getStdout
  let err ← IO.getStderr
  for line in completion.reports do
    err.putStrLn line
  out.putStr completion.output
  out.flush
  return completion.exit.toUInt32
