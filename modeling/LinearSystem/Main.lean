import LinearSystem.Command.Run

namespace LinearSystem.Command

/-- A failure to open a file comes with its name, a failure to read from an open one without. -/
def readFailure : IO.Error → ReadFailure
  | .noFileOrDirectory .. => .notFound
  | .inappropriateType (some _) .. => .notDirectory
  | .inappropriateType none .. => .isDirectory
  | .invalidArgument (some _) .. => .nameTooLong
  | e => .other (toString e)

def readFile (path : String) : IO (Except ReadFailure ByteArray) := do
  try
    return .ok (← IO.FS.readBinFile path)
  catch e =>
    return .error (readFailure e)

def wording : Wording where
  usage _ := line "Usage: gauss-solve [OPTIONS] --input <INPUT>"
  parser e := e.message?.getD "malformed text"

def outcome (args : List String) : IO Outcome := do
  let content ← match Arguments.ofList? args with
    | none => pure (.error .notFound)
    | some a => readFile a.input
  return run wording (fun _ => content) args

end LinearSystem.Command

def main (args : List String) : IO UInt32 := do
  let outcome ← LinearSystem.Command.outcome args
  IO.print outcome.stdout
  IO.eprint outcome.stderr
  return UInt32.ofNat outcome.status
