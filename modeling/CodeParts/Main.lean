import CodeParts.CommandLine.Run

/-!
# The program

Reads the files that the command line names, or the standard input, hands them to
`Invocation.run` and prints what the run leaves.
-/

namespace CodeParts.CommandLine

/-- The number of a system error, which may come with its sign turned. -/
def systemCode (code : UInt32) : Nat :=
  if code.toNat < Nat.pow 2 31 then code.toNat else Nat.pow 2 32 - code.toNat

/-- Why the system could not read a file. -/
def readError : IO.Error → FileError
  | .noFileOrDirectory _ code details => .ofSystem details (systemCode code)
  | .inappropriateType _ code details => .ofSystem details (systemCode code)
  | .invalidArgument _ code details => .ofSystem details (systemCode code)
  | .permissionDenied _ code details => .ofSystem details (systemCode code)
  | .resourceExhausted _ code details => .ofSystem details (systemCode code)
  | .illegalOperation code details => .ofSystem details (systemCode code)
  | .hardwareFault code details => .ofSystem details (systemCode code)
  | .otherError code details => .ofSystem details (systemCode code)
  | e => .system e.toString 5

/-- The bytes of a file. -/
def readFile (path : String) : IO (Except FileError ByteArray) := do
  try
    return .ok (← IO.FS.readBinFile path)
  catch e =>
    return .error (readError e)

/-- The file of the settings, if one is named. -/
def readSettings (inv : Invocation) : IO (Except FileError ByteArray) :=
  match inv.base with
  | .file path => readFile path
  | _ => return .ok .empty

/-- The source. -/
def readSource (inv : Invocation) : IO (Except FileError ByteArray) := do
  if isInput inv.file then return .ok (← (← IO.getStdin).readBinToEnd)
  else readFile inv.file

/-- All that a run reads; no source is waited for where the settings cannot be read. -/
def readAll (inv : Invocation) : IO Readings := do
  match ← readSettings inv with
  | .ok settings => return ⟨.ok settings, ← readSource inv⟩
  | .error e => return ⟨.error e, .error e⟩

/-- Runs the words of a command line. -/
def runWords (words : List String) : IO Outcome := do
  match Invocation.ofWords words with
  | .ok inv => return inv.run (← readAll inv)
  | .error stop => return stop.outcome

end CodeParts.CommandLine

/-- Runs the words after the name of the program. -/
def main (words : List String) : IO UInt32 := do
  let outcome ← CodeParts.CommandLine.runWords words
  IO.eprint outcome.log
  IO.print outcome.output
  return UInt32.ofNat outcome.code
