import Crosswalk.Command.Run

/-!
# The command

Decodes the arguments and runs the command that they ask for in the real system.
-/

namespace Crosswalk

/-- The fault that an error of the system stands for. -/
def faultOfSystem : IO.Error → FileFault
  | .noFileOrDirectory .. => .missing
  | .inappropriateType .. => .isFolder
  | e => .other (toString e)

/-- The bytes of a file of the system, or why it cannot be read. -/
def readSystemFile (path : String) : IO (Except FileFault ByteArray) := do
  try
    let bytes ← IO.FS.readBinFile path
    return .ok bytes
  catch e => return .error (faultOfSystem e)

/-- The bytes of standard input, or why they cannot be read. -/
def readSystemInput : IO (Except FileFault ByteArray) := do
  try
    let bytes ← (← IO.getStdin).readBinToEnd
    return .ok bytes
  catch e => return .error (faultOfSystem e)

/-- Writes a file of the system, or says why it cannot be written. -/
def writeSystemFile (path text : String) : IO (Except FileFault Unit) := do
  try
    IO.FS.writeFile path text
    return .ok ()
  catch e => return .error (faultOfSystem e)

/-- The operations of the real system. -/
def realSystem : System IO where
  file := readSystemFile
  input := readSystemInput
  isTerminal := do (← IO.getStdout).isTty
  print text := do (← IO.getStdout).putStr text
  save := writeSystemFile

/-- Runs options and gives the status with which the command ends. -/
def runOptions (o : Options) : IO UInt32 := do
  match ← (o.run realSystem).run with
  | .ok () => return 0
  | .error e =>
    (← IO.getStderr).putStrLn e.report
    return UInt32.ofNat e.exitCode

end Crosswalk

open Crosswalk in
def main (arguments : List String) : IO UInt32 := do
  match Request.ofArguments arguments with
  | .error m =>
    (← IO.getStderr).putStrLn ("error: " ++ m.message)
    return 2
  | .ok .help =>
    (← IO.getStdout).putStr helpText
    return 0
  | .ok .version =>
    (← IO.getStdout).putStr versionText
    return 0
  | .ok (.run o) => runOptions o
