import ScriptFront.CommandLine.Report

/-!
# ScriptFront.Main

The command on the files of the system.
-/

namespace ScriptFront

/-- The reason why the system did not give a file. -/
def ReadFault.ofSystem : IO.Error → ReadFault
  | .noFileOrDirectory .. => .missing
  | .inappropriateType _ 21 _ => .isDirectory
  | .inappropriateType .. => .notDirectory
  | fault => .other (toString fault)

/-- The text of a file of the system. -/
def readScript (path : String) : IO (Except ReadFault String) := do
  try
    return decodeText (← IO.FS.readBinFile path)
  catch fault =>
    return .error (.ofSystem fault)

/-- Runs the command and gives its exit status. -/
def runCommand (arguments : List String) : IO UInt32 := do
  let report ←
    match Request.ofArguments arguments with
    | .run arguments => do pure (Report.ofRead arguments (← readScript arguments.path))
    | .help => pure Report.help
    | .misuse => pure Report.misuse
  (← IO.getStdout).putStr report.output
  (← IO.getStderr).putStr report.errors
  return report.status.toUInt32

end ScriptFront

/-- The command. -/
def main (arguments : List String) : IO UInt32 :=
  ScriptFront.runCommand arguments
