import ScriptFront.CommandLine.Arguments
import ScriptFront.CommandLine.FileTree
import ScriptFront.Diagnostic.Render
import ScriptFront.Grammar.Program

/-!
# ScriptFront.CommandLine.Report

The **command**: it reads a script, and prints its tree or its tokens. A script that cannot be read
or is refused is reported on the error output instead.
-/

namespace ScriptFront

/-- What a command leaves behind. -/
structure Report where
  /-- The exit status. -/
  status : UInt8
  /-- The text of the standard output. -/
  output : String
  /-- The text of the error output. -/
  errors : String
  deriving DecidableEq

namespace Report

/-- The report of a command that has done its work. -/
def success (output : String) : Report :=
  ⟨0, output, ""⟩

/-- The report of a command that has failed. -/
def failure (errors : String) : Report :=
  ⟨1, "", errors⟩

/-- The report of a script that cannot be read. -/
def unreadable (path : String) (fault : ReadFault) : Report :=
  failure ("Error: failed to read " ++ path ++ ": " ++ fault.message ++ "\n")

/-- The report of a script that is refused. -/
def refused (source : String) (fault : Diagnostic) : Report :=
  failure (fault.render source)

/-- What is printed of a script that is read. -/
def printed (emission : Emission) (source file : String) : Except Diagnostic String :=
  match emission with
  | .tree => (parse source file).map fun program => program.pretty ++ "\n"
  | .tokens =>
    (tokenize source file).map fun tokens =>
      String.join (tokens.map fun token => token.display ++ "\n")

/-- The report on a script that is found at a path, whose last name is that of the source. -/
def ofSource (arguments : Arguments) (source : String) : Report :=
  match printed arguments.emission source (fileName arguments.path) with
  | .ok output => success output
  | .error fault => refused source fault

/-- The report of a command, whose script has been read or not. -/
def ofRead (arguments : Arguments) (script : Except ReadFault String) : Report :=
  match script with
  | .ok source => ofSource arguments source
  | .error fault => unreadable arguments.path fault

/-- How the command is used. -/
def usage : String :=
  "Usage: script-front [-e|--emit ast|tokens] SOURCE\n"

/-- The explanation of the command. -/
def help : Report :=
  success ("Checks a script for errors and prints its tree.\n\n" ++ usage)

/-- The report of a command that was given the wrong arguments. -/
def misuse : Report :=
  ⟨2, "", usage⟩

end Report

end ScriptFront
