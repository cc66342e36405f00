/-!
# ScriptFront.CommandLine.FileTree

**Files held in memory**, on which a command can be run without a disk, and the reasons why a file
cannot be read.

A path is followed from the working directory, or from the root if it begins with a slash, one
component at a time. An empty component and a single dot stay where they are, and two dots go back
to where the path came from; all of them, and every name, need a directory to stand in. Beyond the
working directory nothing is known but that there are directories, the root among them.
-/

namespace ScriptFront

/-- Why a file cannot be read. -/
inductive ReadFault
  /-- Nothing of that name is there. -/
  | missing
  /-- The path leads through something that is no directory. -/
  | notDirectory
  /-- The path leads to a directory. -/
  | isDirectory
  /-- The bytes are not the UTF-8 form of any text. -/
  | notText
  /-- Any other reason, in the words of the system. -/
  | other (reason : String)
  deriving DecidableEq

/-- The reason in words. -/
def ReadFault.message : ReadFault → String
  | missing => "No such file or directory (os error 2)"
  | notDirectory => "Not a directory (os error 20)"
  | isDirectory => "Is a directory (os error 21)"
  | notText => "stream did not contain valid UTF-8"
  | other reason => reason

/-- The text whose UTF-8 form the bytes are. -/
def decodeText (bytes : ByteArray) : Except ReadFault String :=
  match String.fromUTF8? bytes with
  | some text => .ok text
  | none => .error .notText

/-- The components of a path, which a slash separates. -/
def pathComponents (path : String) : List (List Char) :=
  path.toList.splitOnP (· == '/')

/-- The name at the end of a path, or the whole path where it ends in no name. -/
def fileName (path : String) : String :=
  let named := (pathComponents path).filter fun component => component ≠ [] ∧ component ≠ ['.']
  match named.getLast? with
  | none => path
  | some name => if name = ['.', '.'] then path else String.ofList name

/-- A file or a directory. -/
inductive FileTree
  /-- A file with its bytes. -/
  | file (bytes : ByteArray)
  /-- A directory with its entries, each under its name. -/
  | directory (entries : List (List Char × FileTree))

namespace FileTree

/-- A directory without entries. -/
def empty : FileTree := directory []

/-- Changes the entry at a place, which is given by the names on the way to it. Directories that
are not there yet are made; a file on the way is left as it is. -/
def alterAt (change : FileTree → FileTree) : List (List Char) → FileTree → FileTree
  | [], entry => change entry
  | _ :: _, file bytes => file bytes
  | name :: rest, directory entries =>
    let changed := alterAt change rest ((entries.lookup name).getD empty)
    directory ((name, changed) :: entries.filter fun entry => entry.1 ≠ name)

/-- Writes a file at the end of the given components, which set out from a place. Every directory
that they lead through is made. -/
def writeFrom (bytes : ByteArray) (place : List (List Char)) :
    List (List Char) → FileTree → FileTree
  | [], tree => tree
  | [name], tree => alterAt (fun _ => file bytes) (place ++ [name]) tree
  | component :: rest, tree =>
    if component = [] ∨ component = ['.'] then writeFrom bytes place rest tree
    else if component = ['.', '.'] then writeFrom bytes place.dropLast rest tree
    else writeFrom bytes (place ++ [component]) rest (alterAt id (place ++ [component]) tree)

/-- Writes a file at a path below the working directory. -/
def write (working : FileTree) (path : String) (bytes : ByteArray) : FileTree :=
  writeFrom bytes [] (pathComponents path) working

/-- Follows components from an entry to the entry that they lead to. The directories on the way to
the entry are given from the nearest outwards. -/
def follow (outer : List FileTree) (entry : FileTree) : List (List Char) → Except ReadFault FileTree
  | [] => .ok entry
  | component :: rest =>
    match entry with
    | file _ => .error .notDirectory
    | directory entries =>
      if component = [] ∨ component = ['.'] then follow outer entry rest
      else if component = ['.', '.'] then
        match outer with
        | [] => follow [] empty rest
        | parent :: outer => follow outer parent rest
      else
        match entries.lookup component with
        | none => .error .missing
        | some next => follow (entry :: outer) next rest

/-- The directory from which a path sets out. -/
def origin (working : FileTree) (path : String) : FileTree :=
  if path.toList.head? = some '/' then empty else working

/-- The text of the file at a path. -/
def read (working : FileTree) (path : String) : Except ReadFault String := do
  match ← follow [] (working.origin path) (pathComponents path) with
  | file bytes => decodeText bytes
  | directory _ => .error .isDirectory

end FileTree

end ScriptFront
