/-!
# ScriptFront.CommandLine.Arguments

The **arguments of the command**: the path of a script, and what is to be printed once the script
has been read.

Options and the path may stand in any order. An option takes its value from the same argument
(`--emit=tokens`, `-e=tokens`, `-etokens`) or from the next one (`--emit tokens`, `-e tokens`); it
may be given once. Behind a lone `--` there are no options, and a lone `-` is no option anywhere.
-/

namespace ScriptFront

/-- What is printed of a script. -/
inductive Emission
  /-- The tree of the retained statements. -/
  | tree
  /-- The tokens, one on a line. -/
  | tokens
  deriving DecidableEq

/-- The value of the option, by the word that stands for it. -/
def Emission.ofWord? : List Char → Option Emission
  | ['a', 's', 't'] => some tree
  | ['t', 'o', 'k', 'e', 'n', 's'] => some tokens
  | _ => none

/-- What a command is asked to do. -/
structure Arguments where
  /-- The path of the script. -/
  path : String
  /-- What is printed of it. -/
  emission : Emission
  deriving DecidableEq

/-- What the arguments of a command come to. -/
inductive Request
  /-- To read a script. -/
  | run (arguments : Arguments)
  /-- To explain the usage. -/
  | help
  /-- The arguments are not those of the command. -/
  | misuse
  deriving DecidableEq

namespace Arguments

/-- What has been gathered from the arguments so far. -/
structure Draft where
  /-- The path, if one has been given. -/
  path? : Option String := none
  /-- The value of the option, if it has been given. -/
  emission? : Option Emission := none

/-- The draft with a path, of which there is at most one, and none is empty. -/
def Draft.addPath (draft : Draft) (path : String) : Option Draft :=
  if draft.path?.isSome ∨ path = "" then none else some { draft with path? := some path }

/-- The draft with a value of the option, which is given at most once. -/
def Draft.addEmission (draft : Draft) (word : List Char) : Option Draft :=
  if draft.emission?.isSome then none
  else (Emission.ofWord? word).map fun emission => { draft with emission? := some emission }

/-- The request that a complete draft makes. -/
def Draft.request (draft : Draft) : Request :=
  match draft.path? with
  | none => .misuse
  | some path => .run ⟨path, draft.emission?.getD .tree⟩

/-- Gathers the arguments behind a lone `--`, all of which are paths. -/
def ofPaths : Draft → List String → Request
  | draft, [] => draft.request
  | draft, path :: rest =>
    match draft.addPath path with
    | none => .misuse
    | some draft => ofPaths draft rest

/-- One argument by itself. -/
inductive Word
  /-- The sign that no option follows. -/
  | endOfOptions
  /-- The option, with its value in the next argument. -/
  | emit
  /-- The option with its value. -/
  | emitValue (value : List Char)
  /-- The option that asks for an explanation. -/
  | help
  /-- An option that the command does not have. -/
  | unknown
  /-- A path. -/
  | path

/-- The meaning of an argument by itself. -/
def Word.of (argument : List Char) : Word :=
  match argument with
  | ['-', '-'] => endOfOptions
  | ['-', '-', 'h', 'e', 'l', 'p'] => help
  | ['-', '-', 'e', 'm', 'i', 't'] => emit
  | '-' :: '-' :: 'e' :: 'm' :: 'i' :: 't' :: '=' :: value => emitValue value
  | '-' :: '-' :: _ => unknown
  | ['-', 'e'] => emit
  | '-' :: 'e' :: '=' :: value => emitValue value
  | '-' :: 'e' :: value => emitValue value
  | '-' :: 'h' :: _ => help
  | '-' :: _ :: _ => unknown
  | _ => path

/-- Gathers the arguments from the left. The first that asks for an explanation, or does not fit,
decides. A value that stands in an argument of its own is none of the words of the option if it
begins with a dash, so it needs no rule. -/
def ofDraft : Draft → List String → Request
  | draft, [] => draft.request
  | draft, argument :: rest =>
    match Word.of argument.toList with
    | .endOfOptions => ofPaths draft rest
    | .help => .help
    | .unknown => .misuse
    | .emitValue value =>
      match draft.addEmission value with
      | none => .misuse
      | some draft => ofDraft draft rest
    | .emit =>
      match rest with
      | [] => .misuse
      | value :: rest =>
        match draft.addEmission value.toList with
        | none => .misuse
        | some draft => ofDraft draft rest
    | .path =>
      match draft.addPath argument with
      | none => .misuse
      | some draft => ofDraft draft rest

end Arguments

/-- What the arguments of a command ask for. -/
def Request.ofArguments (arguments : List String) : Request :=
  Arguments.ofDraft {} arguments

end ScriptFront
