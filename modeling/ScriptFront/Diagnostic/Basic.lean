import ScriptFront.Source.Position
import ScriptFront.Text.Quoted
import ScriptFront.Token.Kind

/-!
# ScriptFront.Diagnostic.Basic

**Diagnostics**: why a source was refused, at which text and where, with the wording of each
cause. A source is refused at its first fault, so there is only ever one.
-/

namespace ScriptFront

/-- Why a source is refused. -/
inductive Cause
  /-- The grammar admits other kinds of tokens here. With no kind to offer, the token is one that
  would open a level of nesting too many. -/
  | unexpected (expected : List Kind)
  /-- No token begins with this character. -/
  | unrecognised
  /-- A decimal literal is above the greatest integer. -/
  | tooLarge
  deriving DecidableEq

/-- A fault of a source. -/
structure Diagnostic where
  /-- Why the source is refused. -/
  cause : Cause
  /-- The offending text, as it stands in the source. -/
  text : String
  /-- Where the offending text begins. -/
  position : Position
  /-- What the token stream said of the place. -/
  location : Location
  deriving DecidableEq

/-- The name of a cause, which heads a report. -/
def Cause.name : Cause → String
  | unexpected _ => "SyntaxError"
  | unrecognised => "UnrecognisedToken"
  | tooLarge => "NumberParseError"

namespace Diagnostic

/-- Whether the grammar refused the source, and not the reading of its tokens. -/
def isGrammatical (diagnostic : Diagnostic) : Bool :=
  match diagnostic.cause with
  | .unexpected _ => true
  | .unrecognised | .tooLarge => false

/-- The kinds that the grammar would have admitted, if it was the grammar that refused. -/
def expected? (diagnostic : Diagnostic) : Option (List Kind) :=
  match diagnostic.cause with
  | .unexpected expected => some expected
  | .unrecognised | .tooLarge => none

/-- The diagnostic in one sentence. -/
def message (diagnostic : Diagnostic) : String :=
  let opening :=
    match diagnostic.cause with
    | .unexpected _ => "syntax error: unexpected token "
    | .unrecognised => "unrecognised token: "
    | .tooLarge => "error parsing number: "
  opening ++ Text.quote diagnostic.text ++ " at line " ++ Nat.repr diagnostic.location.line.toNat

/-- A piece of a hint that is set off from the words around it. -/
def mark (text : String) : String :=
  "`" ++ text ++ "`"

/-- What could be done about the fault. -/
def tip? (diagnostic : Diagnostic) : Option String :=
  match diagnostic.cause with
  | .unexpected [] => some (mark diagnostic.text ++ " is nested too deeply")
  | .unexpected [kind] =>
    some ("expected " ++ mark kind.name ++ ", found " ++ mark diagnostic.text)
  | .unexpected kinds =>
    some ("expected one of " ++ ", ".intercalate (kinds.map fun kind => mark kind.name) ++
      ", found " ++ mark diagnostic.text)
  | .unrecognised => none
  | .tooLarge =>
    some ("Invalid number: " ++ mark diagnostic.text ++ ", is it above the integer limit?")

end Diagnostic

end ScriptFront
