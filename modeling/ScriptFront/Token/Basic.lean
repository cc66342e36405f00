import ScriptFront.Source.Position
import ScriptFront.Token.Kind

/-!
# ScriptFront.Token.Basic

**Tokens**: a kind, the text that was read, and where it stands.
-/

namespace ScriptFront

/-- A classified piece of a source. -/
structure Token where
  /-- What the piece is. -/
  kind : Kind
  /-- The piece as it stands in the source, quotes included; the end has a text of its own. -/
  text : String
  /-- Where the piece stands. -/
  span : Span
  deriving DecidableEq

/-- The line of a token list: the kind, and the text where the kind does not tell it. -/
def Token.display (token : Token) : String :=
  match token.kind with
  | .string | .identifier | .number => token.kind.name ++ " (" ++ token.text ++ ")"
  | kind => kind.name

/-- The token at the end of a source. -/
def Token.eof (position : Position) : Token where
  kind := .eof
  text := Kind.eof.name
  span := ⟨position, position⟩

end ScriptFront
