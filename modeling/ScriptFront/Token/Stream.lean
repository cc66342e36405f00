import ScriptFront.Diagnostic.Basic
import ScriptFront.Token.Basic

/-!
# ScriptFront.Token.Stream

The interface between the grammar and whatever its tokens come from.

A **token stream** yields one token at a time and can fail at any of them. Beside the token read
last it holds the values of the last integer, the last text and the last identifier; each of them
is meant to be asked for while a token of its kind is the current one. It also says how many tokens
there can still be before the end.

A stream is **lawful** if the kind that it gives is that of its current token, if a failure leaves
that token as it was, and if there are no more tokens than it says.
-/

namespace ScriptFront

/-- A source of tokens. -/
class TokenStream (σ : Type) where
  /-- Reads the next token, which becomes the current one, and gives its kind. -/
  advance : σ → EStateM.Result Diagnostic σ Kind
  /-- The token read last. -/
  current : σ → Token
  /-- The value of the integer read last. -/
  intValue : σ → Int64
  /-- The contents of the text read last. -/
  stringValue : σ → String
  /-- The ordinal of the identifier read last. -/
  ordinal : σ → UInt32
  /-- What a diagnostic at the current token says of its place. -/
  location : σ → Location
  /-- A bound on the number of tokens before the end. -/
  remaining : σ → Nat

/-- What holds of the steps of every stream that is finite. -/
class LawfulTokenStream (σ : Type) [TokenStream σ] : Prop where
  /-- The kind given is that of the token read. -/
  kind_current {s s' : σ} {kind : Kind} :
    TokenStream.advance s = .ok kind s' → (TokenStream.current s').kind = kind
  /-- A failure leaves the current token as it was. -/
  current_of_error {s s' : σ} {fault : Diagnostic} :
    TokenStream.advance s = .error fault s' → TokenStream.current s' = TokenStream.current s
  /-- A token does not raise the bound. -/
  remaining_le {s s' : σ} {kind : Kind} :
    TokenStream.advance s = .ok kind s' → TokenStream.remaining s' ≤ TokenStream.remaining s
  /-- A token before the end lowers the bound. -/
  remaining_lt {s s' : σ} {kind : Kind} :
    TokenStream.advance s = .ok kind s' → kind ≠ .eof →
      TokenStream.remaining s' < TokenStream.remaining s

end ScriptFront
