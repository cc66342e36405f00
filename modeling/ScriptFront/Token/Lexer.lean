import ScriptFront.Token.Pattern
import ScriptFront.Source.Cursor
import ScriptFront.Token.NameTable
import ScriptFront.Token.Stream

/-!
# ScriptFront.Token.Lexer

The **lexer**: the token stream of a source text. White space and comments are passed over, and
the lexeme behind them becomes a token.

Beside its place in the text the lexer keeps the table of the names that it has met. A name that it
meets for the first time gets the number of those before it as its ordinal.

Line ends are counted in what is passed over and in texts: no other lexeme holds one.

A fault leaves the current token, the values and the table as they were. A character that begins no
token is not passed, so the lexer will not get beyond it; an integer that is too large is passed.
-/

namespace ScriptFront

/-- A source text that is being read. -/
structure Lexer where
  /-- The name of the source. -/
  file : String
  /-- The place that has been reached. -/
  cursor : Cursor
  /-- The line of that place, counted from one. -/
  line : UInt32
  /-- The line on which the lexeme read last begins. -/
  tokenLine : UInt32
  /-- The names met so far, each with its ordinal. -/
  identifiers : NameTable
  /-- The token read last. -/
  current : Token
  /-- The value of the integer read last. -/
  intValue : Int64
  /-- The contents of the text read last. -/
  stringValue : String
  /-- The ordinal of the identifier read last. -/
  ordinal : UInt32

/-- The number of line ends in a text. -/
def newlines (text : List Char) : Nat :=
  text.count '\n'

/-- The value of a string of decimal digits. -/
def decimalValue (digits : List Char) : Nat :=
  digits.foldl (fun value digit => 10 * value + (digit.toNat - '0'.toNat)) 0

/-- The least number that an integer literal cannot hold. -/
def integerBound : Nat := 9223372036854775808

/-- The contents of a quoted text: all but its first and its last character. -/
def unquoted (lexeme : List Char) : List Char :=
  lexeme.tail.dropLast

/-- The name of a source that has been given none. -/
def unnamed : String := "shell"

namespace Lexer

/-- A lexer before the first token of a source. -/
def ofSource (source : String) (file : String) : Lexer where
  file := file
  cursor := Cursor.start source.toList
  line := 1
  tokenLine := 1
  identifiers := NameTable.empty
  current := Token.eof ⟨0, file⟩
  intValue := 0
  stringValue := ""
  ordinal := 0

/-- Whether the whole text has been read. -/
def atEnd (lexer : Lexer) : Bool :=
  lexer.cursor.atEnd

/-- The place that has been reached, as a position. -/
def position (lexer : Lexer) : Position :=
  ⟨lexer.cursor.offset.toUInt32, lexer.file⟩

/-- What a diagnostic at the current token says of its place. -/
def location (lexer : Lexer) : Location :=
  ⟨lexer.tokenLine, lexer.ordinal⟩

/-- The names in the table, each at its ordinal. -/
def names (lexer : Lexer) : List String :=
  lexer.identifiers.names

/-- The lexer with its cursor behind a lexeme. -/
def move (lexer : Lexer) (lexeme : List Char) : Lexer :=
  { lexer with cursor := lexer.cursor.skip lexeme.length }

/-- The lexer with the line ends of a lexeme counted. -/
def countLines (lexer : Lexer) (lexeme : List Char) : Lexer :=
  { lexer with line := lexer.line + (newlines lexeme).toUInt32 }

/-- The lexer behind a blank or a comment, whose line ends count. -/
def pass (lexer : Lexer) (lexeme : List Char) : Lexer :=
  (lexer.move lexeme).countLines lexeme

/-- The lexer with one more token read, which reaches from a position to the cursor. -/
def accept (lexer : Lexer) (start : Position) (kind : Kind) (lexeme : List Char) :
    EStateM.Result Diagnostic Lexer Kind :=
  .ok kind { lexer with current := ⟨kind, String.ofList lexeme, ⟨start, lexer.position⟩⟩ }

/-- A fault at a position. -/
def refuse (lexer : Lexer) (position : Position) (cause : Cause) (lexeme : List Char) :
    EStateM.Result Diagnostic Lexer Kind :=
  .error ⟨cause, String.ofList lexeme, position, lexer.location⟩ lexer

/-- The lexer at the end of its text. -/
def finish (lexer : Lexer) : EStateM.Result Diagnostic Lexer Kind :=
  .ok .eof { lexer with current := Token.eof lexer.position }

/-- The lexer with a name read, which is entered into the table if it is not there yet. -/
def meet (lexer : Lexer) (name : String) : Lexer :=
  let next := lexer.identifiers.size.toUInt32
  let met := lexer.identifiers.findOrInsert name next
  { lexer with
    identifiers := met.2
    ordinal := met.1 }

/-- Reads the lexeme of a word that stands before the cursor. -/
def acceptWord (lexer : Lexer) (start : Position) (lexeme : List Char) :
    EStateM.Result Diagnostic Lexer Kind :=
  match Kind.ofReserved? (String.ofList lexeme) with
  | some kind => lexer.accept start kind lexeme
  | none => (lexer.meet (String.ofList lexeme)).accept start .identifier lexeme

/-- Reads the lexeme of an integer that stands before the cursor. -/
def acceptDigits (lexer : Lexer) (start : Position) (lexeme : List Char) :
    EStateM.Result Diagnostic Lexer Kind :=
  if decimalValue lexeme < integerBound then
    { lexer with intValue := Int64.ofNat (decimalValue lexeme) }.accept start .number lexeme
  else lexer.refuse start .tooLarge lexeme

/-- Reads the lexeme of a text that stands before the cursor, and counts its line ends. -/
def acceptQuoted (lexer : Lexer) (start : Position) (lexeme : List Char) :
    EStateM.Result Diagnostic Lexer Kind :=
  { lexer.countLines lexeme with stringValue := String.ofList (unquoted lexeme) }.accept start
    .string lexeme

/-- The lexer with the line of the next lexeme noted. -/
def mark (lexer : Lexer) : Lexer :=
  { lexer with tokenLine := lexer.line }

/-- Reads the next token, passing over at most the given number of blanks and comments before
it. -/
def advanceWithin : Nat → Lexer → EStateM.Result Diagnostic Lexer Kind
  | 0, lexer => lexer.mark.finish
  | count + 1, lexer =>
    let lexer := lexer.mark
    match lexer.cursor.unread with
    | [] => lexer.finish
    | c :: cs =>
      let start := lexer.position
      match Pattern.classify? (c :: cs) with
      | none => lexer.refuse start .unrecognised [c]
      | some (.blank, lexeme) => advanceWithin count (lexer.pass lexeme)
      | some (.comment, lexeme) => advanceWithin count (lexer.pass lexeme)
      | some (.word, lexeme) => (lexer.move lexeme).acceptWord start lexeme
      | some (.digits, lexeme) => (lexer.move lexeme).acceptDigits start lexeme
      | some (.quoted, lexeme) => (lexer.move lexeme).acceptQuoted start lexeme
      | some (.sign _ kind, lexeme) => (lexer.move lexeme).accept start kind lexeme

/-- Reads the next token. Each blank or comment takes at least one byte, so there are no more of
them than bytes left. -/
def advance (lexer : Lexer) : EStateM.Result Diagnostic Lexer Kind :=
  advanceWithin lexer.cursor.left lexer

end Lexer

end ScriptFront
