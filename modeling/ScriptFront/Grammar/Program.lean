import ScriptFront.Token.Listing
import ScriptFront.Grammar.Statement

/-!
# ScriptFront.Grammar.Program

**Whole programs**, and the rules of the grammar with their inner levels filled in.

`Inner.levels` builds the rules of the inner levels from the innermost outwards. Every level costs
at least one token, so a rule never reaches further in than the tokens pending allow, and `closed`
fills in that many. The number of levels that may be open at once is limited besides
(`maxDepth`); what a rule does at the innermost of the levels filled in is then never seen.
-/

namespace ScriptFront

variable {σ α : Type} [TokenStream σ]

/-- The rules of the inner levels, of which there are as many as the count says; further in there
is nothing but a refusal. -/
def Inner.levels (limit : Option Nat) : Nat → Inner σ
  | 0 =>
    { limit := limit
      expression := Rule.fail []
      sequence := Rule.fail [] }
  | count + 1 =>
    { limit := limit
      expression := fun parser => Grammar.expression (levels limit count) parser
      sequence := fun parser => Grammar.sequence (levels limit count) parser }

namespace Grammar

/-- The number of levels of nesting that may be open at once, parentheses and conditions
together. -/
def maxDepth : Nat := 256

/-- A rule with its inner levels filled in, under a limit on the levels open at once. -/
def closed (limit : Option Nat) (rule : Inner σ → Rule σ α) : Rule σ α := fun parser =>
  rule (Inner.levels limit parser.pending) parser

/-- A program: a sequence of statements from the first token to the end. -/
def program (limit : Option Nat) : Rule σ Program := do
  Rule.consume
  let statements ← closed limit sequence
  Rule.expect .eof
  return ⟨statements⟩

end Grammar

/-- Parses a program from the next token of a stream on. The stream stays where the parser has
left it. -/
def parseStream (stream : σ) : EStateM.Result Diagnostic σ Program :=
  match Grammar.program (some Grammar.maxDepth) { stream := stream } with
  | .ok program parser => .ok program parser.stream
  | .error fault parser => .error fault parser.stream

/-- Parses a source. -/
def parse (source : String) (file : String) : Except Diagnostic Program :=
  match parseStream (Lexer.ofSource source file) with
  | .ok program _ => .ok program
  | .error fault _ => .error fault

end ScriptFront
