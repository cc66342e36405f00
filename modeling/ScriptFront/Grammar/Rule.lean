import ScriptFront.Token.Stream

/-!
# ScriptFront.Grammar.Rule

The **parser**: a token stream with the kind of one token in view, and the steps that all rules of
the grammar are made of.

A *rule* runs on a parser and either gives a value or stops at a diagnostic; in both cases the
parser stays where the rule left it, and nothing is taken back. Rules decide by the kind in view
alone.

Two things keep rules finite. A loop (`many`) goes round at most once for every token that is still
to come, and a level of nesting (`nested`) can be refused.
-/

namespace ScriptFront

/-- A token stream that is being parsed. -/
structure Parser (σ : Type) where
  /-- Where the tokens come from. -/
  stream : σ
  /-- The kind of the token in view, which is not consumed yet. Before the first token is read
  it is that of the end. -/
  lookahead : Kind := .eof
  /-- The number of levels of nesting that are open. -/
  depth : Nat := 0
  /-- The greatest number of levels that have been open at once. -/
  peak : Nat := 0

/-- A rule of the grammar over the tokens of a stream. -/
abbrev Rule (σ : Type) (α : Type) := EStateM Diagnostic (Parser σ) α

variable {σ α : Type} [TokenStream σ]

namespace Parser

/-- The token in view. -/
def current (parser : Parser σ) : Token :=
  TokenStream.current parser.stream

/-- The diagnostic that the token in view is none of those that are expected. -/
def unexpected (parser : Parser σ) (expected : List Kind) : Diagnostic where
  cause := .unexpected expected
  text := parser.current.text
  position := parser.current.span.start
  location := TokenStream.location parser.stream

/-- A bound on the number of tokens that can still be consumed before the end: those to come and
the one in view. -/
def pending (parser : Parser σ) : Nat :=
  TokenStream.remaining parser.stream + if parser.lookahead = .eof then 0 else 1

/-- The parser with one more level of nesting open. -/
def enter (parser : Parser σ) : Parser σ :=
  { parser with
    depth := parser.depth + 1
    peak := max parser.peak (parser.depth + 1) }

/-- The parser with one level of nesting closed. -/
def leave (parser : Parser σ) : Parser σ :=
  { parser with depth := parser.depth - 1 }

end Parser

namespace Rule

/-- Brings the next token into view and gives its kind. The token that was in view is consumed; if
the stream fails, its kind remains in view. -/
def advance : Rule σ Kind := fun parser =>
  match TokenStream.advance parser.stream with
  | .ok kind stream => .ok kind { parser with stream := stream, lookahead := kind }
  | .error fault stream => .error fault { parser with stream := stream }

/-- A token that is consumed before the end leaves fewer pending, and none is ever added. -/
theorem pending_of_advance [LawfulTokenStream σ] {parser next : Parser σ} {kind : Kind}
    (h : advance parser = .ok kind next) :
    next.pending ≤ parser.pending ∧ (parser.lookahead ≠ .eof → next.pending < parser.pending) := by
  simp only [advance] at h
  split at h
  · next read stepped =>
    cases h
    have least := LawfulTokenStream.remaining_le stepped
    by_cases ended : kind = .eof
    · simp only [Parser.pending, ended, if_true]
      refine ⟨by omega, fun in_view => ?_⟩
      simp only [in_view, if_false]
      omega
    · have fewer := LawfulTokenStream.remaining_lt stepped ended
      simp only [Parser.pending, ended, if_false]
      refine ⟨by omega, fun in_view => ?_⟩
      simp only [in_view, if_false]
      omega
  · cases h

/-- The kind in view. -/
def lookahead : Rule σ Kind := fun parser =>
  .ok parser.lookahead parser

/-- A value of the token in view. -/
def payload (value : σ → α) : Rule σ α := fun parser =>
  .ok (value parser.stream) parser

/-- Stops at the token in view, which is none of those that are expected. -/
def fail (expected : List Kind) : Rule σ α := fun parser =>
  .error (parser.unexpected expected) parser

/-- Consumes the token in view, whatever its kind. -/
def consume : Rule σ Unit := do
  let _ ← advance

/-- Consumes the token in view if it is of the given kind, and stops there otherwise. -/
def expect (kind : Kind) : Rule σ Unit := do
  if (← lookahead) = kind then consume else fail [kind]

/-- Runs a rule one level of nesting further in. Stops at the token in view if as many levels are
open as there may be; where no limit is given, a level can always be opened. -/
def nested (limit : Option Nat) (rule : Rule σ α) : Rule σ α := fun parser =>
  if limit.any (· ≤ parser.depth) then fail [] parser
  else
    match rule parser.enter with
    | .ok value parser => .ok value parser.leave
    | .error fault parser => .error fault parser.leave

/-- Repeats a step on its own result, until it has none or as often as the count says. -/
def manyWithin (step : α → Rule σ (Option α)) : Nat → α → Rule σ α
  | 0, value => pure value
  | count + 1, value => do
    match ← step value with
    | none => pure value
    | some value => manyWithin step count value

/-- Repeats a step on its own result until it has none. Every step that has a result consumes a
token, so the steps are no more than the tokens pending. -/
def many (step : α → Rule σ (Option α)) (start : α) : Rule σ α := fun parser =>
  manyWithin step parser.pending start parser

/-- Goes on if a step has found something to do. -/
def again (step : Rule σ Bool) : Rule σ (Option Unit) := do
  return if ← step then some () else none

/-- Repeats a step for as long as it finds something to do. -/
def repeatWhile (step : Rule σ Bool) : Rule σ Unit :=
  many (fun _ => again step) ()

end Rule

end ScriptFront
