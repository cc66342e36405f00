import ScriptFront.Grammar.Program

/-!
# ScriptFront.Grammar.Session

**Sessions**: one parser, or one lexer, to which steps are applied one after the other, whatever
became of the steps before. A step that fails leaves the parser or the lexer where it stopped, and
the next step begins there.
-/

namespace ScriptFront

variable {σ : Type} [TokenStream σ]

/-- What can be asked of a parser. -/
inductive Action
  /-- To bring the next token into view. -/
  | advance
  /-- To consume the token in view. -/
  | consume
  /-- To consume the token in view if it is of a kind. -/
  | expect (kind : Kind)
  /-- To stop at the token in view. -/
  | fail (expected : List Kind)
  /-- To do nothing. -/
  | nothing
  | expression
  | arithmetic
  | term
  | primary
  | statement
  | sequence
  | printing
  | loop
  | condition
  | functionDeclaration
  | variableDeclaration
  | assignmentOrCall
  deriving DecidableEq

/-- What a parser gives back. -/
inductive Answer
  /-- The step has no result. -/
  | done
  /-- The kind of the token brought into view. -/
  | kind (kind : Kind)
  /-- An expression. -/
  | expression (expr : Expr)
  /-- A retained statement. -/
  | statement (statement : Statement)
  /-- The retained statements of a sequence. -/
  | program (program : Program)
  deriving DecidableEq

/-- The rule of an action, with its result as an answer. -/
def Action.rule : Action → Inner σ → Rule σ Answer
  | advance, _ => .kind <$> Rule.advance
  | consume, _ => (fun _ => .done) <$> Rule.consume
  | expect kind, _ => (fun _ => .done) <$> Rule.expect kind
  | fail expected, _ => Rule.fail expected
  | nothing, _ => pure .done
  | expression, inner => .expression <$> Grammar.expression inner
  | arithmetic, inner => .expression <$> Grammar.arithmetic inner
  | term, inner => .expression <$> Grammar.term inner
  | primary, inner => .expression <$> Grammar.primary inner
  | statement, inner => (fun found => found.elim .done .statement) <$> Grammar.statement inner
  | sequence, inner => (fun retained => .program ⟨retained⟩) <$> Grammar.sequence inner
  | printing, inner => .statement <$> Grammar.printing inner
  | loop, inner => (fun _ => .done) <$> Grammar.loop inner
  | condition, inner => (fun _ => .done) <$> Grammar.condition inner
  | functionDeclaration, inner => (fun _ => .done) <$> Grammar.functionDeclaration inner
  | variableDeclaration, inner => (fun _ => .done) <$> Grammar.variableDeclaration inner
  | assignmentOrCall, inner => (fun _ => .done) <$> Grammar.assignmentOrCall inner

/-- Runs a rule some levels of nesting further in. -/
def Rule.nestedTimes {α : Type} (limit : Option Nat) : Nat → Rule σ α → Rule σ α
  | 0, rule => rule
  | count + 1, rule => Rule.nested limit fun parser => nestedTimes limit count rule parser

/-- An action inside some levels of nesting. -/
structure Step where
  /-- The number of levels that are opened around the action. -/
  nest : Nat
  /-- The action. -/
  action : Action

/-- The rule of a step. -/
def Step.rule (limit : Option Nat) (step : Step) : Rule σ Answer :=
  Rule.nestedTimes limit step.nest (Grammar.closed limit step.action.rule)

/-- The state that a step has led to, whatever became of it. -/
def stateAfter {ε τ α : Type} : EStateM.Result ε τ α → τ
  | .ok _ state => state
  | .error _ state => state

/-- What became of the steps of a session, with the parser after each of them. -/
def Parser.run (parser : Parser σ) : List Step → List (EStateM.Result Diagnostic (Parser σ) Answer)
  | [] => []
  | step :: steps =>
    let result := step.rule (some Grammar.maxDepth) parser
    result :: (stateAfter result).run steps

/-- What can be asked of a lexer. -/
inductive LexerAction
  /-- To read the next token. -/
  | advance
  /-- To parse a program from the next token on. -/
  | parse

/-- The step of a lexer. -/
def LexerAction.step (lexer : Lexer) : LexerAction → EStateM.Result Diagnostic Lexer Answer
  | advance =>
    match lexer.advance with
    | .ok kind next => .ok (.kind kind) next
    | .error fault next => .error fault next
  | parse =>
    match parseStream lexer with
    | .ok program next => .ok (.program program) next
    | .error fault next => .error fault next

/-- What became of the steps of a session, with the lexer after each of them. -/
def Lexer.run (lexer : Lexer) : List LexerAction → List (EStateM.Result Diagnostic Lexer Answer)
  | [] => []
  | action :: actions =>
    let result := action.step lexer
    result :: (stateAfter result).run actions

end ScriptFront
