import ScriptFront.Grammar.Expression

/-!
# ScriptFront.Grammar.Statement

The **grammar of statements**. Only a print statement has a value; every other statement is checked
in full, bodies included, and then dropped.

At the top level, and between the braces of a condition, all six statements may stand. The bodies of
loops and functions admit neither loops nor functions, and a function may end in a return.

A condition is the other construct that nests. Its test and its branches lie one level further in.
-/

namespace ScriptFront

variable {σ : Type} [TokenStream σ]

namespace Grammar

open Rule

/-- The contents of a text. -/
def text : Rule σ Expr := do
  let contents ← payload TokenStream.stringValue
  consume
  return .str contents

/-- What can be printed or returned: a text or an expression. -/
def value (inner : Inner σ) : Rule σ Expr := do
  if (← lookahead) = .string then text else expression inner

/-- A print statement. -/
def printing (inner : Inner σ) : Rule σ Statement := do
  expect .printWord
  expect .openParen
  let value ← value inner
  expect .closeParen
  expect .semicolon
  return .write value

/-- The declaration of a variable with its first value. -/
def variableDeclaration (inner : Inner σ) : Rule σ Unit := do
  expect .varWord
  expect .identifier
  expect .assignment
  let _ ← expression inner
  expect .semicolon

/-- The comma between two items of a list in parentheses. It may be left out, or stand there all
the same, where the list is closed next. -/
def separator : Rule σ Unit := do
  if (← lookahead) = .closeParen then pure () else expect .comma

/-- One more item of a list with its separator, if a kind that may stand there is in view. -/
def item (admits : Kind → Bool) : Rule σ Bool := do
  if admits (← lookahead) then do
    consume
    separator
    return true
  else return false

/-- The items of a list, each of a kind that may stand there, with their separators. -/
def items (admits : Kind → Bool) : Rule σ Unit :=
  repeatWhile (item admits)

/-- The kinds that may stand among the parameters of a function. -/
def isParameter : Kind → Bool
  | .identifier => true
  | _ => false

/-- The kinds that may stand among the arguments of a call. -/
def isArgument : Kind → Bool
  | .identifier | .number | .string => true
  | _ => false

/-- What follows the name in an assignment or a call. -/
def assignmentOrCallTail (inner : Inner σ) : Rule σ Unit := do
  match ← lookahead with
  | .assignment => do
    consume
    let _ ← expression inner
  | .openParen => do
    consume
    items isArgument
    expect .closeParen
  | _ => fail [.assignment, .openParen]

/-- An assignment to a variable, or a call of a function. -/
def assignmentOrCall (inner : Inner σ) : Rule σ Unit := do
  expect .identifier
  assignmentOrCallTail inner
  expect .semicolon

/-- The second branch of a condition, if there is one. -/
def elseBranch (inner : Inner σ) : Rule σ Unit := do
  if (← lookahead) = .elseWord then do
    consume
    expect .openCurly
    let _ ← inner.sequence
    expect .closeCurly
  else pure ()

/-- A condition, without the level of nesting that it opens. -/
def branches (inner : Inner σ) : Rule σ Unit := do
  expect .ifWord
  expect .openParen
  let _ ← inner.expression
  expect .closeParen
  expect .openCurly
  let _ ← inner.sequence
  expect .closeCurly
  elseBranch inner

/-- A condition with one branch or two. -/
def condition (inner : Inner σ) : Rule σ Unit :=
  nested inner.limit (branches inner)

/-- One statement of the body of a loop or a function, if the token in view starts one. -/
def bodyStatement (inner : Inner σ) : Rule σ Bool := do
  match ← lookahead with
  | .printWord => do
    let _ ← printing inner
    return true
  | .ifWord => do
    condition inner
    return true
  | .varWord => do
    variableDeclaration inner
    return true
  | .identifier => do
    assignmentOrCall inner
    return true
  | _ => return false

/-- The body of a loop or a function. -/
def body (inner : Inner σ) : Rule σ Unit :=
  repeatWhile (bodyStatement inner)

/-- What follows the name in the increment of a loop. -/
def incrementTail (inner : Inner σ) : Rule σ Unit := do
  match ← lookahead with
  | .plusPlus => consume
  | .minusMinus => consume
  | .assignment => do
    consume
    let _ ← expression inner
  | _ => fail [.plusPlus, .minusMinus, .assignment]

/-- The increment of a loop. -/
def increment (inner : Inner σ) : Rule σ Unit := do
  expect .identifier
  incrementTail inner

/-- A loop. -/
def loop (inner : Inner σ) : Rule σ Unit := do
  expect .forWord
  expect .openParen
  variableDeclaration inner
  let _ ← expression inner
  expect .semicolon
  increment inner
  expect .closeParen
  expect .openCurly
  body inner
  expect .closeCurly

/-- The return at the end of a function, if there is one. -/
def returning (inner : Inner σ) : Rule σ Unit := do
  if (← lookahead) = .returnWord then do
    consume
    let _ ← value inner
    expect .semicolon
  else pure ()

/-- The declaration of a function. -/
def functionDeclaration (inner : Inner σ) : Rule σ Unit := do
  expect .funWord
  expect .identifier
  expect .openParen
  items isParameter
  expect .closeParen
  expect .openCurly
  body inner
  returning inner
  expect .closeCurly

/-- One statement, if the token in view starts one; only a print statement is retained. -/
def statement (inner : Inner σ) : Rule σ (Option Statement) := do
  match ← lookahead with
  | .printWord => some <$> printing inner
  | .forWord => do
    loop inner
    return none
  | .ifWord => do
    condition inner
    return none
  | .funWord => do
    functionDeclaration inner
    return none
  | .varWord => do
    variableDeclaration inner
    return none
  | .identifier => do
    assignmentOrCall inner
    return none
  | _ => return none

/-- One more statement behind those that have been read, if the token in view starts one. -/
def sequenceStep (inner : Inner σ) (retained : List Statement) :
    Rule σ (Option (List Statement)) := do
  if (← lookahead).startsStatement then do
    let next ← statement inner
    return some (retained ++ next.toList)
  else return none

/-- The statements that follow one another, for as long as the token in view starts one. -/
def sequence (inner : Inner σ) : Rule σ (List Statement) :=
  many (sequenceStep inner) []

end Grammar

end ScriptFront
