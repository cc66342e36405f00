import ScriptFront.Expr.Basic
import ScriptFront.Grammar.Rule
import ScriptFront.Program

/-!
# ScriptFront.Grammar.Expression

The **grammar of expressions**, one rule for each strength of binding:

* an expression is a sum, or two sums under a comparison;
* a sum is one or more products with `+` or `-` between them;
* a product is one or more primaries with `*` or `/` between them;
* a primary is an integer, an identifier, or an expression in parentheses.

Sums and products lean to the left. A comparison does not chain.

Parentheses are one of the two constructs that nest. What lies one level further in is not called
by name but taken from a parameter (`Inner`), so that no rule calls itself; the parameter is filled
in one level at a time when a rule is run.
-/

namespace ScriptFront

variable {σ : Type} [TokenStream σ]

/-- The rules one level of nesting further in. -/
structure Inner (σ : Type) where
  /-- The number of levels that may be open at once, if it is limited. -/
  limit : Option Nat
  /-- An expression, one level further in. -/
  expression : Rule σ Expr
  /-- A sequence of statements, one level further in. -/
  sequence : Rule σ (List Statement)

namespace Grammar

open Rule

/-- An integer. -/
def integer : Rule σ Expr := do
  let value ← payload TokenStream.intValue
  consume
  return .const value

/-- An identifier. -/
def identifier : Rule σ Expr := do
  let ordinal ← payload TokenStream.ordinal
  consume
  return .id ordinal

/-- An expression in parentheses, without the level of nesting that it opens. -/
def parenthesised (inner : Inner σ) : Rule σ Expr := do
  consume
  let value ← inner.expression
  expect .closeParen
  return value

/-- An integer, an identifier, or an expression in parentheses. -/
def primary (inner : Inner σ) : Rule σ Expr := do
  match ← lookahead with
  | .number => integer
  | .identifier => identifier
  | .openParen => nested inner.limit (parenthesised inner)
  | _ => fail [.number, .identifier, .openParen]

/-- One more operator and operand behind what has been read, if an operator of the class is in
view. -/
def chainStep (among : BinaryOp → Bool) (operand : Rule σ Expr) (left : Expr) :
    Rule σ (Option Expr) := do
  match (BinaryOp.ofKind? (← lookahead)).filter among with
  | none => return none
  | some op => do
    consume
    let right ← operand
    return some (.binary op left right)

/-- Operands with operators of one class between them, grouped from the left. -/
def chain (among : BinaryOp → Bool) (operand : Rule σ Expr) : Rule σ Expr := do
  let first ← operand
  many (chainStep among operand) first

/-- Primaries with multiplications and divisions between them. -/
def term (inner : Inner σ) : Rule σ Expr :=
  chain BinaryOp.isMultiplicative (primary inner)

/-- Products with additions and subtractions between them. -/
def arithmetic (inner : Inner σ) : Rule σ Expr :=
  chain BinaryOp.isAdditive (term inner)

/-- A sum, or a comparison of two. -/
def expression (inner : Inner σ) : Rule σ Expr := do
  let left ← arithmetic inner
  match (BinaryOp.ofKind? (← lookahead)).filter BinaryOp.isRelational with
  | none => return left
  | some op => do
    consume
    let right ← arithmetic inner
    return .binary op left right

end Grammar

end ScriptFront
