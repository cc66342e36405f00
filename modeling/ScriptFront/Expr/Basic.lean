import ScriptFront.Token.Kind

/-!
# ScriptFront.Expr.Basic

**Expressions** of the script language: integers, identifiers by their ordinal, texts, and two
operands under an operator.
-/

namespace ScriptFront

/-- The operators between two operands. -/
inductive BinaryOp
  | add
  | sub
  | mul
  | div
  | eq
  | notEq
  | less
  | lessEq
  | greater
  | greaterEq
  deriving DecidableEq

namespace BinaryOp

/-- The operators, in the order of their declaration. -/
def all : List BinaryOp :=
  [add, sub, mul, div, eq, notEq, less, lessEq, greater, greaterEq]

theorem mem_all (op : BinaryOp) : op ∈ all := by
  cases op <;> decide

/-- The name of an operator, as a tree shows it. -/
def name : BinaryOp → String
  | add => "Add"
  | sub => "Sub"
  | mul => "Mul"
  | div => "Div"
  | eq => "Eq"
  | notEq => "NotEq"
  | less => "Less"
  | lessEq => "LessEq"
  | greater => "Greater"
  | greaterEq => "GreaterEq"

/-- The operator of a given name. -/
def ofName? (name : String) : Option BinaryOp :=
  all.find? fun op => op.name == name

/-- An operator is found under its name, so no two operators share one. -/
theorem ofName?_name (op : BinaryOp) : ofName? op.name = some op := by
  cases op <;> decide

/-- The sign of an operator, as a source writes it. -/
def symbol : BinaryOp → String
  | add => "+"
  | sub => "-"
  | mul => "*"
  | div => "/"
  | eq => "=="
  | notEq => "!="
  | less => "<"
  | lessEq => "<="
  | greater => ">"
  | greaterEq => ">="

/-- The kind of token that an operator is written by. -/
def kind : BinaryOp → Kind
  | add => .plus
  | sub => .dash
  | mul => .star
  | div => .slash
  | eq => .equals
  | notEq => .notEquals
  | less => .less
  | lessEq => .lessEquals
  | greater => .greater
  | greaterEq => .greaterEquals

/-- The operator that a kind of token stands for. -/
def ofKind? : Kind → Option BinaryOp
  | .plus => some add
  | .dash => some sub
  | .star => some mul
  | .slash => some div
  | .equals => some eq
  | .notEquals => some notEq
  | .less => some less
  | .lessEquals => some lessEq
  | .greater => some greater
  | .greaterEquals => some greaterEq
  | _ => none

/-- A kind stands for an operator exactly when the operator is written by it. -/
theorem ofKind?_eq_some {kind : Kind} {op : BinaryOp} : ofKind? kind = some op ↔ op.kind = kind := by
  cases kind <;> cases op <;> decide

/-- The operators that compare, and bind least. -/
def isRelational : BinaryOp → Bool
  | eq | notEq | less | lessEq | greater | greaterEq => true
  | _ => false

/-- The operators that add or subtract. -/
def isAdditive : BinaryOp → Bool
  | add | sub => true
  | _ => false

/-- The operators that multiply or divide, and bind most. -/
def isMultiplicative : BinaryOp → Bool
  | mul | div => true
  | _ => false

end BinaryOp

/-- Expressions. -/
inductive Expr
  /-- An integer. -/
  | const (value : Int64)
  /-- An identifier, by its place among the names of the source. -/
  | id (ordinal : UInt32)
  /-- A text. -/
  | str (text : String)
  /-- Two operands under an operator. -/
  | binary (op : BinaryOp) (left right : Expr)
  deriving DecidableEq

end ScriptFront
