import ScriptFront.Expr.Printer

/-!
# ScriptFront.Program

A **program** as far as it is retained: the values that its top-level print statements write, in
their order. All else is checked and then dropped. The written forms are those of a list of
statement trees.
-/

namespace ScriptFront

/-- A statement that is retained. -/
inductive Statement
  /-- Writes a value. -/
  | write (value : Expr)
  deriving DecidableEq

/-- The retained statements of a source, in their order. -/
structure Program where
  /-- The statements. -/
  statements : List Statement
  deriving DecidableEq

namespace Statement

/-- The value that a statement writes. -/
def value : Statement → Expr
  | write value => value

/-- The statement as a tree on one line. -/
def debug : Statement → String
  | write value => "StmtNode \x7b kind: Write(" ++ value.debug ++ ") \x7d"

/-- The statement as a tree of lines, its own first line standing at the given level. -/
def pretty (level : Nat) : Statement → String
  | write value =>
    prettyRecord level "StmtNode"
      [("kind", prettyCall (level + 1) "Write" (value.pretty (level + 2)))]

end Statement

namespace Program

/-- The number of retained statements. -/
def size (program : Program) : Nat :=
  program.statements.length

/-- The program as a list of trees on one line. -/
def debug (program : Program) : String :=
  "[" ++ ", ".intercalate (program.statements.map Statement.debug) ++ "]"

/-- The program as a list of trees, with each part on a line of its own. -/
def pretty (program : Program) : String :=
  if program.statements.isEmpty then "[]"
  else
    "[\n" ++
      String.join (program.statements.map fun statement =>
        indent 1 ++ statement.pretty 1 ++ ",\n") ++
      "]"

end Program

end ScriptFront
