import ScriptFront.Expr.Basic
import ScriptFront.Text.Quoted

/-!
# ScriptFront.Expr.Printer

The three **written forms of an expression**.

* `display` writes it as a source would, with brackets around every operator and ordinals in the
  place of names (`displayWith` puts names there).
* `debug` writes it as a tree, on one line.
* `pretty` writes the tree with each part on a line of its own, four blanks further in than what
  holds it, and a comma after each part.
-/

namespace ScriptFront

/-- An integer in decimal digits, with a minus sign if it is negative. -/
def decimal (value : Int64) : String :=
  Int.repr value.toInt

/-- The blanks before a line at a level of a tree. -/
def indent (level : Nat) : String :=
  String.ofList (List.replicate (4 * level) ' ')

/-- A named part with one part inside, which is written one level further in. -/
def prettyCall (level : Nat) (name argument : String) : String :=
  name ++ "(\n" ++ indent (level + 1) ++ argument ++ ",\n" ++ indent level ++ ")"

/-- A named part with several named parts inside, which are written one level further in. -/
def prettyRecord (level : Nat) (name : String) (fields : List (String × String)) : String :=
  name ++ " \x7b\n" ++
    String.join (fields.map fun field =>
      indent (level + 1) ++ field.1 ++ ": " ++ field.2 ++ ",\n") ++
    indent level ++ "\x7d"

namespace Expr

/-- The expression with brackets around every operator, and the given names for its
identifiers. -/
def displayWith (name : UInt32 → String) : Expr → String
  | const value => decimal value
  | id ordinal => name ordinal
  | str text => Text.quote text
  | binary op left right =>
    "(" ++ left.displayWith name ++ " " ++ op.symbol ++ " " ++ right.displayWith name ++ ")"

/-- The name that stands for an identifier where the names of a source are not at hand. -/
def placeholder (ordinal : UInt32) : String :=
  "#" ++ Nat.repr ordinal.toNat

/-- The expression with brackets around every operator. -/
def display (expr : Expr) : String :=
  expr.displayWith placeholder

/-- The expression as a tree on one line. -/
def debug : Expr → String
  | const value => "Const(" ++ decimal value ++ ")"
  | id ordinal => "Id(" ++ Nat.repr ordinal.toNat ++ ")"
  | str text => "Str(" ++ Text.quote text ++ ")"
  | binary op left right =>
    "Binary \x7b op: " ++ op.name ++ ", left: " ++ left.debug ++ ", right: " ++ right.debug ++
      " \x7d"

/-- The expression as a tree of lines, its own first line standing at the given level. -/
def pretty (level : Nat) : Expr → String
  | const value => prettyCall level "Const" (decimal value)
  | id ordinal => prettyCall level "Id" (Nat.repr ordinal.toNat)
  | str text => prettyCall level "Str" (Text.quote text)
  | binary op left right =>
    prettyRecord level "Binary"
      [("op", op.name), ("left", left.pretty (level + 1)), ("right", right.pretty (level + 1))]

end Expr

end ScriptFront
