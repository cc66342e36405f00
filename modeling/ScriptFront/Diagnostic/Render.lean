import ScriptFront.Diagnostic.Basic
import ScriptFront.Source.Line
import ScriptFront.Text.WhiteSpace

/-!
# ScriptFront.Diagnostic.Render

The **report of a diagnostic** against the source that it was found in: the cause and its hint,
the file, and the offending line with a caret under the place.

The line is shown without the blanks before it and the white space after it. The caret stands
behind one dash for every byte between the first byte shown and the place, and a bar in front of
each of the three rows lines them up.
-/

namespace ScriptFront

/-- A text set to the right of a field of the given width; a longer text is not cut. -/
def padLeft (width : Nat) (fill : Char) (text : List Char) : List Char :=
  List.replicate (width - text.length) fill ++ text

/-- The number of blanks at the start of a line. -/
def indentation (line : List Char) : Nat :=
  (line.takeWhile (· == ' ')).length

namespace Diagnostic

/-- The row that names the cause, with the hint if there is one. -/
def headRow (diagnostic : Diagnostic) : List Char :=
  let head := "Error: " ++ diagnostic.cause.name
  match diagnostic.tip? with
  | some tip => (head ++ " (" ++ tip ++ ")").toList
  | none => head.toList

/-- The row that names the file. -/
def fileRow (diagnostic : Diagnostic) : List Char :=
  ("-> " ++ diagnostic.position.file).toList

/-- The row in place of the line, where the place lies beyond the source. -/
def locationRow (diagnostic : Diagnostic) : List Char :=
  ("   at line " ++ Nat.repr diagnostic.location.line.toNat ++ ", identifier " ++
    Nat.repr diagnostic.location.ordinal.toNat).toList

/-- The bar of the rows that show the line, behind the width of its number. -/
def bar (view : LineView) : List Char :=
  padLeft ((Nat.repr view.number).length + 2) ' ' ['|']

/-- The row that shows the line. -/
def lineRow (view : LineView) : List Char :=
  (Nat.repr view.number ++ " | ").toList ++
    Text.trimEnd (view.text.drop (indentation view.text))

/-- The row that points at the place. -/
def caretRow (view : LineView) : List Char :=
  bar view ++ [' '] ++ padLeft (view.offset - indentation view.text + 1) '-' ['^']

/-- The rows of a report. -/
def rows (diagnostic : Diagnostic) (source : String) : List (List Char) :=
  [diagnostic.headRow, diagnostic.fileRow] ++
    match lineAt? source diagnostic.position.offset with
    | none => [diagnostic.locationRow]
    | some view => [bar view, lineRow view, caretRow view]

/-- The report of a diagnostic, each row ended by a newline. -/
def render (diagnostic : Diagnostic) (source : String) : String :=
  String.ofList ((diagnostic.rows source).flatMap fun row => row ++ ['\n'])

end Diagnostic

end ScriptFront
