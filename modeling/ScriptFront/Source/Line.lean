import ScriptFront.Text.Bytes

/-!
# ScriptFront.Source.Line

The **lines of a source**, each with the newline that ends it, and the line that a byte offset
falls into. Nothing is lost in the cut (`flatten_splitLines`).
-/

namespace ScriptFront

open Text (byteSize)

/-- Lines with one more character in front. The character joins the first line, unless it is a
newline, which makes a line of its own. -/
def consChar (c : Char) (lines : List (List Char)) : List (List Char) :=
  if c = '\n' then [c] :: lines
  else
    match lines with
    | [] => [[c]]
    | line :: lines => (c :: line) :: lines

/-- The lines of a text, each with its newline; an empty text has none. -/
def splitLines (text : List Char) : List (List Char) :=
  text.foldr consChar []

@[simp] theorem splitLines_nil : splitLines [] = [] := rfl

@[simp] theorem splitLines_cons (c : Char) (cs : List Char) :
    splitLines (c :: cs) = consChar c (splitLines cs) := rfl

@[simp] theorem flatten_consChar (c : Char) (lines : List (List Char)) :
    (consChar c lines).flatten = c :: lines.flatten := by
  simp only [consChar]
  split
  · rfl
  · cases lines <;> rfl

/-- The lines of a text, put together again, are the text. -/
theorem flatten_splitLines (text : List Char) : (splitLines text).flatten = text := by
  induction text with
  | nil => rfl
  | cons c cs ih => simp [ih]

/-- A place of a source, shown as a place in one of its lines. -/
structure LineView where
  /-- The number of the line, counted from one. -/
  number : Nat
  /-- The line, with its newline if it has one. -/
  text : List Char
  /-- The number of bytes of the line before the place. -/
  offset : Nat
  deriving DecidableEq

/-- Looks for a place in lines, the first of which begins at the given byte and has the given
number. If all of them end before the place, it gives the number behind the last one. -/
def searchLines (place : Nat) : Nat → Nat → List (List Char) → Sum LineView Nat
  | _, number, [] => .inr number
  | start, number, line :: lines =>
    let stop := start + byteSize line
    if start ≤ place ∧ place < stop then .inl ⟨number, line, place - start⟩
    else searchLines place stop (number + 1) lines

/-- The line of the place at the very end of some lines, where the number behind the last one is
given. That is the last line if it lacks its newline, and otherwise an empty one of its own. -/
def lineAtEnd (lines : List (List Char)) (number : Nat) : LineView :=
  match lines.getLast? with
  | some last =>
    if last.getLast? = some '\n' then ⟨number, [], 0⟩ else ⟨number - 1, last, byteSize last⟩
  | none => ⟨number, [], 0⟩

/-- The line that holds the byte at an offset. Beyond the end there is none. -/
def lineAt? (source : String) (offset : UInt32) : Option LineView :=
  let place := offset.toNat
  let lines := splitLines source.toList
  if source.utf8ByteSize < place then none
  else
    match searchLines place 0 1 lines with
    | .inl view => some view
    | .inr number => some (lineAtEnd lines number)

end ScriptFront
