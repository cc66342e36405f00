import ScriptFront.Text.WhiteSpace
import ScriptFront.Token.Kind

/-!
# ScriptFront.Token.Pattern

The **patterns of lexemes**. A pattern takes an initial segment of the text, or does not match
(`isPrefix_of_lexeme?`). The patterns are tried in the order of a table, and the first that matches
decides; what it takes is never empty (`ne_nil_of_classify?`). In the table an operator of two
characters stands before the operator that it begins with.
-/

namespace ScriptFront

open Text (isWhiteSpace)

/-- A class of lexemes. -/
inductive Pattern
  /-- A run of white space. -/
  | blank
  /-- Two slashes and what follows them on the line. -/
  | comment
  /-- A reserved word or a name: letters, digits and underscores, of which a digit is not first. -/
  | word
  /-- A run of decimal digits. -/
  | digits
  /-- A text in double quotes, which may hold anything but a double quote. -/
  | quoted
  /-- A sign that is always written the same way. -/
  | sign (text : List Char) (kind : Kind)
  deriving DecidableEq

/-- Whether a character can begin a word. -/
def isWordStart (c : Char) : Bool :=
  c.isAlpha || c == '_'

/-- Whether a character can continue a word. -/
def isWordPart (c : Char) : Bool :=
  isWordStart c || c.isDigit

/-- The longest initial segment of a text that a class of characters fills, if there is one. -/
def run? (among : Char → Bool) (text : List Char) : Option (List Char) :=
  match text.takeWhile among with
  | [] => none
  | c :: cs => some (c :: cs)

theorem run?_eq_some {among : Char → Bool} {text lexeme : List Char} :
    run? among text = some lexeme ↔ text.takeWhile among = lexeme ∧ lexeme ≠ [] := by
  simp only [run?]
  split
  · next none_taken => simp [none_taken]
  · next taken =>
    simp only [taken, Option.some.injEq]
    constructor
    · rintro rfl
      simp
    · exact And.left

namespace Pattern

/-- The initial segment of a text that matches a pattern. -/
def lexeme? : Pattern → List Char → Option (List Char)
  | blank, text => run? isWhiteSpace text
  | comment, '/' :: '/' :: rest => some ('/' :: '/' :: rest.takeWhile (· != '\n'))
  | comment, _ => none
  | word, c :: rest => if isWordStart c then some (c :: rest.takeWhile isWordPart) else none
  | word, [] => none
  | digits, text => run? Char.isDigit text
  | quoted, '"' :: rest =>
    if rest.contains '"' then some ('"' :: rest.takeWhile (· != '"') ++ ['"']) else none
  | quoted, _ => none
  | sign spelling _, text => if spelling.isPrefixOf text then some spelling else none

/-- The patterns, in the order in which they are tried. -/
def table : List Pattern :=
  [blank, comment, word, digits, quoted,
   sign ['\x7b'] .openCurly,
   sign ['\x7d'] .closeCurly,
   sign ['('] .openParen,
   sign [')'] .closeParen,
   sign ['=', '='] .equals,
   sign ['!', '='] .notEquals,
   sign ['='] .assignment,
   sign ['<', '='] .lessEquals,
   sign ['<'] .less,
   sign ['>', '='] .greaterEquals,
   sign ['>'] .greater,
   sign [';'] .semicolon,
   sign [','] .comma,
   sign ['+', '+'] .plusPlus,
   sign ['-', '-'] .minusMinus,
   sign ['+'] .plus,
   sign ['-'] .dash,
   sign ['/'] .slash,
   sign ['*'] .star]

/-- The first pattern of the table that matches, with the segment that it takes. -/
def classify? (text : List Char) : Option (Pattern × List Char) :=
  table.findSome? fun pattern => (pattern.lexeme? text).map fun lexeme => (pattern, lexeme)

/-- What lies up to and including the first occurrence of a character, if there is one. -/
theorem takeWhile_ne_append_prefix {mark : Char} {text : List Char} (h : text.contains mark) :
    text.takeWhile (· != mark) ++ [mark] <+: text := by
  induction text with
  | nil => simp at h
  | cons c cs ih =>
    by_cases same : c = mark
    · simp [same]
    · have later : cs.contains mark := by simpa [Ne.symm same] using h
      simpa [same] using ih later

/-- What a pattern takes stands at the start of the text. -/
theorem isPrefix_of_lexeme? {pattern : Pattern} {text lexeme : List Char}
    (h : pattern.lexeme? text = some lexeme) : lexeme <+: text := by
  revert h
  fun_cases lexeme? pattern text with
  | case1 | case7 =>
    intro h
    rw [← (run?_eq_some.mp h).1]
    exact List.takeWhile_prefix _
  | case2 | case4 =>
    rintro ⟨⟩
    simpa using List.takeWhile_prefix _
  | case8 rest closed =>
    rintro ⟨⟩
    simpa using takeWhile_ne_append_prefix closed
  | case11 text kind spelling matched =>
    rintro ⟨⟩
    exact List.isPrefixOf_iff_prefix.mp matched
  | _ => rintro ⟨⟩

/-- A pattern of the table takes at least one character. -/
theorem ne_nil_of_lexeme? {pattern : Pattern} {text lexeme : List Char} (listed : pattern ∈ table)
    (h : pattern.lexeme? text = some lexeme) : lexeme ≠ [] := by
  revert h
  fun_cases lexeme? pattern text with
  | case1 | case7 => exact fun h => (run?_eq_some.mp h).2
  | case2 | case4 | case8 =>
    rintro ⟨⟩
    simp
  | case11 text kind spelling matched =>
    rintro ⟨⟩ rfl
    simp [table] at listed
  | _ => rintro ⟨⟩

/-- The pattern chosen is one of the table, and matches. -/
theorem of_classify? {text lexeme : List Char} {pattern : Pattern}
    (h : classify? text = some (pattern, lexeme)) :
    pattern ∈ table ∧ pattern.lexeme? text = some lexeme := by
  obtain ⟨chosen, listed, same⟩ := List.exists_of_findSome?_eq_some h
  obtain ⟨taken, matched, pair⟩ := Option.map_eq_some_iff.mp same
  cases pair
  exact ⟨listed, matched⟩

theorem isPrefix_of_classify? {text lexeme : List Char} {pattern : Pattern}
    (h : classify? text = some (pattern, lexeme)) : lexeme <+: text :=
  isPrefix_of_lexeme? (of_classify? h).2

theorem ne_nil_of_classify? {text lexeme : List Char} {pattern : Pattern}
    (h : classify? text = some (pattern, lexeme)) : lexeme ≠ [] :=
  ne_nil_of_lexeme? (of_classify? h).1 (of_classify? h).2

end Pattern

end ScriptFront
