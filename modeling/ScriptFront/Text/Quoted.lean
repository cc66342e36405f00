import ScriptFront.Text.Printable

/-!
# ScriptFront.Text.Quoted

**Quoted texts**: a text between double quotes, with every character that would not show, or
would be taken for the closing quote, written as an escape.

* The five characters with a letter of their own are NUL, tab, carriage return, line feed, and
  the two that carry the quotation itself: the double quote and the backslash.
* Every other character that does not show as itself is written by its code point in lower-case
  hexadecimal digits between braces.
* All else stands as it is; an apostrophe needs no escape.
-/

namespace ScriptFront.Text

/-- The letter after the backslash, for a character that has an escape of its own. -/
def escapeLetter? (c : Char) : Option Char :=
  if c = '\x00' then some '0'
  else if c = '\t' then some 't'
  else if c = '\r' then some 'r'
  else if c = '\n' then some 'n'
  else if c = '"' then some '"'
  else if c = '\\' then some '\\'
  else none

/-- A character by its code point. -/
def escapeCodePoint (c : Char) : List Char :=
  ['\\', 'u', '\x7b'] ++ Nat.toDigits 16 c.toNat ++ ['\x7d']

/-- A character as it is written between quotes. -/
def escape (c : Char) : List Char :=
  match escapeLetter? c with
  | some letter => ['\\', letter]
  | none => if isPrintable c then [c] else escapeCodePoint c

/-- The characters of a quoted text. -/
def quoteChars (cs : List Char) : List Char :=
  '"' :: cs.flatMap escape ++ ['"']

/-- A text in double quotes. -/
def quote (text : String) : String :=
  String.ofList (quoteChars text.toList)

end ScriptFront.Text
