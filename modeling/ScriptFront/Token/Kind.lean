/-!
# ScriptFront.Token.Kind

The **kinds of tokens** of the script language, their names, and the words that are reserved.
-/

namespace ScriptFront

/-- The kinds of tokens. -/
inductive Kind
  /-- The end of the source. -/
  | eof
  /-- A decimal integer. -/
  | number
  /-- A text in double quotes. -/
  | string
  /-- A name that is not reserved. -/
  | identifier
  | openCurly
  | closeCurly
  | openParen
  | closeParen
  | comma
  | semicolon
  /-- The single equals sign, which assigns. -/
  | assignment
  /-- The double equals sign, which compares. -/
  | equals
  | notEquals
  | less
  | lessEquals
  | greater
  | greaterEquals
  | plusPlus
  | minusMinus
  | plus
  | dash
  | slash
  | star
  | printWord
  | forWord
  | ifWord
  | elseWord
  | funWord
  | varWord
  | returnWord
  deriving DecidableEq

namespace Kind

/-- The kinds, in the order of their declaration. -/
def all : List Kind :=
  [eof, number, string, identifier, openCurly, closeCurly, openParen, closeParen, comma, semicolon,
   assignment, equals, notEquals, less, lessEquals, greater, greaterEquals, plusPlus, minusMinus,
   plus, dash, slash, star, printWord, forWord, ifWord, elseWord, funWord, varWord, returnWord]

/-- The name of a kind, as token lists and diagnostics show it. -/
def name : Kind → String
  | eof => "EOF"
  | number => "Number"
  | string => "String"
  | identifier => "Identifier"
  | openCurly => "OpenCurly"
  | closeCurly => "CloseCurly"
  | openParen => "OpenParen"
  | closeParen => "CloseParen"
  | comma => "Comma"
  | semicolon => "Semicolon"
  | assignment => "Assignment"
  | equals => "Equals"
  | notEquals => "NotEquals"
  | less => "Less"
  | lessEquals => "LessEquals"
  | greater => "Greater"
  | greaterEquals => "GreaterEquals"
  | plusPlus => "PlusPlus"
  | minusMinus => "MinusMinus"
  | plus => "Plus"
  | dash => "Dash"
  | slash => "Slash"
  | star => "Star"
  | printWord => "Print"
  | forWord => "For"
  | ifWord => "If"
  | elseWord => "Else"
  | funWord => "Fun"
  | varWord => "Var"
  | returnWord => "Return"

/-- The kind of a given name. -/
def ofName? (name : String) : Option Kind :=
  all.find? fun kind => kind.name == name

/-- A kind is found under its name, so no two kinds share one. -/
theorem ofName?_name (kind : Kind) : ofName? kind.name = some kind := by
  cases kind <;> decide

/-- The reserved words. -/
def reserved : List (String × Kind) :=
  [("print", printWord), ("for", forWord), ("if", ifWord), ("else", elseWord), ("fun", funWord),
   ("var", varWord), ("return", returnWord)]

/-- The kind of a reserved word. -/
def ofReserved? (word : String) : Option Kind :=
  reserved.lookup word

/-- No word is reserved twice, so each has the kind that stands beside it. -/
theorem ofReserved?_eq_some_iff {word : String} {kind : Kind} :
    ofReserved? word = some kind ↔ (word, kind) ∈ reserved := by
  constructor
  · intro h
    obtain ⟨before, after, heq, -⟩ := List.lookup_eq_some_iff.mp h
    rw [heq]
    exact List.mem_append_right _ List.mem_cons_self
  · intro hmem
    have hall : ∀ entry ∈ reserved, ofReserved? entry.1 = some entry.2 := by decide
    exact hall _ hmem

/-- The kinds that compare two numbers. -/
def isRelational : Kind → Bool
  | equals | notEquals | less | lessEquals | greater | greaterEquals => true
  | _ => false

/-- The kinds that begin a statement, at the top level and between the braces of a condition. -/
def startsStatement : Kind → Bool
  | printWord | ifWord | forWord | varWord | identifier | funWord => true
  | _ => false

end Kind

end ScriptFront
