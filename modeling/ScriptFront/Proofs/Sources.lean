import ScriptFront.Proofs.Cutting
import ScriptFront.Proofs.Recording
import ScriptFront.Proofs.Retained

/-!
# ScriptFront.Proofs.Sources

**What the parser makes of a source, told by its lexemes.** A source is parsed to the statements
that the symbols of its lexemes spell, and to nothing else (`Cut.parse_of_sequence`,
`Cut.sequence_of_parse`). Whatever is parsed can be cut (`exists_cut_of_parse`).
-/

namespace ScriptFront

open Grammar

/-- The names of a source, each at its ordinal, as the lexer has them behind a parse. -/
def namesOf (source file : String) : List String :=
  match parseStream (Lexer.ofSource source file) with
  | .ok _ lexer => lexer.names
  | .error _ lexer => lexer.names

/-- The table of the names of some lexemes. -/
def Lexeme.names (lexemes : List Lexeme) : List String :=
  tableFrom [] lexemes

/-- The symbols of some lexemes, by the table of their own names. -/
def Lexeme.symbols (lexemes : List Lexeme) : List Symbol :=
  lexemes.map (symbol (names lexemes))

variable {source file : String} {lexemes : List Lexeme}

/-- The stream of a source that is cut, from its first token to behind its end. -/
theorem Cut.exists_trail (hcut : Cut source.toList lexemes)
    (hreadable : ∀ lexeme ∈ lexemes, lexeme.Readable) (file : String) :
    ∃ kind start stop rest, TokenStream.advance (Lexer.ofSource source file) = .ok kind start ∧
      Trail (Lexeme.symbols lexemes) start kind stop .eof ∧
      TokenStream.advance stop = .ok .eof rest ∧
      rest.identifiers.Numbers (Lexeme.names lexemes) := by
  obtain ⟨kind, start, stop, hfirst, hend, hnumbers, htrail⟩ :=
    hcut.trail hreadable (Lexer.ofSource source file) rfl [] NameTable.numbers_empty
  have hgap : Trivia [] stop.cursor.unread := by
    rw [hend]
    exact .nil
  obtain ⟨rest, hlast, -, hrest⟩ := Lexer.exists_advance_end hgap
  exact ⟨kind, start, stop, rest, hfirst, htrail _ List.prefix_rfl, hlast, hrest ▸ hnumbers⟩

section

variable {statements : List Statement}

theorem Cut.exists_parseStream (hcut : Cut source.toList lexemes)
    (hreadable : ∀ lexeme ∈ lexemes, lexeme.Readable)
    (h : Spelling.Sequence maxDepth (Lexeme.symbols lexemes) statements) (file : String) :
    ∃ rest, parseStream (Lexer.ofSource source file) = .ok ⟨statements⟩ rest ∧
      rest.identifiers.Numbers (Lexeme.names lexemes) := by
  obtain ⟨kind, start, stop, rest, hfirst, htrail, hlast, hnumbers⟩ :=
    hcut.exists_trail hreadable file
  exact ⟨rest, Spelling.parse_of_spelled hfirst htrail hlast h, hnumbers⟩

/-- A source whose symbols spell some statements is parsed to these. -/
theorem Cut.parse_of_sequence (hcut : Cut source.toList lexemes)
    (hreadable : ∀ lexeme ∈ lexemes, lexeme.Readable)
    (h : Spelling.Sequence maxDepth (Lexeme.symbols lexemes) statements) (file : String) :
    parse source file = .ok ⟨statements⟩ := by
  obtain ⟨rest, hparse, -⟩ := hcut.exists_parseStream hreadable h file
  unfold parse
  rw [hparse]

/-- Its names are those of its lexemes, if ordinals can tell these apart. -/
theorem Cut.namesOf_of_sequence (hcut : Cut source.toList lexemes)
    (hreadable : ∀ lexeme ∈ lexemes, lexeme.Readable)
    (h : Spelling.Sequence maxDepth (Lexeme.symbols lexemes) statements)
    (hlength : (Lexeme.names lexemes).length < 2 ^ 32) (file : String) :
    namesOf source file = Lexeme.names lexemes := by
  obtain ⟨rest, hparse, hnumbers⟩ := hcut.exists_parseStream hreadable h file
  unfold namesOf
  rw [hparse]
  exact hnumbers.names_eq hlength.le

end

/-- A source that is parsed spells the statements of its program. -/
theorem Cut.sequence_of_parse (hcut : Cut source.toList lexemes)
    (hreadable : ∀ lexeme ∈ lexemes, lexeme.Readable) {program : Program}
    (h : parse source file = .ok program) :
    Spelling.Sequence maxDepth (Lexeme.symbols lexemes) program.statements := by
  obtain ⟨kind, start, stop, rest, hfirst, htrail, hlast, -⟩ := hcut.exists_trail hreadable file
  unfold parse at h
  cases hrun : parseStream (Lexer.ofSource source file) with
  | error fault lexer =>
    rw [hrun] at h
    cases h
  | ok found lexer =>
    rw [hrun] at h
    cases h
    exact Spelling.spelled_of_parse hfirst htrail hlast hrun

/-- What is parsed has a list of tokens, and so it can be cut. -/
theorem exists_cut_of_parse (hsize : source.utf8ByteSize < 2 ^ 32) {program : Program}
    (h : parse source file = .ok program) :
    ∃ lexemes, Cut source.toList lexemes ∧ ∀ lexeme ∈ lexemes, lexeme.Readable := by
  rcases parse_cases (recorded_record (Lexer.ofSource source file)) hsize with
    ⟨_, -, -, hlisted⟩ | ⟨fault, herror, -, -⟩
  · cases htokens : tokenize source file with
    | ok tokens => exact Cut.exists_of_tokenize htokens
    | error fault => exact absurd htokens (hlisted fault)
  · rw [h] at herror
    cases herror

end ScriptFront
