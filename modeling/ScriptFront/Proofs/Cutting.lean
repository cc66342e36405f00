import ScriptFront.Proofs.Lexemes
import ScriptFront.Proofs.Numbering
import ScriptFront.Proofs.Trail

/-!
# ScriptFront.Proofs.Cutting

**The lexemes of a text**, and what the lexer makes of them. A text is cut into gaps and lexemes
(`Cut`); the lexer comes to the symbols of the lexemes, one after the other, and then to the end
(`Cut.trail`). The symbol of a lexeme depends on the others by the table of names alone, and in
that only by those before it, so any table that goes on from the one that is reached at the end
will do.

* Whatever text has a list of tokens is cut (`Cut.exists_of_tokenize`).
* Texts that are cut can be put behind one another with a newline between them (`Cut.append`).
-/

namespace ScriptFront

/-! ### Lexemes -/

/-- A lexeme with its class. -/
abbrev Lexeme := Pattern × List Char

namespace Lexeme

/-- The name that a lexeme enters into the table. -/
def name? : Lexeme → Option String
  | (.word, text) =>
    if Kind.ofReserved? (String.ofList text) = none then some (String.ofList text) else none
  | _ => none

/-- The symbol of a lexeme, by the table of the names. -/
def symbol (table : List String) : Lexeme → Symbol
  | (.word, text) =>
    match Kind.ofReserved? (String.ofList text) with
    | some kind => .plain kind
    | none => ⟨.identifier, .id (table.idxOf (String.ofList text)).toUInt32⟩
  | (.digits, text) => ⟨.number, .const (Int64.ofNat (decimalValue text))⟩
  | (.quoted, text) => ⟨.string, .str (String.ofList (unquoted text))⟩
  | (.sign _ kind, _) => .plain kind
  | (.blank, _) => .plain .eof
  | (.comment, _) => .plain .eof

/-- The kind of the token that is made of a lexeme. -/
def kind : Lexeme → Kind
  | (.word, text) => (Kind.ofReserved? (String.ofList text)).getD .identifier
  | (.digits, _) => .number
  | (.quoted, _) => .string
  | (.sign _ kind, _) => kind
  | (.blank, _) => .eof
  | (.comment, _) => .eof

/-- A number is not too large to be read. -/
def Readable : Lexeme → Prop
  | (.digits, text) => decimalValue text < integerBound
  | _ => True

/-- The table of names behind some lexemes. -/
def tableFrom (table : List String) (lexemes : List Lexeme) : List String :=
  (lexemes.filterMap name?).foldl enter table

theorem tableFrom_append (table : List String) (l m : List Lexeme) :
    tableFrom table (l ++ m) = tableFrom (tableFrom table l) m := by
  simp [tableFrom, List.filterMap_append, List.foldl_append]

theorem tableFrom_cons (table : List String) (lexeme : Lexeme) (lexemes : List Lexeme) :
    tableFrom table (lexeme :: lexemes) = tableFrom (tableFrom table [lexeme]) lexemes :=
  tableFrom_append table [lexeme] lexemes

theorem prefix_foldl_enter (names : List String) : ∀ table, table <+: names.foldl enter table := by
  induction names with
  | nil => exact fun table => List.prefix_rfl
  | cons name names ih => exact fun table => (prefix_enter table name).trans (ih _)

theorem prefix_tableFrom (table : List String) (lexemes : List Lexeme) :
    table <+: tableFrom table lexemes :=
  prefix_foldl_enter _ table

end Lexeme

/-! ### Kinds that are always written the same way -/

/-- Whether the tokens of a kind are all written the same way. -/
def Kind.isFixed : Kind → Bool
  | .eof | .number | .string | .identifier => false
  | _ => true

namespace Symbol

theorem ofValues_eq_plain {kind : Kind} (h : kind.isFixed = true) (integer : Int64)
    (ordinal : UInt32) (text : String) : ofValues kind integer ordinal text = plain kind := by
  cases kind with
  | eof | number | string | identifier => cases h
  | _ => rfl

end Symbol

theorem isFixed_of_ofReserved? {word : String} {kind : Kind}
    (h : Kind.ofReserved? word = some kind) : kind.isFixed = true := by
  have hreserved : ∀ entry ∈ Kind.reserved, entry.2.isFixed = true := by decide
  exact hreserved (word, kind) (Kind.ofReserved?_eq_some_iff.mp h)

theorem isFixed_of_sign {text spelling lexeme : List Char} {kind : Kind}
    (h : Pattern.classify? text = some (.sign spelling kind, lexeme)) : kind.isFixed = true := by
  have hsigns : ∀ pattern ∈ Pattern.table, match pattern with
      | .sign _ kind => kind.isFixed = true
      | _ => True := by
    simp [Pattern.table, Kind.isFixed]
  exact hsigns _ (Pattern.of_classify? h).1

/-! ### One lexeme -/

/-- What is known of a lexer that has read a lexeme. The symbol of the token in view is that of the
lexeme, by every table of names that goes on from the names met by then. -/
structure Lexer.InView (lexer : Lexer) (lexeme : Lexeme) (next : Lexer) : Prop where
  before_end : lexeme.kind ≠ .eof
  numbers {names : List String} : lexer.identifiers.Numbers names →
    next.identifiers.Numbers (Lexeme.tableFrom names [lexeme])
  symbol_eq {names table : List String} : lexer.identifiers.Numbers names →
    Lexeme.tableFrom names [lexeme] <+: table →
      Symbol.inView next lexeme.kind = lexeme.symbol table

namespace Lexer

variable {lexer next : Lexer} {gap text rest : List Char} {lexeme : Lexeme}

/-- A lexeme that is no name leaves the table as it was, and its symbol does not hang on that. -/
theorem inView_of_unchanged (hname : lexeme.name? = none) (hkind : lexeme.kind ≠ .eof)
    (hidentifiers : next.identifiers = lexer.identifiers)
    (hsymbol : ∀ table, Symbol.inView next lexeme.kind = lexeme.symbol table) :
    lexer.InView lexeme next where
  before_end := hkind
  numbers h := by
    rw [hidentifiers]
    simpa [Lexeme.tableFrom, hname] using h
  symbol_eq _ _ := hsymbol _

/-- A lexeme that is not too large is read, and its symbol is in view. -/
theorem readAs_of_readable (hclass : Pattern.classify? (lexeme.2 ++ rest) = some lexeme)
    (hblank : lexeme.1 ≠ .blank) (hcomment : lexeme.1 ≠ .comment) (hreadable : lexeme.Readable) :
    ∃ next, lexer.readAs lexeme.1 lexeme.2 = .ok lexeme.kind next ∧
      next.cursor = (lexer.pass lexeme.2).cursor ∧ lexer.InView lexeme next := by
  obtain ⟨pattern, text⟩ := lexeme
  cases pattern with
  | blank => exact absurd rfl hblank
  | comment => exact absurd rfl hcomment
  | word =>
    show ∃ next, acceptWord _ _ _ = _ ∧ _
    unfold acceptWord
    cases hreserved : Kind.ofReserved? (String.ofList text) with
    | some kind =>
      have hfixed := isFixed_of_ofReserved? hreserved
      obtain rfl : Lexeme.kind (.word, text) = kind := by simp [Lexeme.kind, hreserved]
      refine ⟨_, rfl, rfl, inView_of_unchanged ?_ (ofReserved?_ne_eof hreserved) rfl ?_⟩
      · simp [Lexeme.name?, hreserved]
      · intro table
        simp only [Lexeme.symbol, hreserved]
        exact Symbol.ofValues_eq_plain hfixed ..
    | none =>
      have hkind : Lexeme.kind (.word, text) = .identifier := by simp [Lexeme.kind, hreserved]
      have htable (names : List String) :
          Lexeme.tableFrom names [(.word, text)] = enter names (String.ofList text) := by
        simp [Lexeme.tableFrom, Lexeme.name?, hreserved]
      rw [hkind]
      refine ⟨_, rfl, rfl, by rw [hkind]; decide, fun {names} hnames => ?_,
        fun {names table} hnames hgrown => ?_⟩
      · rw [htable]
        exact hnames.enter (String.ofList text)
      · -- the name is among them from here on, and no later name changes its place
        have hmem := mem_enter names (String.ofList text)
        rw [htable] at hgrown
        have hfound := ((hnames.enter (String.ofList text)).find?_of_mem hmem).symm.trans
          NameTable.find?_enter
        simp only [Lexeme.symbol, hreserved]
        rw [hkind, idxOf_of_prefix hgrown hmem, Option.some.inj hfound]
        rfl
  | digits =>
    have hbound : decimalValue text < integerBound := hreadable
    show ∃ next, acceptDigits _ _ _ = _ ∧ _
    unfold acceptDigits
    rw [if_pos hbound]
    exact ⟨_, rfl, rfl, inView_of_unchanged rfl Kind.noConfusion rfl fun _ => rfl⟩
  | quoted =>
    exact ⟨_, rfl, rfl, inView_of_unchanged rfl Kind.noConfusion rfl fun _ => rfl⟩
  | sign spelling kind =>
    have hfixed := isFixed_of_sign hclass
    exact ⟨_, rfl, rfl, inView_of_unchanged rfl (sign_ne_eof hclass) rfl fun _ =>
      Symbol.ofValues_eq_plain hfixed ..⟩

/-- Behind a gap, a lexeme that is not too large is read. -/
theorem exists_advance (htext : lexer.cursor.unread = gap ++ (lexeme.2 ++ rest))
    (hgap : Trivia (lexeme.2 ++ rest) gap)
    (hclass : Pattern.classify? (lexeme.2 ++ rest) = some lexeme) (hblank : lexeme.1 ≠ .blank)
    (hcomment : lexeme.1 ≠ .comment) (hreadable : lexeme.Readable) :
    ∃ next, lexer.advance = .ok lexeme.kind next ∧ next.cursor.unread = rest ∧
      lexer.InView lexeme next := by
  have hunread := unread_pass htext
  obtain ⟨next, hread, hcursor, hview⟩ :=
    @readAs_of_readable (lexer.pass gap) rest lexeme hclass hblank hcomment hreadable
  refine ⟨next, ?_, ?_, hview.before_end, hview.numbers, hview.symbol_eq⟩
  · rw [advance_pass hgap lexer htext, ← hread]
    exact advance_of_classify (by rw [hunread]; exact hclass)
  · rw [hcursor]
    exact unread_pass hunread

/-- A number that is too large is refused. -/
theorem error_of_not_readable (htext : lexer.cursor.unread = gap ++ (lexeme.2 ++ rest))
    (hgap : Trivia (lexeme.2 ++ rest) gap)
    (hclass : Pattern.classify? (lexeme.2 ++ rest) = some lexeme)
    (hreadable : ¬ lexeme.Readable) : ∃ fault next, lexer.advance = .error fault next := by
  obtain ⟨pattern, text⟩ := lexeme
  cases pattern with
  | digits =>
    have hbound : ¬ decimalValue text < integerBound := hreadable
    rw [advance_pass hgap lexer htext,
      advance_of_classify (by rw [unread_pass htext]; exact hclass)]
    show ∃ fault next, acceptDigits _ _ _ = _
    unfold acceptDigits
    rw [if_neg hbound]
    exact ⟨_, _, rfl⟩
  | _ => exact absurd trivial hreadable

/-- Behind the last lexeme the lexer comes to the end. -/
theorem exists_advance_end (hgap : Trivia [] lexer.cursor.unread) :
    ∃ next, lexer.advance = .ok .eof next ∧ next.cursor.unread = [] ∧
      next.identifiers = lexer.identifiers := by
  have htext : lexer.cursor.unread = lexer.cursor.unread ++ [] := (List.append_nil _).symm
  have hunread := unread_pass htext
  rw [advance_pass hgap lexer htext, advance_of_nil hunread]
  exact ⟨_, rfl, hunread, rfl⟩

end Lexer

/-! ### All lexemes -/

/-- A text is cut into lexemes with gaps between them. -/
inductive Cut : List Char → List Lexeme → Prop
  | finish {gap : List Char} (hgap : Trivia [] gap) : Cut gap []
  | lexeme {gap rest : List Char} {lexeme : Lexeme} {lexemes : List Lexeme}
      (hgap : Trivia (lexeme.2 ++ rest) gap)
      (hclass : Pattern.classify? (lexeme.2 ++ rest) = some lexeme) (hblank : lexeme.1 ≠ .blank)
      (hcomment : lexeme.1 ≠ .comment) (hrest : Cut rest lexemes) :
      Cut (gap ++ (lexeme.2 ++ rest)) (lexeme :: lexemes)

namespace Cut

variable {text text' : List Char} {lexemes lexemes' : List Lexeme}

/-- **The lexer comes to the symbols of the lexemes**, and then to the end. By induction on the
lexemes. -/
theorem trail (hcut : Cut text lexemes) (hreadable : ∀ lexeme ∈ lexemes, lexeme.Readable) :
    ∀ lexer : Lexer, lexer.cursor.unread = text →
      ∀ names, lexer.identifiers.Numbers names →
        ∃ kind start stop, TokenStream.advance lexer = .ok kind start ∧
          stop.cursor.unread = [] ∧
          stop.identifiers.Numbers (Lexeme.tableFrom names lexemes) ∧
          ∀ table, Lexeme.tableFrom names lexemes <+: table →
            Trail (lexemes.map (Lexeme.symbol table)) start kind stop .eof := by
  induction hcut with
  | finish hgap =>
    intro lexer htext names hnames
    rw [← htext] at hgap
    obtain ⟨stop, hadvance, hunread, hidentifiers⟩ := Lexer.exists_advance_end hgap
    exact ⟨.eof, stop, stop, hadvance, hunread, hidentifiers ▸ hnames, fun _ _ => ⟨rfl, rfl⟩⟩
  | @lexeme gap rest lexeme lexemes hgap hclass hblank hcomment hrest ih =>
    intro lexer htext names hnames
    obtain ⟨hfirst, hlater⟩ := List.forall_mem_cons.mp hreadable
    obtain ⟨start, hadvance, hunread, hview⟩ :=
      Lexer.exists_advance htext hgap hclass hblank hcomment hfirst
    obtain ⟨kind', start', stop, hadvance', hend, hnames', htrail⟩ :=
      ih hlater start hunread _ (hview.numbers hnames)
    rw [← Lexeme.tableFrom_cons] at hnames' htrail
    refine ⟨lexeme.kind, start, stop, hadvance, hend, hnames', fun table htable => ?_⟩
    have hstart : Lexeme.tableFrom names [lexeme] <+: table := by
      rw [Lexeme.tableFrom_cons] at htable
      exact (Lexeme.prefix_tableFrom _ lexemes).trans htable
    exact ⟨(hview.symbol_eq hnames hstart).symm, hview.before_end, start', kind', hadvance',
      htrail table htable⟩

/-- Whatever has a list of tokens is cut into lexemes that can be read. By induction on the number
of tokens. -/
theorem exists_of_tokensWithin (count : Nat) :
    ∀ (lexer : Lexer) (tokens : List Token), lexer.cursor.left ≤ count →
      Lexer.tokensWithin count lexer = .ok tokens →
        ∃ lexemes, Cut lexer.cursor.unread lexemes ∧ ∀ lexeme ∈ lexemes, lexeme.Readable := by
  induction count with
  | zero =>
    intro lexer tokens hleft _
    rw [Cursor.left_eq_zero.mp (Nat.le_zero.mp hleft)]
    exact ⟨[], .finish .nil, by simp⟩
  | succ count ih =>
    intro lexer tokens hleft htokens
    -- a fault of this step would be the fault of the whole listing
    have hok : ∀ fault next, lexer.advance ≠ .error fault next := fun fault next herror => by
      simp [Lexer.tokensWithin, herror] at htokens
    obtain ⟨gap, rest, htext, hgap, hsolid⟩ := exists_gap lexer.cursor.unread
    rw [htext]
    cases hclass : Pattern.classify? rest with
    | none =>
      cases rest with
      | nil =>
        rw [List.append_nil]
        exact ⟨[], .finish hgap, by simp⟩
      | cons c cs =>
        rw [Lexer.advance_pass hgap lexer htext,
          Lexer.advance_of_none (Lexer.unread_pass htext) hclass] at hok
        exact absurd rfl (hok _ _)
    | some lexeme =>
      obtain ⟨hblank, hcomment⟩ := hsolid lexeme.1 lexeme.2 hclass
      obtain ⟨rest, rfl⟩ := Pattern.isPrefix_of_classify? hclass
      by_cases hreadable : Lexeme.Readable lexeme
      · obtain ⟨next, hadvance, hunread, hview⟩ :=
          Lexer.exists_advance htext hgap hclass hblank hcomment hreadable
        have hless := (Lexer.proceeds_of_eq hadvance).2.2 hview.before_end
        obtain ⟨later, hlater⟩ := Lexer.exists_tokensWithin hadvance hview.before_end htokens
        obtain ⟨lexemes, hcut, hall⟩ := ih next later (by omega) hlater
        rw [hunread] at hcut
        exact ⟨lexeme :: lexemes, .lexeme hgap hclass hblank hcomment hcut,
          List.forall_mem_cons.mpr ⟨hreadable, hall⟩⟩
      · obtain ⟨fault, next, herror⟩ := Lexer.error_of_not_readable htext hgap hclass hreadable
        exact absurd herror (hok fault next)

/-- Whatever has a list of tokens is cut into lexemes that can be read. -/
theorem exists_of_tokenize {source file : String} {tokens : List Token}
    (h : tokenize source file = .ok tokens) :
    ∃ lexemes, Cut source.toList lexemes ∧ ∀ lexeme ∈ lexemes, lexeme.Readable :=
  exists_of_tokensWithin _ (Lexer.ofSource source file) tokens (Nat.le_refl _) h

end Cut

/-! ### Texts behind one another -/

theorem Trivia.congr {after after' gap : List Char} (h : Trivia after gap)
    (hhead : after.head? = after'.head?) : Trivia after' gap := by
  induction h with
  | nil => exact .nil
  | blank hc _ ih => exact .blank hc ih
  | @comment body cs hbody hend _ ih =>
    refine .comment hbody ?_ ih
    cases cs with
    | nil => simpa [← hhead] using hend
    | cons c cs => exact hend

/-- Gaps can be put behind one another with a newline between them. -/
theorem Trivia.append_newline {after gap gap' : List Char} (h : Trivia [] gap)
    (h' : Trivia after gap') : Trivia after (gap ++ '\n' :: gap') := by
  induction h with
  | nil => exact .blank (by decide) h'
  | blank hc _ ih => exact .blank hc ih
  | @comment body cs hbody hend _ ih =>
    rw [List.append_assoc]
    refine .comment hbody ?_ ih
    cases cs with
    | nil => simp
    | cons c cs => simpa using hend

/-- What is cut can be put behind a gap and a newline. -/
theorem Cut.after_newline {gap text : List Char} {lexemes : List Lexeme} (h : Trivia [] gap)
    (hcut : Cut text lexemes) : Cut (gap ++ '\n' :: text) lexemes := by
  cases hcut with
  | finish hgap => exact .finish (h.append_newline hgap)
  | @lexeme gap' rest lexeme lexemes hgap hclass hblank hcomment hrest =>
    have hmore := h.append_newline hgap
    rw [← List.cons_append, ← List.append_assoc]
    exact .lexeme hmore hclass hblank hcomment hrest

/-- **What is cut can be put behind one another** with a newline between them. By induction on the
lexemes of the first text. -/
theorem Cut.append {text text' : List Char} {lexemes lexemes' : List Lexeme}
    (hcut : Cut text lexemes) (hcut' : Cut text' lexemes') :
    Cut (text ++ '\n' :: text') (lexemes ++ lexemes') := by
  induction hcut with
  | finish hgap => exact hcut'.after_newline hgap
  | @lexeme gap rest lexeme lexemes hgap hclass hblank hcomment _ ih =>
    have hlexeme := Pattern.ne_nil_of_classify? hclass
    have hhead : rest.headD '\n' = (rest ++ '\n' :: text').headD '\n' := by
      cases rest <;> rfl
    rw [List.append_assoc, List.append_assoc]
    refine .lexeme (hgap.congr ?_) (Pattern.classify?_congr hclass hblank hcomment hhead) hblank
      hcomment ih
    rw [List.head?_append_of_ne_nil _ hlexeme, List.head?_append_of_ne_nil _ hlexeme]

end ScriptFront
