import ScriptFront.Proofs.Concatenation
import ScriptFront.Proofs.Decoding
import ScriptFront.Proofs.NameTable
import ScriptFront.Proofs.Parenthesised
import ScriptFront.Proofs.TopLevel

/-!
# ScriptFront.Proofs.WellFormed

**Every program is well formed** (`wellFormed_of_parse`). A text is all that its statement writes,
no integer is negative, and every ordinal is that of a name. Moreover a statement has the leaves
that it should have: those that the tokens in the parentheses behind its word make, one by one.

A value is taken from the lexer before its token is consumed, so that it belongs to the token in
view. This is what the symbols of tokens say, and the tree of a statement is spelled by them; the
symbol of a token is told by its kind and its text alone (`Token.symbol`).
-/

namespace ScriptFront

open Grammar

/-! ### Trees and the tokens that they are made of -/

/-- The leaves of a tree, from left to right. -/
def Expr.leaves : Expr → List Expr
  | .binary _ left right => left.leaves ++ right.leaves
  | leaf => [leaf]

/-- Whether the tokens of a kind make leaves. -/
def Kind.makesLeaf : Kind → Bool
  | .number | .identifier | .string => true
  | _ => false

/-- The leaf is the one that the token makes, where a name has the ordinal that is stored for it in
the table. An ordinal has 32 bits, so that no more names than there are ordinals can be told apart
by them. -/
def LeafOf (table : NameTable) (token : Token) : Expr → Prop
  | .const value => token.kind = .number ∧ value.toInt = decimalValue token.text.toList
  | .id ordinal =>
    token.kind = .identifier ∧ table.find? token.text = some ordinal ∧
      (table.names.length ≤ 2 ^ 32 → table.names[ordinal.toNat]? = some token.text)
  | .str text =>
    token.kind = .string ∧ token.text.toList = '"' :: (text.toList ++ ['"']) ∧ '"' ∉ text.toList
  | .binary _ _ _ => False

/-- Behind a print word stand a parenthesis and its counterpart, and the tokens between them make
the leaves of what the statement writes, in their order. -/
def MadeOf (table : NameTable) (behind : List Token) (statement : Statement) : Prop :=
  ∃ opening between closing more, behind = opening :: (between ++ closing :: more) ∧
    opening.kind = .openParen ∧ closing.kind = .closeParen ∧ Balanced (between.map Token.kind) ∧
    List.Forall₂ (LeafOf table) (between.filter (·.kind.makesLeaf)) statement.value.leaves

/-- A program with the lexer behind its source. -/
structure WellFormed (source file : String) (program : Program) (lexer : Lexer) : Prop where
  /-- A text is the whole of what is written, and has no double quote in it. -/
  texts : ∀ statement ∈ program.statements,
    (∃ text, statement.value = .str text ∧ '"' ∉ text.toList) ∨
      ∀ text, .str text ∉ statement.value.leaves
  constants : ∀ statement ∈ program.statements, ∀ value, .const value ∈ statement.value.leaves →
    0 ≤ value.toInt ∧ value.toInt ≤ 2 ^ 63 - 1
  ordinals : ∀ statement ∈ program.statements, ∀ ordinal, .id ordinal ∈ statement.value.leaves →
    ordinal.toNat < lexer.names.length
  /-- There is a statement for each print word at curly depth zero, and it is made of the tokens
  behind that. -/
  leaves : ∃ tokens, tokenize source file = .ok tokens ∧
    List.Forall₂ (MadeOf lexer.identifiers) (printsFrom Token.kind 0 tokens) program.statements
  ended : lexer.current.kind = .eof ∧ lexer.atEnd = true

/-! ### The leaves of what is spelled -/

section Leaves

variable {w : List Symbol} {e : Expr} {pairs deepest levels : Nat}

/-- The leaves of a tree that is written are those of its symbols, and none is a text. By induction
on how the tree is written. -/
theorem Parenthesised.leaves_eq (h : Parenthesised pairs deepest w e) :
    e.leaves = (w.filter (·.kind.makesLeaf)).map Symbol.leaf ∧ ∀ text, .str text ∉ e.leaves := by
  induction h with
  | const value => exact ⟨rfl, by simp [Expr.leaves]⟩
  | id ordinal => exact ⟨rfl, by simp [Expr.leaves]⟩
  | @binary _ _ _ _ w v op l r _ _ _ _ ihl ihr =>
    have hop : op.kind.makesLeaf = false := by cases op <;> rfl
    obtain ⟨hl, hplainl⟩ := ihl
    obtain ⟨hr, hplainr⟩ := ihr
    refine ⟨?_, fun text hmem => ?_⟩
    · simp [Expr.leaves, hl, hr, Symbol.plain, hop]
    · exact (List.mem_append.mp hmem).elim (hplainl text) (hplainr text)
  | pair _ ih =>
    refine ⟨?_, ih.2⟩
    simp [ih.1, Symbol.plain, Kind.makesLeaf]

/-- The leaves of a value are those of its symbols, and a text is all of it. -/
theorem Spelling.Value.leaves_eq (h : Value (inside levels) w e)
    (hproper : ∀ symbol ∈ w, symbol.Proper) :
    e.leaves = (w.filter (·.kind.makesLeaf)).map Symbol.leaf ∧
      ((∃ text, e = .str text) ∨ ∀ text, .str text ∉ e.leaves) := by
  cases h with
  | @text symbol hkind =>
    obtain ⟨integer, ordinal, text, heq⟩ := hproper symbol List.mem_cons_self
    rw [hkind] at heq
    rw [heq]
    exact ⟨rfl, .inl ⟨text, rfl⟩⟩
  | expression hexpression =>
    obtain ⟨pairs, deepest, hwritten, -⟩ := writtenWithin_of_expression hexpression hproper
    exact ⟨hwritten.leaves_eq.1, .inr hwritten.leaves_eq.2⟩

end Leaves

/-! ### The symbols of tokens -/

/-- The symbol of a token that reads so, by its place among the names. -/
def symbolOf (names : List String) (reading : Kind × String) : Symbol :=
  Symbol.ofValues reading.1 (Int64.ofNat (decimalValue reading.2.toList))
    (names.idxOf reading.2).toUInt32 (String.ofList (unquoted reading.2.toList))

/-- The symbol of a token, by its place among the names. -/
def Token.symbol (names : List String) (token : Token) : Symbol :=
  symbolOf names token.reading

@[simp] theorem Token.kind_symbol (names : List String) (token : Token) :
    (token.symbol names).kind = token.kind :=
  Symbol.kind_ofValues ..

section Tokens

variable {table : NameTable} {names : List String} {token : Token} {lexeme : Lexeme}
  {rest : List Char}

/-- The kind and the text of a lexeme tell its symbol. -/
theorem Lexeme.symbol_eq (hclass : Pattern.classify? (lexeme.2 ++ rest) = some lexeme)
    (hblank : lexeme.1 ≠ .blank) (hcomment : lexeme.1 ≠ .comment) :
    lexeme.symbol names = symbolOf names lexeme.reading := by
  obtain ⟨pattern, text⟩ := lexeme
  cases pattern with
  | blank => exact absurd rfl hblank
  | comment => exact absurd rfl hcomment
  | word =>
    simp only [symbol, symbolOf, reading, Lexeme.kind]
    cases hreserved : Kind.ofReserved? (String.ofList text) with
    | some kind => exact (Symbol.ofValues_eq_plain (isFixed_of_ofReserved? hreserved) ..).symm
    | none => rfl
  | digits | quoted => simp [symbol, symbolOf, reading, Lexeme.kind, Symbol.ofValues]
  | sign spelling kind => exact (Symbol.ofValues_eq_plain (isFixed_of_sign hclass) ..).symm

/-- The text of an identifier is a name. -/
theorem Lexeme.name?_of_identifier (hclass : Pattern.classify? (lexeme.2 ++ rest) = some lexeme)
    (hkind : lexeme.kind = .identifier) : lexeme.name? = some (String.ofList lexeme.2) := by
  obtain ⟨pattern, text⟩ := lexeme
  cases pattern with
  | word =>
    cases hreserved : Kind.ofReserved? (String.ofList text) with
    | some found =>
      have hfixed := isFixed_of_ofReserved? hreserved
      simp only [Lexeme.kind, hreserved, Option.getD_some] at hkind
      rw [hkind] at hfixed
      cases hfixed
    | none => simp [name?, hreserved]
  | sign spelling kind =>
    have hfixed := isFixed_of_sign hclass
    obtain rfl : kind = .identifier := hkind
    cases hfixed
  | _ => cases hkind

theorem Legal.exists_body {text : String} (h : Legal .string text) :
    ∃ body, text.toList = '"' :: (body ++ ['"']) ∧ '"' ∉ body := by
  cases h with
  | fixed htext => cases htext
  | string hbody => exact ⟨_, String.toList_ofList, hbody⟩

/-- **A token with a legal text makes its leaf.** -/
theorem leafOf_symbol (hnumbers : table.Numbers names) (hlegal : Legal token.kind token.text)
    (hname : token.kind = .identifier → token.text ∈ names)
    (hleaf : token.kind.makesLeaf = true) : LeafOf table token (token.symbol names).leaf := by
  obtain ⟨kind, text, span⟩ := token
  replace hlegal : Legal kind text := hlegal
  cases kind with
  | number =>
    cases hlegal with
    | fixed htext => cases htext
    | number _ _ hvalue =>
      have hbound : decimalValue text.toList < 2 ^ 63 := by omega
      exact ⟨rfl, Int64.toInt_ofNat_of_lt hbound⟩
  | identifier =>
    have hfound := hnumbers.find?_of_mem (hname rfl)
    refine ⟨rfl, hfound, fun hlength => ?_⟩
    rw [hnumbers.length_names] at hlength
    rw [hnumbers.names_eq hlength]
    exact (hnumbers.find?_eq_some_iff hlength).mp hfound
  | string =>
    obtain ⟨body, htext, hbody⟩ := hlegal.exists_body
    have hcontents : (String.ofList (unquoted text.toList)).toList = body := by
      simp [htext, unquoted]
    refine ⟨rfl, ?_, ?_⟩
    · show text.toList = '"' :: ((String.ofList (unquoted text.toList)).toList ++ ['"'])
      rw [hcontents, htext]
    · show '"' ∉ (String.ofList (unquoted text.toList)).toList
      rwa [hcontents]
  | _ => cases hleaf

end Tokens

/-! ### What is parsed has a list of tokens -/

section Parse

variable {lexer : Lexer} {source file : String} {program : Program}

/-- Where the tokens cannot be listed, a step fails, or it comes to a token before the end from
which they cannot be listed either. -/
theorem Lexer.error_ahead {fault : Diagnostic} (h : lexer.tokens = .error fault) :
    Lands (fun kind next => kind ≠ .eof ∧ next.tokens = .error fault) (fun _ _ => True)
      lexer.advance := by
  cases hadvance : lexer.advance with
  | error => exact trivial
  | ok kind next =>
    unfold Lexer.tokens at h
    have hless := (proceeds_of_eq hadvance).2.2
    cases hleft : lexer.cursor.left with
    | zero =>
      rw [hleft] at h
      cases h
    | succ count =>
      rw [hleft] at h
      have hkind : kind ≠ .eof := by
        rintro rfl
        rw [tokensWithin, hadvance] at h
        cases h
      have hcount : next.cursor.left ≤ count := by
        have := hless hkind
        omega
      have hlater := tokensWithin_of_error hadvance hkind h
      have hrecorded := recorded_record next
      refine ⟨hkind, ?_⟩
      unfold Lexer.tokens
      rw [hrecorded.tokensWithin_eq _ (Nat.le_refl _), ← hlater,
        hrecorded.tokensWithin_eq count hcount]

theorem invariant_errorAhead (fault : Diagnostic) :
    Invariant (fun (lexer : Lexer) kind => kind ≠ .eof ∧ lexer.tokens = .error fault)
      fun _ _ => True where
  advance h _ := Lexer.error_ahead h.2
  unexpected _ _ := trivial
  rest h := absurd rfl h.1

/-- **What is parsed has a list of tokens**: were there a fault on the way, the parser would never
come to the end. -/
theorem exists_tokens_of_parse
    (h : parseStream (Lexer.ofSource source file) = .ok program lexer) :
    ∃ tokens, tokenize source file = .ok tokens := by
  cases htokens : tokenize source file with
  | ok tokens => exact ⟨tokens, rfl⟩
  | error fault =>
    have hrun := (invariant_errorAhead fault).parseStream (Lexer.error_ahead htokens)
    rw [h] at hrun
    obtain ⟨_, hkind, -⟩ := hrun
    exact absurd rfl hkind

/-- Behind the end nothing is left to read. -/
theorem Lexer.unread_of_end {stop last : Lexer} (h : stop.advance = .ok .eof last) :
    last.current.kind = .eof ∧ last.atEnd = true := by
  have hscanned := stop.scanned_advance
  rw [h] at hscanned
  refine ⟨(proceeds_of_eq h).1, ?_⟩
  cases hscanned with
  | finish _ _ hnothing => exact List.isEmpty_iff.mpr hnothing
  | token _ _ _ hkind => exact absurd rfl hkind

end Parse

/-! ### The tokens of a source -/

section Source

variable {source file : String} {tokens : List Token} {program : Program} {lexer : Lexer}
  {table : NameTable} {names : List String}

/-- The texts of some tokens are legal, and the identifiers are among the names. -/
structure Tabled (names : List String) (tokens : List Token) : Prop where
  legal : ∀ token ∈ tokens, Legal token.kind token.text
  mem_names : ∀ token ∈ tokens, token.kind = .identifier → token.text ∈ names

theorem exists_front (h : tokenize source file = .ok tokens) :
    ∃ lexemes front last, Cut source.toList lexemes ∧ (∀ lexeme ∈ lexemes, lexeme.Readable) ∧
      tokens = front ++ [last] ∧ last.kind = .eof ∧
      Lexeme.symbols lexemes = front.map (Token.symbol (Lexeme.names lexemes)) ∧
      Tabled (Lexeme.names lexemes) front := by
  obtain ⟨lexemes, hcut, hreadable⟩ := Cut.exists_of_tokenize h
  obtain ⟨found, hfound, hreadings⟩ := hcut.exists_tokenize hreadable file
  obtain rfl : tokens = found := Except.ok.inj (h.symm.trans hfound)
  obtain ⟨front, back, rfl, hfront, hback⟩ := List.map_eq_append_iff.mp hreadings
  obtain ⟨last, rfl, hlast⟩ := List.map_eq_singleton_iff.mp hback
  -- each token before the end is that of a lexeme
  have hlexeme : ∀ token ∈ front, ∃ lexeme ∈ lexemes, token.reading = lexeme.reading :=
    fun token hmem => by
      have hreading : token.reading ∈ lexemes.map Lexeme.reading :=
        hfront ▸ List.mem_map_of_mem hmem
      obtain ⟨lexeme, hlexeme, heq⟩ := List.mem_map.mp hreading
      exact ⟨lexeme, hlexeme, heq.symm⟩
  refine ⟨lexemes, front, last, hcut, hreadable, rfl, congrArg Prod.fst hlast, ?_, ?_, ?_⟩
  · calc Lexeme.symbols lexemes
        = lexemes.map (symbolOf (Lexeme.names lexemes) ∘ Lexeme.reading) :=
          List.map_congr_left fun lexeme hmem => by
            obtain ⟨hblank, hcomment, rest, hclass⟩ := hcut.exists_classify lexeme hmem
            exact Lexeme.symbol_eq hclass hblank hcomment
      _ = (front.map Token.reading).map (symbolOf (Lexeme.names lexemes)) := by
          rw [hfront, List.map_map]
      _ = front.map (Token.symbol (Lexeme.names lexemes)) := List.map_map
  · intro token hmem
    obtain ⟨lexeme, hlexeme, hreading⟩ := hlexeme token hmem
    obtain ⟨hblank, hcomment, rest, hclass⟩ := hcut.exists_classify lexeme hlexeme
    obtain ⟨hkind, htext⟩ := Prod.mk.inj hreading
    rw [hkind, htext]
    exact Lexeme.legal hclass hblank hcomment (hreadable lexeme hlexeme)
  · intro token hmem hidentifier
    obtain ⟨lexeme, hlexeme, hreading⟩ := hlexeme token hmem
    obtain ⟨-, -, rest, hclass⟩ := hcut.exists_classify lexeme hlexeme
    obtain ⟨hkind, htext⟩ := Prod.mk.inj hreading
    rw [htext]
    exact Lexeme.mem_names hlexeme
      (Lexeme.name?_of_identifier hclass (hkind.symm.trans hidentifier))

/-- What symbols tell of a print word, the tokens tell. -/
theorem madeOf_of_wrote {behind : List Token} {statement : Statement}
    (hnumbers : table.Numbers names) (htabled : Tabled names behind)
    (h : Spelling.Wrote maxDepth (behind.map (Token.symbol names)) statement)
    (after : List Token) :
    MadeOf table (behind ++ after) statement ∧
      ((∃ text, statement.value = .str text) ∨ ∀ text, .str text ∉ statement.value.leaves) := by
  obtain ⟨opening, between, closing, more, e, rfl, hopening, hclosing, hvalue, rfl⟩ :=
    h.exists_of_map
  have hproper : ∀ symbol ∈ between.map (Token.symbol names), symbol.Proper := by
    intro symbol hmem
    obtain ⟨token, -, rfl⟩ := List.mem_map.mp hmem
    exact Symbol.proper_ofValues ..
  obtain ⟨hleaves, halone⟩ := hvalue.leaves_eq hproper
  have hbalanced := bracketed_balanced.value hvalue
  rw [Token.kind_symbol] at hopening hclosing
  refine ⟨⟨opening, between, closing, more ++ after, by simp, hopening, hclosing, ?_, ?_⟩, halone⟩
  · simpa [Symbol.kinds, Function.comp_def] using hbalanced
  · show List.Forall₂ (LeafOf table) _ e.leaves
    have hmakes : (fun symbol : Symbol => symbol.kind.makesLeaf) ∘ Token.symbol names =
        fun token => token.kind.makesLeaf := funext fun token => by simp
    rw [hleaves, List.filter_map, hmakes, List.map_map, List.forall₂_map_right_iff,
      List.forall₂_same]
    intro token hmem
    obtain ⟨hmem, hleaf⟩ := List.mem_filter.mp hmem
    have hbehind : token ∈ opening :: (between ++ closing :: more) := by simp [hmem]
    exact leafOf_symbol hnumbers (htabled.legal token hbehind) (htabled.mem_names token hbehind)
      (by simpa using hleaf)

/-- The end behind some tokens adds no print word to them. -/
theorem printsFrom_front {front : List Token} {last : Token} (hlast : last.kind = .eof) :
    printsFrom Token.kind 0 (front ++ [last]) =
      (printsFrom Token.kind 0 front).map (· ++ [last]) := by
  have hnone (depth : Int) : printsFrom Token.kind depth [last] = [] := by
    simp [printsFrom, hlast]
  rw [printsFrom_append, hnone, List.append_nil]

/-- The statements that some tokens spell are made of them. -/
theorem madeOf_of_sequence {front : List Token} {last : Token} (hnumbers : table.Numbers names)
    (htabled : Tabled names front) (hlast : last.kind = .eof) {statements : List Statement}
    (h : Spelling.Sequence maxDepth (front.map (Token.symbol names)) statements) :
    List.Forall₂ (fun behind statement => MadeOf table behind statement ∧
        ((∃ text, statement.value = .str text) ∨ ∀ text, .str text ∉ statement.value.leaves))
      (printsFrom Token.kind 0 (front ++ [last])) statements := by
  have hprints := h.prints
  rw [printsFrom_map, List.forall₂_map_left_iff] at hprints
  simp only [Token.kind_symbol] at hprints
  have hmembers := (List.forall₂_and_left _ _).mpr
    ⟨fun behind (hmem : behind ∈ printsFrom Token.kind 0 front) => isSuffix_of_mem_printsFrom hmem,
      hprints⟩
  rw [printsFrom_front hlast, List.forall₂_map_left_iff]
  refine hmembers.imp fun behind statement hboth => ?_
  obtain ⟨hsuffix, hwrote⟩ := hboth
  have htabledBehind : Tabled names behind :=
    ⟨fun token hmem => htabled.legal token (hsuffix.subset hmem),
      fun token hmem => htabled.mem_names token (hsuffix.subset hmem)⟩
  exact madeOf_of_wrote hnumbers htabledBehind hwrote [last]

/-- What is on the right of a relation between lists is related to something. -/
theorem exists_related {α β : Type} {R : α → β → Prop} {l : List α} {m : List β}
    (h : List.Forall₂ R l m) : ∀ b ∈ m, ∃ a, R a b := by
  induction h with
  | nil => simp
  | cons hfirst _ ih => exact List.forall_mem_cons.mpr ⟨⟨_, hfirst⟩, ih⟩

/-- Each leaf of a statement is what the token that it is made of makes it. -/
theorem MadeOf.exists_token {behind : List Token} {statement : Statement}
    (h : MadeOf table behind statement) :
    ∀ leaf ∈ statement.value.leaves, ∃ token, LeafOf table token leaf := by
  obtain ⟨opening, between, closing, more, -, -, -, -, hleaves⟩ := h
  exact exists_related hleaves

/-- **Every program is well formed**, whatever source it has been parsed from. -/
theorem wellFormed_of_parse
    (h : parseStream (Lexer.ofSource source file) = .ok program lexer) :
    WellFormed source file program lexer := by
  obtain ⟨tokens, htokens⟩ := exists_tokens_of_parse h
  obtain ⟨lexemes, front, last, hcut, hreadable, rfl, hlast, hsymbols, htabled⟩ :=
    exists_front htokens
  obtain ⟨kind, start, stop, rest, hfirst, htrail, hend, hnumbers⟩ :=
    hcut.exists_trail hreadable file
  have hsequence := Spelling.spelled_of_parse hfirst htrail hend h
  have hparse := Spelling.parse_of_spelled hfirst htrail hend hsequence
  obtain rfl : lexer = rest := by
    rw [h] at hparse
    cases hparse
    rfl
  rw [hsymbols] at hsequence
  have hmade := madeOf_of_sequence hnumbers htabled hlast hsequence
  refine ⟨fun statement hmem => ?_, fun statement hmem value hvalue => ?_,
    fun statement hmem ordinal hordinal => ?_, ⟨_, htokens, ?_⟩, Lexer.unread_of_end hend⟩
  · obtain ⟨behind, hbehind, halone⟩ := exists_related hmade statement hmem
    refine halone.imp_left ?_
    rintro ⟨text, htext⟩
    have hleaf : Expr.str text ∈ statement.value.leaves := by
      rw [htext]
      exact List.mem_cons_self
    obtain ⟨token, -, -, hquote⟩ := hbehind.exists_token _ hleaf
    exact ⟨text, htext, hquote⟩
  · obtain ⟨behind, hbehind, -⟩ := exists_related hmade statement hmem
    obtain ⟨token, -, hdecimal⟩ := hbehind.exists_token _ hvalue
    have hbound := value.toInt_lt
    omega
  · obtain ⟨behind, hbehind, -⟩ := exists_related hmade statement hmem
    obtain ⟨token, -, hfound, -⟩ := hbehind.exists_token _ hordinal
    show ordinal.toNat < lexer.identifiers.names.length
    rw [hnumbers.length_names]
    exact hnumbers.lt_length_of_find? hfound
  · exact hmade.imp fun _ _ hboth => hboth.1

/-- A text with a parenthesis in it, a statement that is dropped, and a tree in which names and
integers alternate. -/
theorem difference_wellFormed :
    ∃ program lexer, parseStream (Lexer.ofSource
        "print(\"(b\"); var c = 1; print(b - (2 < a) * b);" "shell") = .ok program lexer ∧
      program.statements = [.write (.str "(b"), .write (.binary .sub (.id 1)
        (.binary .mul (.binary .less (.const 2) (.id 2)) (.id 1)))] ∧
      WellFormed "print(\"(b\"); var c = 1; print(b - (2 < a) * b);" "shell" program lexer := by
  have hparse : parse "print(\"(b\"); var c = 1; print(b - (2 < a) * b);" "shell" =
      .ok ⟨[.write (.str "(b"), .write (.binary .sub (.id 1)
        (.binary .mul (.binary .less (.const 2) (.id 2)) (.id 1)))]⟩ := by
    decide +kernel
  unfold parse at hparse
  cases hrun : parseStream (Lexer.ofSource
      "print(\"(b\"); var c = 1; print(b - (2 < a) * b);" "shell") with
  | error fault lexer =>
    rw [hrun] at hparse
    cases hparse
  | ok program lexer =>
    rw [hrun] at hparse
    cases hparse
    exact ⟨_, lexer, rfl, rfl, wellFormed_of_parse hrun⟩

end Source

end ScriptFront
