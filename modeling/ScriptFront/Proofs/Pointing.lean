import ScriptFront.Proofs.Invariant
import ScriptFront.Proofs.Lines
import ScriptFront.Proofs.Lossless
import ScriptFront.Proofs.Outcomes

/-!
# ScriptFront.Proofs.Pointing

**Every diagnostic points at its token.** The lexer counts lines as it passes over them, and a
report counts them anew in the source; the two agree wherever a token begins (`Lexer.Behind`). So
the line that is shown for a diagnostic is the one that it names. Behind the bytes of it that the
dashes before the caret count stands the token that it is about, or the line ends there.
-/

namespace ScriptFront

open Text (byteSize isWhiteSpace)

/-! ### Places of a source -/

/-- The byte and the line of the place behind some characters. -/
structure Marks (before : List Char) (offset line : UInt32) : Prop where
  offset_eq : offset.toNat = byteSize before
  line_eq : line.toNat = 1 + newlines before

/-- A text that stands in a source, with the byte and the line where it begins. At the end there is
the text for the end instead. -/
inductive Aim (source : List Char) : Bool → String → UInt32 → UInt32 → Prop
  | lexeme {before lexeme after : List Char} {offset line : UInt32}
      (hsource : source = before ++ (lexeme ++ after)) (hlexeme : lexeme ≠ [])
      (hhead : ∀ c ∈ lexeme.head?, c ≠ ' ') (hmarks : Marks before offset line) :
      Aim source false (String.ofList lexeme) offset line
  | ending {offset line : UInt32} (hmarks : Marks source offset line) :
      Aim source true Kind.eof.name offset line

/-- The text of a diagnostic stands at its place. Only the grammar can refuse the end. -/
def Diagnostic.Aimed (source : List Char) (fault : Diagnostic) : Prop :=
  ∃ atEnd, Aim source atEnd fault.text fault.position.offset fault.location.line ∧
    (atEnd = true → fault.isGrammatical = true)

namespace Lexer

variable {lexer next : Lexer} {source before lexeme rest : List Char} {kind : Kind}

/-- The lexer stands behind some characters of a source and has counted their lines. -/
structure Behind (source before : List Char) (lexer : Lexer) : Prop where
  source_eq : source = before ++ lexer.cursor.unread
  offset_eq : lexer.cursor.offset = byteSize before
  line_eq : lexer.line.toNat = 1 + newlines before

/-- The token in view stands where the lexer has noted it. -/
structure Aimed (source : List Char) (lexer : Lexer) (kind : Kind) : Prop where
  behind : ∃ before, lexer.Behind source before
  aim : Aim source (kind == .eof) lexer.current.text lexer.current.span.start.offset lexer.tokenLine
  ending : kind = .eof → lexer.cursor.unread = []

theorem newlines_le_byteSize (text : List Char) : newlines text ≤ byteSize text :=
  Nat.le_trans List.count_le_length (Text.length_le_byteSize text)

theorem behind_ofSource (source file : String) :
    (ofSource source file).Behind source.toList [] :=
  ⟨rfl, rfl, rfl⟩

theorem Behind.pass (h : lexer.Behind source before) (hsize : byteSize source < 2 ^ 32 - 1)
    (htext : lexer.cursor.unread = lexeme ++ rest) :
    (lexer.pass lexeme).Behind source (before ++ lexeme) where
  source_eq := by
    rw [unread_pass htext, List.append_assoc, ← htext]
    exact h.source_eq
  offset_eq := by
    rw [offset_pass htext, h.offset_eq, Text.byteSize_append]
  line_eq := by
    have hlines := newlines_le_byteSize source
    rw [h.source_eq, htext, newlines_append, newlines_append] at hlines
    rw [h.source_eq, htext] at hsize
    show (lexer.line + (newlines lexeme).toUInt32).toNat = _
    rw [UInt32.toNat_add, h.line_eq, toNat_toUInt32 (by omega), newlines_append]
    omega

/-- What stands where the lexer stands. -/
theorem Behind.aim (h : lexer.Behind source before) (hsize : byteSize source < 2 ^ 32 - 1)
    (htext : lexer.cursor.unread = lexeme ++ rest) (hlexeme : lexeme ≠ [])
    (hhead : ∀ c ∈ lexeme.head?, c ≠ ' ') :
    Aim source false (String.ofList lexeme) lexer.position.offset lexer.line := by
  have hsource := h.source_eq
  rw [htext] at hsource
  refine .lexeme hsource hlexeme hhead ⟨?_, h.line_eq⟩
  show lexer.cursor.offset.toUInt32.toNat = _
  rw [h.offset_eq]
  refine toNat_toUInt32 ?_
  rw [hsource, Text.byteSize_append] at hsize
  omega

theorem Behind.congr (h : lexer.Behind source before) (hcursor : next.cursor = lexer.cursor)
    (hline : next.line = lexer.line) : next.Behind source before :=
  ⟨hcursor ▸ h.source_eq, hcursor ▸ h.offset_eq, hline ▸ h.line_eq⟩

/-! ### One step -/

/-- What is known of a step of the lexer. -/
abbrev AimedStep (source : List Char) : EStateM.Result Diagnostic Lexer Kind → Prop :=
  Lands (fun kind next => next.Aimed source kind) fun fault _ => fault.Aimed source

/-- A lexeme that stands where the lexer stood has been read. -/
theorem aimed_token {lexeme : Lexeme} (h : lexer.Behind source before)
    (hsize : byteSize source < 2 ^ 32 - 1) (htext : lexer.cursor.unread = lexeme.2 ++ rest)
    (hlexeme : lexeme.2 ≠ []) (hhead : ∀ c ∈ lexeme.2.head?, c ≠ ' ')
    (hreads : lexer.Reads lexeme next) : next.Aimed source lexeme.kind where
  behind := ⟨_, (h.pass hsize htext).congr hreads.cursor hreads.line⟩
  aim := by
    rw [beq_eq_false_iff_ne.mpr hreads.kind_ne, hreads.current, hreads.tokenLine]
    exact h.aim hsize htext hlexeme hhead
  ending heof := absurd heof hreads.kind_ne

/-- What is no blank does not begin with one. -/
theorem head_ne_blank_of_classify? {lexeme : Lexeme}
    (hclass : Pattern.classify? (lexeme.2 ++ rest) = some lexeme) (hblank : lexeme.1 ≠ .blank) :
    ∀ c ∈ lexeme.2.head?, c ≠ ' ' := by
  rintro c hc rfl
  obtain ⟨cs, hcons⟩ := List.head?_eq_some_iff.mp hc
  rw [hcons, List.cons_append, Pattern.classify?_of_blank (by decide)] at hclass
  exact hblank (congrArg Prod.fst (Option.some.inj hclass)).symm

/-- What stands where the lexer stood is refused. -/
theorem aimed_refuse {cause : Cause} (h : lexer.Behind source before)
    (hsize : byteSize source < 2 ^ 32 - 1) (htext : lexer.cursor.unread = lexeme ++ rest)
    (hlexeme : lexeme ≠ []) (hhead : ∀ c ∈ lexeme.head?, c ≠ ' ')
    (htokenLine : next.tokenLine = lexer.line) :
    AimedStep source (next.refuse lexer.position cause lexeme) := by
  refine ⟨false, ?_, fun hend => absurd hend Bool.false_ne_true⟩
  show Aim source false (String.ofList lexeme) lexer.position.offset next.tokenLine
  rw [htokenLine]
  exact h.aim hsize htext hlexeme hhead

theorem aimed_finish (h : lexer.Behind source before) (hsize : byteSize source < 2 ^ 32 - 1)
    (htext : lexer.cursor.unread = []) : AimedStep source lexer.mark.finish where
  behind := ⟨before, h.congr rfl rfl⟩
  aim := by
    have hsource : source = before := by simpa [htext] using h.source_eq
    rw [← hsource] at h
    refine .ending ⟨?_, h.line_eq⟩
    show lexer.cursor.offset.toUInt32.toNat = _
    rw [h.offset_eq]
    exact toNat_toUInt32 (by omega)
  ending _ := htext

/-- **Every step of the lexer notes where its token stands**, whatever gap it has passed. -/
theorem aimed_advance (h : lexer.Behind source before) (hsize : byteSize source < 2 ^ 32 - 1) :
    AimedStep source lexer.advance := by
  have houtcome := lexer.outcome_advance
  generalize lexer.advance = result at houtcome
  -- with the gap passed, what is read is what the lexer stands at
  cases houtcome with
  | @finish gap htext hgap =>
    have htext' : lexer.cursor.unread = gap ++ [] := htext.trans (List.append_nil gap).symm
    exact aimed_finish (h.pass hsize htext') hsize (unread_pass htext')
  | @stray gap cs c htext hgap hclass =>
    have hunread : (lexer.pass gap).cursor.unread = [c] ++ cs := unread_pass htext
    have hsolid : Solid (c :: cs) := fun _ _ hsome => nomatch hclass.symm.trans hsome
    exact aimed_refuse (h.pass hsize htext) hsize hunread (List.cons_ne_nil c [])
      hsolid.head_ne_blank rfl
  | @tooLarge gap digits rest htext hgap hclass =>
    have hhead := @head_ne_blank_of_classify? rest (.digits, digits) hclass Pattern.noConfusion
    exact aimed_refuse (h.pass hsize htext) hsize (unread_pass htext)
      (Pattern.ne_nil_of_classify? hclass) hhead rfl
  | @token gap rest lexeme next htext hgap hclass hblank _ _ hreads =>
    exact aimed_token (h.pass hsize htext) hsize (unread_pass htext)
      (Pattern.ne_nil_of_classify? hclass) (head_ne_blank_of_classify? hclass hblank) hreads

end Lexer

/-! ### Whole runs -/

section

variable {source file : String} {fault : Diagnostic}

section

variable {Inv : Lexer → Kind → Prop} {Stop : Diagnostic → Prop}

/-- What every token keeps tells of the fault that a parse ends with. -/
theorem Invariant.fault_of_parse (h : Invariant Inv fun fault _ => Stop fault)
    (hstart : Lands (fun kind lexer => Inv lexer kind) (fun fault _ => Stop fault)
      (Lexer.ofSource source file).advance) (hparse : parse source file = .error fault) :
    Stop fault := by
  have hlands := h.parseStream hstart
  unfold parse at hparse
  cases hrun : ScriptFront.parseStream (Lexer.ofSource source file) with
  | ok program lexer =>
    rw [hrun] at hparse
    cases hparse
  | error found lexer =>
    rw [hrun] at hparse hlands
    obtain rfl := Except.error.inj hparse
    exact hlands

/-- It tells of the fault that a list of tokens ends with as well. By induction on the number of
tokens. -/
theorem Invariant.fault_of_tokensWithin (h : Invariant Inv fun fault _ => Stop fault)
    (count : Nat) : ∀ {lexer : Lexer},
      Lands (fun kind next => Inv next kind) (fun fault _ => Stop fault) lexer.advance →
        Lexer.tokensWithin count lexer = .error fault → Stop fault := by
  induction count with
  | zero => exact fun _ hlist => nomatch hlist
  | succ count ih =>
    intro lexer hstep hlist
    cases hadvance : lexer.advance with
    | error found next =>
      rw [Lexer.tokensWithin, hadvance] at hlist
      rw [hadvance] at hstep
      obtain rfl := Except.error.inj hlist
      exact hstep
    | ok kind next =>
      rw [hadvance] at hstep
      by_cases hkind : kind = .eof
      · rw [Lexer.tokensWithin, hadvance, hkind] at hlist
        cases hlist
      · exact ih (h.advance hstep hkind) (Lexer.tokensWithin_of_error hadvance hkind hlist)

end

/-- What one step of the lexer notes, a parser keeps. -/
theorem invariant_aimed {source : List Char} (hsize : byteSize source < 2 ^ 32 - 1) :
    Invariant (fun lexer kind => Lexer.Aimed source lexer kind)
      fun fault (_ : Lexer) => fault.Aimed source where
  advance h _ := by
    obtain ⟨before, hbehind⟩ := h.behind
    exact Lexer.aimed_advance hbehind hsize
  unexpected h _ := ⟨_, h.aim, fun _ => rfl⟩
  rest h := ⟨_, _, Lexer.advance_of_nil (h.ending rfl)⟩

theorem aimed_of_parse (hsize : source.utf8ByteSize < 2 ^ 32 - 1)
    (h : parse source file = .error fault) : fault.Aimed source.toList := by
  rw [utf8ByteSize_eq] at hsize
  have hstart := Lexer.aimed_advance (Lexer.behind_ofSource source file) hsize
  exact (invariant_aimed hsize).fault_of_parse hstart h

theorem aimed_of_tokenize (hsize : source.utf8ByteSize < 2 ^ 32 - 1)
    (h : tokenize source file = .error fault) : fault.Aimed source.toList := by
  rw [utf8ByteSize_eq] at hsize
  have hstart := Lexer.aimed_advance (Lexer.behind_ofSource source file) hsize
  exact (invariant_aimed hsize).fault_of_tokensWithin _ hstart h

end

/-! ### The line that is shown -/

namespace Diagnostic

variable {fault : Diagnostic} {source : String} {view : LineView}

/-- At the place that is shown stands the text that a diagnostic is about, as far as the line
goes. -/
structure AtToken (fault : Diagnostic) (source : String) (view : LineView) : Prop where
  before_end : fault.position.offset.toNat < source.utf8ByteSize
  stands : ∃ before behind, view.text = before ++ behind ∧ byteSize before = view.offset ∧
    firstLine fault.text.toList <+: behind

/-- A diagnostic is about the end, and the place that is shown is the end of its line. -/
structure AtEnd (fault : Diagnostic) (source : String) (view : LineView) : Prop where
  at_end : fault.position.offset.toNat = source.utf8ByteSize
  unexpected : fault.isGrammatical = true
  text_eq : fault.text = Kind.eof.name
  offset_eq : view.offset = byteSize view.text

/-- What a report shows of a source is the place of its diagnostic. -/
structure Shown (fault : Diagnostic) (source : String) (view : LineView) : Prop where
  /-- The line is found, and it is the one that the diagnostic names. -/
  found : lineAt? source fault.position.offset = some view
  number : view.number = fault.location.line.toNat
  /-- The place in it is that of the text, or of the end. -/
  place : fault.AtToken source view ∨ fault.AtEnd source view
  /-- Nothing behind the place is cut off in front of the line. -/
  indentation_le : indentation view.text ≤ view.offset
  /-- The report shows the line and the caret, and not merely their numbers. -/
  rows_eq : fault.rows source =
    [fault.headRow, fault.fileRow, bar view, lineRow view, caretRow view]
  /-- Before the caret stands a dash for each byte between the indentation and the place. -/
  caret_eq : caretRow view =
    bar view ++ [' '] ++ List.replicate (view.offset - indentation view.text) '-' ++ ['^']

theorem rows_of_lineAt? (h : lineAt? source fault.position.offset = some view) :
    fault.rows source =
      [fault.headRow, fault.fileRow, bar view, lineRow view, caretRow view] := by
  unfold rows
  rw [h]
  rfl

theorem caretRow_eq (view : LineView) : caretRow view =
    bar view ++ [' '] ++ List.replicate (view.offset - indentation view.text) '-' ++ ['^'] := by
  unfold caretRow padLeft
  rw [List.length_singleton, Nat.add_sub_cancel, List.append_assoc _ _ ['^']]

/-- Wherever a diagnostic is aimed, the report shows it. -/
theorem shown_of_aimed (h : fault.Aimed source.toList) : ∃ view, fault.Shown source view := by
  obtain ⟨atEnd, haim, hgrammatical⟩ := h
  generalize htext : fault.text = text at haim
  generalize hoffset : fault.position.offset = offset at haim
  generalize hline : fault.location.line = line at haim
  cases haim with
  | @lexeme before lexeme after _ _ hsource hlexeme hhead hmarks =>
    obtain ⟨lines, begin, rfl, hlines, hbegin⟩ := exists_whole_lines before
    have hfound := lineAt?_append hsource hlines hbegin (hoffset ▸ hmarks.offset_eq)
    -- the lexeme is no blank and not empty: the indentation ends before it, the source behind it
    have hpos := Text.byteSize_pos hlexeme
    refine ⟨_, hfound, ?_, .inl ⟨?_, begin, _, rfl, rfl, ?_⟩, indentation_le ?_,
      rows_of_lineAt? hfound, caretRow_eq _⟩
    · rw [hline, hmarks.line_eq]
    · rw [hoffset, hmarks.offset_eq, utf8ByteSize_eq, hsource, Text.byteSize_append _ (_ ++ _),
        Text.byteSize_append lexeme]
      omega
    · rw [htext, String.toList_ofList]
      exact firstLine_prefix lexeme after
    · rw [head?_firstLine, List.head?_append_of_ne_nil _ hlexeme]
      exact hhead
  | ending hmarks =>
    obtain ⟨lines, begin, hsource, hlines, hbegin⟩ := exists_whole_lines source.toList
    have hplace : fault.position.offset.toNat = byteSize (lines ++ begin) := by
      rw [hoffset, hmarks.offset_eq, hsource]
    have hfound := lineAt?_append (hsource.trans (List.append_nil _).symm) hlines hbegin hplace
    rw [← hsource] at hfound
    refine ⟨_, hfound, ?_, .inr ⟨?_, hgrammatical rfl, htext, ?_⟩, indentation_le ?_,
      rows_of_lineAt? hfound, caretRow_eq _⟩
    · rw [hline, hmarks.line_eq]
    · rw [hoffset, hmarks.offset_eq, utf8ByteSize_eq]
    · rw [firstLine, List.append_nil]
    · simp [firstLine]

end Diagnostic

/-- **Every diagnostic points at its token.** The report of a source that cannot be parsed, or whose
tokens cannot be listed, shows the line that the diagnostic names. Before the caret stand as many
dashes as there are bytes of that line before the text of the diagnostic, those of the indentation
apart; if the source ends too early, they are the bytes of its last line. -/
theorem diagnostic_shown {source file : String} (hsize : source.utf8ByteSize < 2 ^ 32 - 1)
    {fault : Diagnostic}
    (h : parse source file = .error fault ∨ tokenize source file = .error fault) :
    ∃ view, fault.Shown source view := by
  rcases h with h | h
  · exact Diagnostic.shown_of_aimed (aimed_of_parse hsize h)
  · exact Diagnostic.shown_of_aimed (aimed_of_tokenize hsize h)

/-- Behind a text of two lines, on the second of which it ends, a sign that begins no token is shown
on that line. -/
theorem unrecognised_shown :
    ∃ fault view, parse "print(\"a\n  b\" $" "shell" = .error fault ∧ fault.cause = .unrecognised ∧
      fault.Shown "print(\"a\n  b\" $" view ∧ view.number = 2 := by
  have h : parse "print(\"a\n  b\" $" "shell" =
      .error ⟨.unrecognised, "$", ⟨14, "shell"⟩, ⟨2, 0⟩⟩ := by decide +kernel
  obtain ⟨view, hview⟩ := diagnostic_shown (by decide) (.inl h)
  exact ⟨_, view, h, rfl, hview, hview.number⟩

end ScriptFront
