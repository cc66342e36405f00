import ScriptFront.Proofs.NameTable
import ScriptFront.Proofs.Reached

/-!
# ScriptFront.Proofs.Resuming

**A step that fails disturbs nothing, and the lexer can go on after it.** A character that begins no
lexeme stops the lexer for good. A number that is too large is passed, and then the lexer does what
a fresh one does on the rest of the source (`Beside.advance`), with the offsets and the lines moved
by what has been passed, and with the ordinals that its table gives to the names
(`clean_failure`).
-/

namespace ScriptFront

open Text (byteSize)

/-! ### Moving behind a text -/

/-- A position, moved behind some characters. -/
def Position.behind (passed : List Char) (position : Position) : Position :=
  { position with offset := position.offset + (byteSize passed).toUInt32 }

/-- A token, moved behind some characters. -/
def Token.behind (passed : List Char) (token : Token) : Token :=
  { token with span := ⟨token.span.start.behind passed, token.span.stop.behind passed⟩ }

/-- A fault, moved behind some characters, where the name read last has an ordinal. -/
def Diagnostic.behind (passed : List Char) (ordinal : UInt32) (fault : Diagnostic) : Diagnostic :=
  { fault with
    position := fault.position.behind passed
    location := ⟨fault.location.line + (newlines passed).toUInt32, ordinal⟩ }

@[simp] theorem Token.name?_behind (passed : List Char) (token : Token) :
    (token.behind passed).name? = token.name? :=
  rfl

namespace Lexer

/-! ### Two lexers at the same place -/

/-- A lexer that has gone on behind some characters, and a fresh one that has begun there, stand at
the same place. -/
structure SamePlace (passed : List Char) (late fresh : Lexer) : Prop where
  file : late.file = fresh.file
  unread : late.cursor.unread = fresh.cursor.unread
  offset : late.cursor.offset = fresh.cursor.offset + byteSize passed
  line : late.line = fresh.line + (newlines passed).toUInt32
  tokenLine : late.tokenLine = fresh.tokenLine + (newlines passed).toUInt32

section

variable {passed text rest : List Char} {late late' fresh fresh' : Lexer}

theorem SamePlace.position (h : SamePlace passed late fresh) :
    late.position = fresh.position.behind passed := by
  unfold Lexer.position Position.behind
  rw [h.file, h.offset, Nat.toUInt32, UInt32.ofNat_add]

theorem SamePlace.pass (h : SamePlace passed late fresh) (text : List Char) :
    SamePlace passed (late.pass text) (fresh.pass text) where
  file := h.file
  unread := by rw [cursor_pass, cursor_pass, Cursor.unread_skip, Cursor.unread_skip, h.unread]
  offset := by
    rw [cursor_pass, cursor_pass, Cursor.offset_skip, Cursor.offset_skip, h.unread, h.offset]
    omega
  line := by
    show late.line + _ = fresh.line + _ + _
    rw [h.line, UInt32.add_assoc, UInt32.add_assoc, UInt32.add_comm (newlines passed).toUInt32]
  tokenLine := h.tokenLine

theorem SamePlace.mark (h : SamePlace passed late fresh) : SamePlace passed late.mark fresh.mark :=
  ⟨h.file, h.unread, h.offset, h.line, h.line⟩

theorem SamePlace.congr (h : SamePlace passed late fresh) (hfile : late'.file = late.file)
    (hcursor : late'.cursor = late.cursor) (hline : late'.line = late.line)
    (htokenLine : late'.tokenLine = late.tokenLine) (hfile' : fresh'.file = fresh.file)
    (hcursor' : fresh'.cursor = fresh.cursor) (hline' : fresh'.line = fresh.line)
    (htokenLine' : fresh'.tokenLine = fresh.tokenLine) : SamePlace passed late' fresh' where
  file := by rw [hfile, hfile', h.file]
  unread := by rw [hcursor, hcursor', h.unread]
  offset := by rw [hcursor, hcursor', h.offset]
  line := by rw [hline, hline', h.line]
  tokenLine := by rw [htokenLine, htokenLine', h.tokenLine]

/-- Both have read the same lexeme. -/
theorem SamePlace.of_reads {lexeme : Lexeme} (h : SamePlace passed late fresh)
    (hlate : late.Reads lexeme late') (hfresh : fresh.Reads lexeme fresh') :
    SamePlace passed late' fresh' :=
  (h.mark.pass lexeme.2).congr hlate.file hlate.cursor hlate.line hlate.tokenLine hfresh.file
    hfresh.cursor hfresh.line hfresh.tokenLine

/-- What is refused in both is the same, moved. -/
theorem SamePlace.refuse {start start' : Position} (h : SamePlace passed late fresh)
    (hstart : start = start'.behind passed) (cause : Cause) (text : List Char) :
    (⟨cause, String.ofList text, start, late.location⟩ : Diagnostic) =
      Diagnostic.behind passed late.ordinal
        ⟨cause, String.ofList text, start', fresh.location⟩ := by
  unfold Diagnostic.behind location
  rw [hstart, h.tokenLine]

/-- What becomes of a step of the one becomes of a step of the other. -/
theorem SamePlace.advance (h : SamePlace passed late fresh) :
    Together
      (fun kind kind' late' fresh' => kind = kind' ∧
        late'.current = fresh'.current.behind passed ∧ SamePlace passed late' fresh')
      (fun fault fault' late' fresh' => fault = fault'.behind passed late'.ordinal ∧
        SamePlace passed late' fresh')
      late.advance fresh.advance := by
  have houtcome := fresh.outcome_advance
  generalize fresh.advance = result at houtcome
  -- whatever stands ahead of the fresh lexer stands ahead of the other one too
  cases houtcome with
  | @finish gap htext hgap =>
    have hplace := (h.pass gap).mark
    rw [advance_of_end (h.unread.trans (htext.trans (List.append_nil gap).symm)) hgap rfl]
    refine ⟨rfl, ?_, hplace.congr rfl rfl rfl rfl rfl rfl rfl rfl⟩
    show Token.eof _ = _
    rw [hplace.position]
    rfl
  | @stray gap cs c htext hgap hclass =>
    have hplace := (h.pass gap).mark
    rw [advance_of_stray (h.unread.trans htext) hgap rfl hclass]
    exact ⟨hplace.refuse (h.pass gap).position _ _, hplace⟩
  | @tooLarge gap digits rest htext hgap hclass hbound =>
    have hplace := (h.pass gap).mark.pass digits
    rw [advance_of_tooLarge (h.unread.trans htext) hgap hclass hbound]
    exact ⟨hplace.refuse (h.pass gap).position _ _, hplace⟩
  | @token gap rest lexeme next htext hgap hclass hblank hcomment hreadable hreads =>
    obtain ⟨late', hadvance, hreads'⟩ := exists_advance_of_readable (h.unread.trans htext) hgap rfl
      hclass hblank hcomment hreadable
    have hplace := (h.pass gap).of_reads hreads' hreads
    rw [hadvance]
    refine ⟨rfl, ?_, hplace⟩
    rw [hreads'.current, hreads.current, (h.pass gap).position, hplace.position]
    rfl

end

/-! ### The names that both have met -/

/-- A lexer has gone on from a place where another one has begun afresh, and that has returned some
tokens since. The names of these are entered into the table that there was at the start, and the
ordinals are those of that table. -/
structure Beside (passed : List Char) (start : Lexer) (tokens : List Token) (late fresh : Lexer) :
    Prop where
  place : SamePlace passed late fresh
  identifiers : late.identifiers =
    (tokens.filterMap Token.name?).foldl NameTable.enter start.identifiers
  ordinal : (Token.lastName? tokens).elim (late.ordinal = start.ordinal) fun name =>
    late.identifiers.find? name = some late.ordinal

/-- The token that has been returned is the same, moved, with the same value. -/
structure SameToken (passed : List Char) (late fresh : Lexer) : Prop where
  current : late.current = fresh.current.behind passed
  integer : fresh.current.kind = .number → late.intValue = fresh.intValue
  text : fresh.current.kind = .string → late.stringValue = fresh.stringValue

/-- What one call returns, beside what it returns afresh. -/
abbrev SameCall (passed : List Char) (start : Lexer) (tokens : List Token) :
    EStateM.Result Diagnostic Lexer Kind → EStateM.Result Diagnostic Lexer Kind → Prop :=
  Together
    (fun kind kind' late fresh => kind = kind' ∧ SameToken passed late fresh ∧
      Beside passed start (tokens ++ [fresh.current]) late fresh)
    fun fault fault' late fresh => fault = fault'.behind passed late.ordinal ∧
      Beside passed start tokens late fresh

section

variable {passed : List Char} {start late fresh : Lexer} {tokens : List Token}

/-- **After the same start, every call returns the same**, moved behind what has been passed. -/
theorem Beside.advance (h : Beside passed start tokens late fresh) :
    SameCall passed start tokens late.advance fresh.advance := by
  have hstep := h.place.advance
  have hnoted := late.noted_advance
  have hnoted' := fresh.noted_advance
  cases hlate : late.advance with
  | ok kind late' =>
    cases hfresh : fresh.advance with
    | error fault fresh' =>
      rw [hlate, hfresh] at hstep
      exact hstep.elim
    | ok kind' fresh' =>
      rw [hlate, hfresh] at hstep
      rw [hlate] at hnoted
      rw [hfresh] at hnoted'
      obtain ⟨rfl, hcurrent, hplace⟩ := hstep
      have hname : late'.current.name? = fresh'.current.name? := by
        rw [hcurrent, Token.name?_behind]
      have htext : late'.current.text = fresh'.current.text := by
        rw [hcurrent]
        rfl
      refine ⟨rfl, ⟨hcurrent, fun hkind => ?_, fun hkind => ?_⟩, hplace, ?_, ?_⟩
      · have hnumber := hnoted'.kind_eq.symm.trans hkind
        rw [hnoted.integer hnumber, hnoted'.integer hnumber, htext]
      · have hstring := hnoted'.kind_eq.symm.trans hkind
        rw [hnoted.text hstring, hnoted'.text hstring, htext]
      · rw [hnoted.identifiers, h.identifiers, hname, Token.filterMap_name?_append,
          List.foldl_append]
      · have hidentifiers := hnoted.identifiers
        have hordinal := hnoted.ordinal
        rw [hname] at hidentifiers hordinal
        rw [Token.lastName?_append]
        cases hsome : fresh'.current.name? with
        | some name =>
          rw [hsome] at hordinal
          exact hordinal
        | none =>
          -- no name has been met, so the ordinal is that of the one before
          rw [hsome] at hidentifiers hordinal
          rw [show late'.identifiers = late.identifiers from hidentifiers,
            show late'.ordinal = late.ordinal from hordinal]
          exact h.ordinal
  | error fault late' =>
    cases hfresh : fresh.advance with
    | ok kind' fresh' =>
      rw [hlate, hfresh] at hstep
      exact hstep.elim
    | error fault' fresh' =>
      rw [hlate, hfresh] at hstep
      rw [hlate] at hnoted
      obtain ⟨rfl, hplace⟩ := hstep
      refine ⟨rfl, hplace, ?_, ?_⟩
      · rw [hnoted.identifiers, h.identifiers]
      · rw [hnoted.ordinal, hnoted.identifiers]
        exact h.ordinal

/-- **So it is with any number of calls.** By induction on their number. -/
theorem Beside.after (count : Nat) :
    ∀ {tokens : List Token} {late fresh : Lexer}, Beside passed start tokens late fresh →
      Beside passed start (tokens ++ fresh.returned (List.replicate count .advance))
        (late.after (List.replicate count .advance))
        (fresh.after (List.replicate count .advance)) := by
  induction count with
  | zero =>
    intro tokens late fresh h
    rw [List.replicate_zero, Lexer.returned, List.append_nil]
    exact h
  | succ count ih =>
    intro tokens late fresh h
    have hcall := h.advance
    rw [List.replicate_succ, Lexer.returned, Lexer.after, Lexer.after, stateAfter_step_advance,
      stateAfter_step_advance, ← List.append_assoc]
    unfold LexerAction.returned
    cases hlate : late.advance <;> cases hfresh : fresh.advance <;> rw [hlate, hfresh] at hcall
    · exact ih hcall.2.2
    · exact hcall.elim
    · exact hcall.elim
    · rw [List.append_nil]
      exact ih hcall.2

end

/-! ### What a failure leaves behind -/

/-- What is told of the token read last is as it was, and so is the table of names. -/
structure Undisturbed (lexer next : Lexer) : Prop where
  current : next.current = lexer.current
  intValue : next.intValue = lexer.intValue
  stringValue : next.stringValue = lexer.stringValue
  ordinal : next.ordinal = lexer.ordinal
  identifiers : next.identifiers = lexer.identifiers

/-- A number that is too large has been passed. It stands in the source behind some characters that
had been passed before and a gap. -/
structure PastNumber (source file : String) (before gap digits rest : List Char)
    (fault : Diagnostic) (lexer next : Lexer) : Prop where
  source_eq : source.toList = before ++ (gap ++ digits) ++ rest
  trivia : Trivia (digits ++ rest) gap
  offset_before : lexer.cursor.offset = byteSize before
  /-- The number goes as far as there are digits. -/
  ne_nil : digits ≠ []
  isDigit : ∀ c ∈ digits, c.isDigit = true
  maximal : ∀ c ∈ rest.head?, c.isDigit = false
  tooLarge : integerBound ≤ decimalValue digits
  /-- The fault is about all of it. -/
  text : fault.text = String.ofList digits
  position : fault.position = ⟨(byteSize (before ++ gap)).toUInt32, file⟩
  /-- The cursor is just behind it. -/
  unread : next.cursor.unread = rest
  offset : next.cursor.offset = byteSize (before ++ (gap ++ digits))

/-- What is known of a step that has failed. -/
structure FailsCleanly (source file : String) (lexer : Lexer) (fault : Diagnostic)
    (next : Lexer) : Prop where
  undisturbed : lexer.Undisturbed next
  cause : fault.cause = .unrecognised ∨ fault.cause = .tooLarge
  /-- A character that begins nothing is met by every further call, which changes nothing at all. -/
  stuck : fault.cause = .unrecognised → ∀ count : Nat,
    next.after (List.replicate count .advance) = next ∧
      (next.after (List.replicate count .advance)).advance = .error fault next
  /-- Behind a number that is too large, the lexer and a fresh one on the rest of the source stay
  beside each other, and every further call returns the same. -/
  resumes : fault.cause = .tooLarge → ∃ before gap digits rest,
    PastNumber source file before gap digits rest fault lexer next ∧
      ∀ count : Nat,
        Beside (before ++ (gap ++ digits)) next
          ((ofSource (String.ofList rest) file).returned (List.replicate count .advance))
          (next.after (List.replicate count .advance))
          ((ofSource (String.ofList rest) file).after (List.replicate count .advance)) ∧
        SameCall (before ++ (gap ++ digits)) next
          ((ofSource (String.ofList rest) file).returned (List.replicate count .advance))
          (next.after (List.replicate count .advance)).advance
          ((ofSource (String.ofList rest) file).after (List.replicate count .advance)).advance

section

variable {lexer next : Lexer} {fault : Diagnostic} {source file : String}
  {before gap digits rest : List Char}

theorem undisturbed_of_error (h : lexer.advance = .error fault next) : lexer.Undisturbed next := by
  have houtcome := lexer.outcome_advance
  rw [h] at houtcome
  cases houtcome <;> exact ⟨rfl, rfl, rfl, rfl, rfl⟩

/-- A call that changes nothing does so any number of times. -/
theorem after_of_fixed (h : next.advance = .error fault next) (count : Nat) :
    next.after (List.replicate count .advance) = next := by
  induction count with
  | zero => rfl
  | succ count ih => rw [after_replicate_succ, ih, h, stateAfter]

theorem advance_of_unrecognised (h : lexer.advance = .error fault next)
    (hcause : fault.cause = .unrecognised) : next.advance = .error fault next := by
  have houtcome := lexer.outcome_advance
  rw [h] at houtcome
  cases houtcome with
  | stray htext _ hclass => exact advance_of_none (unread_pass htext) hclass
  | tooLarge => cases hcause

/-- What is taken as a number is all the digits that there are. -/
theorem digits_of_classify? (hclass : Pattern.classify? (digits ++ rest) = some (.digits, digits)) :
    (∀ c ∈ digits, c.isDigit = true) ∧ ∀ c ∈ rest.head?, c.isDigit = false :=
  Pattern.all_of_takeWhile (run?_eq_some.mp (Pattern.of_classify? hclass).2).1

theorem exists_pastNumber (hstands : lexer.Stands source.toList file before)
    (h : lexer.advance = .error fault next) (hcause : fault.cause = .tooLarge) :
    ∃ gap digits rest, PastNumber source file before gap digits rest fault lexer next ∧
      Beside (before ++ (gap ++ digits)) next [] next (ofSource (String.ofList rest) file) := by
  have houtcome := lexer.outcome_advance
  rw [h] at houtcome
  cases houtcome with
  | stray => cases hcause
  | @tooLarge gap digits rest htext hgap hclass hbound =>
    obtain ⟨hdigits, hstop⟩ := digits_of_classify? hclass
    have hplace := hstands.pass htext
    have hnext := hplace.mark.pass (unread_pass htext)
    rw [List.append_assoc] at hnext
    have hsource := hnext.source_eq
    have hunread : ((lexer.pass gap).mark.pass digits).cursor.unread = rest :=
      unread_pass (unread_pass htext)
    refine ⟨gap, digits, rest, ⟨?_, hgap, hstands.offset_eq, Pattern.ne_nil_of_classify? hclass,
      hdigits, hstop, hbound, rfl, ?_, hunread, hnext.offset_eq⟩, ⟨hnext.file_eq, ?_, ?_, ?_, ?_⟩,
      rfl, rfl⟩
    · rwa [hunread] at hsource
    · unfold position
      rw [hplace.offset_eq, hplace.file_eq]
    · rw [hunread]
      exact (String.toList_ofList).symm
    · rw [hnext.offset_eq]
      exact (Nat.zero_add _).symm
    · exact hnext.line_eq
    · -- the line that has been noted is that of the number, and there is none within it
      show (lexer.pass gap).line = _
      rw [hplace.line_eq]
      unfold lineBehind
      have hlines : newlines digits = 0 := List.count_eq_zero.mpr
        (Pattern.newline_notMem_of_classify? hclass Pattern.noConfusion Pattern.noConfusion)
      rw [← List.append_assoc, newlines_append _ digits, hlines]
      rfl

end

end Lexer

/-- **A step that fails disturbs nothing, and the lexer can go on after it**, whatever has been
asked of it before. -/
theorem clean_failure {source file : String} {actions : List LexerAction} {fault : Diagnostic}
    {next : Lexer} (h : ((Lexer.ofSource source file).after actions).advance = .error fault next) :
    Lexer.FailsCleanly source file ((Lexer.ofSource source file).after actions) fault next := by
  obtain ⟨before, hstands⟩ := Lexer.stands_after source file actions
  refine ⟨Lexer.undisturbed_of_error h, ?_, fun hcause count => ?_, fun hcause => ?_⟩
  · have houtcome := ((Lexer.ofSource source file).after actions).outcome_advance
    rw [h] at houtcome
    cases houtcome
    · exact .inl rfl
    · exact .inr rfl
  · have hfixed := Lexer.advance_of_unrecognised h hcause
    have hsame := Lexer.after_of_fixed hfixed count
    exact ⟨hsame, by rw [hsame, hfixed]⟩
  · obtain ⟨gap, digits, rest, hpast, hbeside⟩ := Lexer.exists_pastNumber hstands h hcause
    refine ⟨before, gap, digits, rest, hpast, fun count => ?_⟩
    have hlater := hbeside.after count
    exact ⟨hlater, hlater.advance⟩

/-- A number that is too large, behind two names and before one of them and a new one. -/
theorem clean_failure_at_number :
    ∃ fault next,
      ((Lexer.ofSource "a b\n9223372036854775808 c b \"$\" 7 $" "shell").after
        [.advance, .advance]).advance = .error fault next ∧ fault.cause = .tooLarge ∧
      (next.after [.advance, .advance]).ordinal = 1 ∧
      Lexer.FailsCleanly "a b\n9223372036854775808 c b \"$\" 7 $" "shell"
        ((Lexer.ofSource "a b\n9223372036854775808 c b \"$\" 7 $" "shell").after
          [.advance, .advance]) fault next :=
  ⟨_, _, rfl, by decide +kernel, by decide +kernel, clean_failure rfl⟩

end ScriptFront
