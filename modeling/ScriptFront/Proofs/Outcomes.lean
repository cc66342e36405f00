import ScriptFront.Proofs.Listed

/-!
# ScriptFront.Proofs.Outcomes

**What can become of one step of the lexer.** Behind a gap there is the end, or a character that
begins no lexeme, or a number that is too large, or a lexeme that becomes a token. What stands there
decides which of the four it is, and with it where the lexer is afterwards (`Lexer.Outcome`).

Lines are counted in blanks, comments and texts only. Nothing else holds a line end, so that comes
to the same as counting them in whatever is passed (`Lexer.move_eq_pass`).
-/

namespace ScriptFront

/-! ### Line ends -/

/-- **Only blanks and texts in quotes hold line ends.** -/
theorem Pattern.newline_notMem_of_classify? {pattern : Pattern} {text lexeme : List Char}
    (h : classify? text = some (pattern, lexeme)) (hblank : pattern ≠ .blank)
    (hquoted : pattern ≠ .quoted) : '\n' ∉ lexeme := by
  obtain ⟨hlisted, htaken⟩ := of_classify? h
  have hwhile {among : Char → Bool} (hamong : among '\n' = false) (rest : List Char) :
      '\n' ∉ rest.takeWhile among := fun hmem =>
    absurd (List.all_eq_true.mp List.all_takeWhile _ hmem) (ne_true_of_eq_false hamong)
  cases pattern with
  | blank => exact absurd rfl hblank
  | quoted => exact absurd rfl hquoted
  | digits =>
    rw [← (run?_eq_some.mp htaken).1]
    exact hwhile (by decide) text
  | word =>
    cases text with
    | nil => cases htaken
    | cons c rest =>
      obtain ⟨hstart, htaken⟩ := Option.ite_none_right_eq_some.mp htaken
      obtain rfl := Option.some.inj htaken
      refine List.not_mem_cons_of_ne_of_not_mem ?_ (hwhile (by decide) rest)
      rintro rfl
      exact absurd hstart (by decide)
  | comment =>
    obtain ⟨rest, -, rfl⟩ := eq_of_comment htaken
    simpa using hwhile (by decide) rest
  | sign spelling kind =>
    have hsigns : ∀ pattern ∈ table, match pattern with
        | .sign spelling _ => '\n' ∉ spelling
        | _ => True := by
      simp [table]
    obtain rfl := Option.some.inj (Option.ite_none_right_eq_some.mp htaken).2
    exact hsigns _ hlisted

namespace Lexer

variable {lexer next : Lexer} {gap rest : List Char} {lexeme : Lexeme}

/-- Where there are no line ends, there is nothing to count. -/
theorem move_eq_pass {text : List Char} (h : '\n' ∉ text) : lexer.move text = lexer.pass text := by
  unfold pass countLines
  rw [newlines, List.count_eq_zero.mpr h]
  exact (congrArg (fun line => { lexer.move text with line }) (UInt32.add_zero _)).symm

/-! ### Tokens -/

/-- A lexeme that stands where one lexer stands has been read, and another one is behind it. -/
structure Reads (lexer : Lexer) (lexeme : Lexeme) (next : Lexer) : Prop where
  cursor : next.cursor = (lexer.pass lexeme.2).cursor
  line : next.line = (lexer.pass lexeme.2).line
  tokenLine : next.tokenLine = lexer.line
  file : next.file = lexer.file
  current : next.current =
    ⟨lexeme.kind, String.ofList lexeme.2, ⟨lexer.position, next.position⟩⟩
  kind_ne : lexeme.kind ≠ .eof

/-- A lexeme that is not too large is read. -/
theorem exists_reads (hclass : Pattern.classify? (lexeme.2 ++ rest) = some lexeme)
    (hblank : lexeme.1 ≠ .blank) (hcomment : lexeme.1 ≠ .comment) (hreadable : lexeme.Readable) :
    ∃ next, lexer.readAs lexeme.1 lexeme.2 = .ok lexeme.kind next ∧ lexer.Reads lexeme next := by
  -- where the line ends are not counted, there are none
  have hmove (hquoted : lexeme.1 ≠ .quoted) :
      (lexer.move lexeme.2).line = (lexer.pass lexeme.2).line :=
    congrArg line (move_eq_pass (Pattern.newline_notMem_of_classify? hclass hblank hquoted))
  obtain ⟨pattern, text⟩ := lexeme
  cases pattern with
  | blank => exact absurd rfl hblank
  | comment => exact absurd rfl hcomment
  | word =>
    have hline := hmove Pattern.noConfusion
    show ∃ next, acceptWord _ _ _ = _ ∧ _
    unfold acceptWord
    cases hreserved : Kind.ofReserved? (String.ofList text) with
    | some kind =>
      obtain rfl : Lexeme.kind (.word, text) = kind := by simp [Lexeme.kind, hreserved]
      exact ⟨_, rfl, rfl, hline, rfl, rfl, rfl, ofReserved?_ne_eof hreserved⟩
    | none =>
      have hkind : Lexeme.kind (.word, text) = .identifier := by simp [Lexeme.kind, hreserved]
      rw [hkind]
      refine ⟨_, rfl, rfl, hline, rfl, rfl, ?_, ?_⟩
      · rw [hkind]
        rfl
      · rw [hkind]
        decide
  | digits =>
    replace hreadable : decimalValue text < integerBound := hreadable
    show ∃ next, acceptDigits _ _ _ = _ ∧ _
    unfold acceptDigits
    rw [if_pos hreadable]
    exact ⟨_, rfl, rfl, hmove Pattern.noConfusion, rfl, rfl, rfl, Kind.noConfusion⟩
  | quoted => exact ⟨_, rfl, rfl, rfl, rfl, rfl, rfl, Kind.noConfusion⟩
  | sign spelling kind =>
    exact ⟨_, rfl, rfl, hmove Pattern.noConfusion, rfl, rfl, rfl, sign_ne_eof hclass⟩

/-- Only a number can be too large. -/
theorem exists_digits_of_not_readable (h : ¬ lexeme.Readable) :
    ∃ digits, lexeme = (.digits, digits) ∧ integerBound ≤ decimalValue digits := by
  obtain ⟨pattern, text⟩ := lexeme
  cases pattern with
  | digits => exact ⟨text, rfl, Nat.not_lt.mp h⟩
  | _ => exact absurd trivial h

/-! ### What stands ahead decides -/

section

variable (htext : lexer.cursor.unread = gap ++ rest) (hgap : Trivia rest gap)

include htext hgap

theorem advance_of_end (hrest : rest = []) : lexer.advance = (lexer.pass gap).mark.finish := by
  rw [advance_pass hgap lexer htext]
  exact advance_of_nil ((unread_pass htext).trans hrest)

theorem advance_of_stray {c : Char} {cs : List Char} (hrest : rest = c :: cs)
    (hclass : Pattern.classify? (c :: cs) = none) : lexer.advance =
      (lexer.pass gap).mark.refuse (lexer.pass gap).position .unrecognised [c] := by
  rw [advance_pass hgap lexer htext]
  exact advance_of_none ((unread_pass htext).trans hrest) hclass

theorem advance_of_tooLarge {digits : List Char}
    (hclass : Pattern.classify? rest = some (.digits, digits))
    (hbound : integerBound ≤ decimalValue digits) : lexer.advance =
      ((lexer.pass gap).mark.pass digits).refuse (lexer.pass gap).position .tooLarge digits := by
  rw [advance_pass hgap lexer htext, advance_of_classify (by rw [unread_pass htext]; exact hclass),
    ← move_eq_pass (Pattern.newline_notMem_of_classify? hclass Pattern.noConfusion
      Pattern.noConfusion)]
  exact if_neg (Nat.not_lt.mpr hbound)

theorem exists_advance_of_readable {after : List Char} (hrest : rest = lexeme.2 ++ after)
    (hclass : Pattern.classify? rest = some lexeme) (hblank : lexeme.1 ≠ .blank)
    (hcomment : lexeme.1 ≠ .comment) (hreadable : lexeme.Readable) :
    ∃ next, lexer.advance = .ok lexeme.kind next ∧ (lexer.pass gap).Reads lexeme next := by
  rw [advance_pass hgap lexer htext, advance_of_classify (by rw [unread_pass htext]; exact hclass)]
  subst hrest
  exact exists_reads hclass hblank hcomment hreadable

end

/-- What can become of a step of the lexer. -/
inductive Outcome (lexer : Lexer) : EStateM.Result Diagnostic Lexer Kind → Prop
  /-- Nothing but a gap is left. -/
  | finish {gap : List Char} (htext : lexer.cursor.unread = gap) (hgap : Trivia [] gap) :
      Outcome lexer (lexer.pass gap).mark.finish
  /-- Behind a gap stands a character that begins no lexeme. The lexer stays before it. -/
  | stray {gap cs : List Char} {c : Char} (htext : lexer.cursor.unread = gap ++ c :: cs)
      (hgap : Trivia (c :: cs) gap) (hclass : Pattern.classify? (c :: cs) = none) :
      Outcome lexer ((lexer.pass gap).mark.refuse (lexer.pass gap).position .unrecognised [c])
  /-- Behind a gap stands a number that is too large. The lexer passes it. -/
  | tooLarge {gap digits rest : List Char} (htext : lexer.cursor.unread = gap ++ (digits ++ rest))
      (hgap : Trivia (digits ++ rest) gap)
      (hclass : Pattern.classify? (digits ++ rest) = some (.digits, digits))
      (hbound : integerBound ≤ decimalValue digits) :
      Outcome lexer
        (((lexer.pass gap).mark.pass digits).refuse (lexer.pass gap).position .tooLarge digits)
  /-- Behind a gap stands a lexeme that is read. -/
  | token {gap rest : List Char} {lexeme : Lexeme} {next : Lexer}
      (htext : lexer.cursor.unread = gap ++ (lexeme.2 ++ rest))
      (hgap : Trivia (lexeme.2 ++ rest) gap)
      (hclass : Pattern.classify? (lexeme.2 ++ rest) = some lexeme) (hblank : lexeme.1 ≠ .blank)
      (hcomment : lexeme.1 ≠ .comment) (hreadable : lexeme.Readable)
      (hreads : (lexer.pass gap).Reads lexeme next) : Outcome lexer (.ok lexeme.kind next)

/-- **Every step has one of these outcomes.** -/
theorem outcome_advance (lexer : Lexer) : Outcome lexer lexer.advance := by
  obtain ⟨gap, rest, htext, hgap, hsolid⟩ := exists_gap lexer.cursor.unread
  cases hclass : Pattern.classify? rest with
  | none =>
    cases rest with
    | nil =>
      rw [advance_of_end htext hgap rfl]
      exact .finish (htext.trans (List.append_nil gap)) hgap
    | cons c cs =>
      rw [advance_of_stray htext hgap rfl hclass]
      exact .stray htext hgap hclass
  | some lexeme =>
    obtain ⟨hblank, hcomment⟩ := hsolid lexeme.1 lexeme.2 hclass
    obtain ⟨rest, rfl⟩ := Pattern.isPrefix_of_classify? hclass
    by_cases hreadable : Lexeme.Readable lexeme
    · obtain ⟨next, hadvance, hreads⟩ :=
        exists_advance_of_readable htext hgap rfl hclass hblank hcomment hreadable
      rw [hadvance]
      exact .token htext hgap hclass hblank hcomment hreadable hreads
    · obtain ⟨digits, rfl, hbound⟩ := exists_digits_of_not_readable hreadable
      rw [advance_of_tooLarge htext hgap hclass hbound]
      exact .tooLarge htext hgap hclass hbound

end Lexer

end ScriptFront
