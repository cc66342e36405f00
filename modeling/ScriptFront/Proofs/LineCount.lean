import ScriptFront.Proofs.Pointing
import ScriptFront.Proofs.Reached

/-!
# ScriptFront.Proofs.LineCount

**The lines that the lexer tells are those of its source.** After every call, whether it returned a
token or failed, the line is that of the byte where the token or the fault stands, and the counter
is at the line of the cursor (`lines_counted`). A source that is smaller than four gibibytes has
fewer lines than the counter has room for.
-/

namespace ScriptFront

open Text (byteSize)

/-! ### The line of a byte -/

/-- The characters of a text that begin before a byte. -/
def charsBefore : Nat → List Char → List Char
  | _, [] => []
  | offset, c :: cs => if 0 < offset then c :: charsBefore (offset - c.utf8Size) cs else []

/-- The line of a byte of a source: one more than the newlines before it. -/
def lineAtByte (source : String) (offset : Nat) : Nat :=
  1 + newlines (charsBefore offset source.toList)

theorem charsBefore_append (before after : List Char) :
    charsBefore (byteSize before) (before ++ after) = before := by
  induction before with
  | nil => cases after <;> rfl
  | cons c before ih =>
    have hpos : 0 < byteSize (c :: before) := Text.byteSize_pos (List.cons_ne_nil c before)
    rw [List.cons_append, charsBefore, if_pos hpos, Text.byteSize_cons, Nat.add_sub_cancel_left, ih]

theorem lineAtByte_eq {source : String} {before : List Char} (h : before <+: source.toList) :
    lineAtByte source (byteSize before) = 1 + newlines before := by
  obtain ⟨after, hsource⟩ := h
  unfold lineAtByte
  rw [← hsource, charsBefore_append]

namespace Lexer

variable {lexer next : Lexer} {source : String} {file : String} {before place : List Char}

/-- The word for a line is large enough, if the source is not too large. -/
theorem toNat_lineBehind (hsize : source.utf8ByteSize < 2 ^ 32 - 1) (h : before <+: source.toList) :
    (lineBehind before).toNat = lineAtByte source (byteSize before) := by
  rw [lineAtByte_eq h]
  obtain ⟨after, hsource⟩ := h
  have hlines := newlines_le_byteSize before
  rw [utf8ByteSize_eq, ← hsource, Text.byteSize_append] at hsize
  unfold lineBehind
  rw [UInt32.toNat_add, toNat_toUInt32 (by omega)]
  show (1 + newlines before) % 2 ^ 32 = _
  omega

theorem lineBehind_le (hsize : source.utf8ByteSize < 2 ^ 32 - 1) (h : before <+: place)
    (hplace : place <+: source.toList) : lineBehind before ≤ lineBehind place := by
  rw [UInt32.le_iff_toNat_le, toNat_lineBehind hsize hplace,
    toNat_lineBehind hsize (h.trans hplace), lineAtByte_eq hplace,
    lineAtByte_eq (h.trans hplace)]
  obtain ⟨more, rfl⟩ := h
  rw [newlines_append]
  omega

/-! ### One call -/

theorem Stands.isPrefix {source : List Char} (h : lexer.Stands source file before) :
    before <+: source :=
  ⟨_, h.source_eq.symm⟩

/-- What a call returns stands behind some characters of the source. -/
def PlacedAt (source : String) (place : List Char) :
    EStateM.Result Diagnostic Lexer Kind → Prop :=
  Lands
    (fun kind next => next.location.line = lineBehind place ∧
      next.current.span.start.offset = (byteSize place).toUInt32 ∧
      (kind = .eof → place = source.toList))
    fun fault next => next.location.line = lineBehind place ∧
      fault.position.offset = (byteSize place).toUInt32 ∧ fault.location = next.location

theorem Stands.position_offset (h : lexer.Stands source.toList file place) :
    lexer.position.offset = (byteSize place).toUInt32 := by
  rw [← h.offset_eq]
  rfl

/-- **Whatever a call returns stands behind the gap** that it has passed. -/
theorem Stands.exists_place (h : lexer.Stands source.toList file before) :
    ∃ place, before <+: place ∧ place <+: source.toList ∧ PlacedAt source place lexer.advance := by
  have houtcome := lexer.outcome_advance
  generalize lexer.advance = result at houtcome
  cases houtcome with
  | @finish gap htext hgap =>
    have hplace := h.pass (htext.trans (List.append_nil gap).symm)
    refine ⟨before ++ gap, List.prefix_append _ _, hplace.isPrefix, hplace.line_eq,
      hplace.position_offset, fun _ => ?_⟩
    rw [← htext]
    exact h.source_eq.symm
  | @stray gap cs c htext =>
    have hplace := h.pass htext
    exact ⟨before ++ gap, List.prefix_append _ _, hplace.isPrefix, hplace.line_eq,
      hplace.position_offset, rfl⟩
  | @tooLarge gap digits rest htext =>
    have hplace := h.pass htext
    exact ⟨before ++ gap, List.prefix_append _ _, hplace.isPrefix, hplace.line_eq,
      hplace.position_offset, rfl⟩
  | @token gap rest lexeme next htext _ _ _ _ _ hreads =>
    have hplace := h.pass htext
    refine ⟨before ++ gap, List.prefix_append _ _, hplace.isPrefix,
      hreads.tokenLine.trans hplace.line_eq, ?_, fun heof => absurd heof hreads.kind_ne⟩
    rw [hreads.current]
    exact hplace.position_offset

/-! ### Whole sessions -/

/-- The lines that a lexer counts and tells are those of its source. -/
structure CountsLines (source : String) (lexer : Lexer) : Prop where
  /-- The counter is at the line of the cursor. -/
  counter : lexer.line.toNat = lineAtByte source lexer.cursor.offset
  /-- It has room for the lines of whatever is passed next. -/
  room {passed text rest : List Char} : lexer.cursor.unread = passed ++ (text ++ rest) →
    (lexer.pass passed).line.toNat + newlines text < 2 ^ 32
  /-- The line that is told for a token is the one where it begins. -/
  token {kind : Kind} {next : Lexer} : lexer.advance = .ok kind next →
    next.location.line.toNat = lineAtByte source next.current.span.start.offset.toNat
  /-- The end is at the last byte. -/
  ending {next : Lexer} : lexer.advance = .ok .eof next →
    next.current.span.start.offset.toNat = source.utf8ByteSize
  /-- The line that is told for a fault is the one where that stands, and the fault tells the
  same. -/
  fault {fault : Diagnostic} {next : Lexer} : lexer.advance = .error fault next →
    next.location.line.toNat = lineAtByte source fault.position.offset.toNat ∧
      fault.location = next.location
  /-- No line is told that is before the one told last. -/
  grows : lexer.location.line ≤ (stateAfter lexer.advance).location.line

theorem Stands.countsLines (hsize : source.utf8ByteSize < 2 ^ 32 - 1)
    (h : lexer.Stands source.toList file before) : lexer.CountsLines source := by
  obtain ⟨place, hbefore, hplace, hplaced⟩ := h.exists_place
  have hoffset : (byteSize place).toUInt32.toNat = byteSize place := by
    obtain ⟨after, hsource⟩ := hplace
    rw [utf8ByteSize_eq, ← hsource, Text.byteSize_append] at hsize
    exact toNat_toUInt32 (by omega)
  refine ⟨?_, fun {passed text rest} htext => ?_, fun hadvance => ?_, fun hadvance => ?_,
    fun hadvance => ?_, ?_⟩
  · rw [h.line_eq, h.offset_eq]
    exact toNat_lineBehind hsize h.isPrefix
  · have hpassed := h.pass htext
    have hlines := newlines_le_byteSize source.toList
    rw [← utf8ByteSize_eq, hpassed.source_eq, unread_pass htext, newlines_append,
      newlines_append text] at hlines
    rw [hpassed.line_eq, toNat_lineBehind hsize hpassed.isPrefix,
      lineAtByte_eq hpassed.isPrefix]
    omega
  · rw [hadvance] at hplaced
    obtain ⟨hline, hstart, -⟩ := hplaced
    rw [hline, hstart, hoffset]
    exact toNat_lineBehind hsize hplace
  · rw [hadvance] at hplaced
    obtain ⟨-, hstart, hend⟩ := hplaced
    rw [hstart, hoffset, hend rfl, utf8ByteSize_eq]
  · rw [hadvance] at hplaced
    obtain ⟨hline, hstart, hlocation⟩ := hplaced
    rw [hline, hstart, hoffset]
    exact ⟨toNat_lineBehind hsize hplace, hlocation⟩
  · obtain ⟨earlier, hearlier, hline⟩ := h.tokenLine_eq
    have hlater : (stateAfter lexer.advance).location.line = lineBehind place := by
      cases hadvance : lexer.advance <;> rw [hadvance] at hplaced <;> exact hplaced.1
    rw [hlater]
    show lexer.tokenLine ≤ _
    rw [hline]
    exact lineBehind_le hsize (hearlier.trans hbefore) hplace

end Lexer

/-- **The lines that the lexer tells are exact**, whatever has been asked of it before and whatever
faults it has gone on after. -/
theorem lines_counted {source : String} (hsize : source.utf8ByteSize < 2 ^ 32 - 1) (file : String)
    (actions : List LexerAction) :
    ((Lexer.ofSource source file).after actions).CountsLines source := by
  obtain ⟨before, hstands⟩ := Lexer.stands_after source file actions
  exact hstands.countsLines hsize

/-- A text of two lines, a comment, a number that is too large, and a character that begins
nothing. -/
theorem lines_counted_after_faults :
    "\"a\nb\"\r\n// c\n9223372036854775808\n$".utf8ByteSize < 2 ^ 32 - 1 ∧
      ((List.range 5).map fun count =>
        ((Lexer.ofSource "\"a\nb\"\r\n// c\n9223372036854775808\n$" "shell").after
          (List.replicate count .advance)).location.line) = [1, 1, 4, 5, 5] ∧
      ((Lexer.ofSource "\"a\nb\"\r\n// c\n9223372036854775808\n$" "shell").after
        (List.replicate 5 .advance)).CountsLines "\"a\nb\"\r\n// c\n9223372036854775808\n$" := by
  have hsize : "\"a\nb\"\r\n// c\n9223372036854775808\n$".utf8ByteSize < 2 ^ 32 - 1 := by decide
  exact ⟨hsize, by decide +kernel, lines_counted hsize "shell" (List.replicate 5 .advance)⟩

end ScriptFront
