import ScriptFront.Proofs.Logging
import ScriptFront.Proofs.Outcomes

/-!
# ScriptFront.Proofs.Reached

**Where a lexer can be.** Whatever has been asked of it, it stands behind some characters of its
source and has counted their lines (`Lexer.stands_after`), and it goes on after a fault as after a
token. The lines are counted in words of 32 bits, so nothing is said here of the size of the source.
-/

namespace ScriptFront

open Text (byteSize)

/-! ### Sessions -/

/-- The lexer that the steps of a session lead to. -/
def Lexer.after (lexer : Lexer) : List LexerAction → Lexer
  | [] => lexer
  | action :: actions => (stateAfter (action.step lexer)).after actions

namespace Lexer

variable {lexer next : Lexer}

theorem after_append (actions more : List LexerAction) :
    ∀ lexer : Lexer, lexer.after (actions ++ more) = (lexer.after actions).after more := by
  induction actions with
  | nil => exact fun _ => rfl
  | cons action actions ih => exact fun lexer => ih _

theorem stateAfter_step_advance (lexer : Lexer) :
    stateAfter (LexerAction.advance.step lexer) = stateAfter lexer.advance := by
  unfold LexerAction.step
  cases lexer.advance <;> rfl

/-- A session of one token more. -/
theorem after_replicate_succ (count : Nat) (lexer : Lexer) :
    lexer.after (List.replicate (count + 1) .advance) =
      stateAfter (lexer.after (List.replicate count .advance)).advance := by
  rw [List.replicate_succ', after_append]
  exact stateAfter_step_advance _

section

variable {Inv : Lexer → Prop} (hadvance : ∀ lexer, Inv lexer → Inv (stateAfter lexer.advance))

include hadvance

theorem logging_of_advance :
    Logging (fun lexer _ => Inv lexer) fun _ (_ : Lexer) => True := by
  refine ⟨fun {lexer _} hinv => ?_, fun _ => trivial⟩
  have hnext := hadvance lexer hinv
  show Lands _ _ lexer.advance
  cases hresult : lexer.advance with
  | ok kind next =>
    rw [hresult] at hnext
    exact hnext
  | error fault next =>
    rw [hresult] at hnext
    exact ⟨hnext, trivial⟩

theorem step_keeps (hinv : Inv lexer) (action : LexerAction) :
    Inv (stateAfter (action.step lexer)) := by
  cases action with
  | advance =>
    rw [stateAfter_step_advance]
    exact hadvance lexer hinv
  | parse =>
    have hlands := @Logging.parseStream Lexer _ _ _ _ (logging_of_advance hadvance) lexer [] hinv
    unfold LexerAction.step
    cases hparse : parseStream lexer <;> rw [hparse] at hlands
    · exact hlands
    · exact hlands.1

/-- **What reading a token keeps, a session keeps**, whether the token is read or not. By induction
on the steps. -/
theorem after_keeps (actions : List LexerAction) :
    ∀ {lexer : Lexer}, Inv lexer → Inv (lexer.after actions) := by
  induction actions with
  | nil => exact id
  | cons action actions ih => exact fun hinv => ih (step_keeps hadvance hinv action)

end

/-! ### Standing in a source -/

/-- The line behind some characters, in the word that the lexer has for it. -/
def lineBehind (before : List Char) : UInt32 :=
  1 + (newlines before).toUInt32

theorem lineBehind_append (before text : List Char) :
    lineBehind (before ++ text) = lineBehind before + (newlines text).toUInt32 := by
  unfold lineBehind
  rw [newlines_append, Nat.toUInt32, UInt32.ofNat_add, ← UInt32.add_assoc]

/-- The lexer stands behind some characters of a source. The line that it has noted is one that it
has come through. -/
structure Stands (source : List Char) (file : String) (before : List Char) (lexer : Lexer) :
    Prop where
  file_eq : lexer.file = file
  source_eq : source = before ++ lexer.cursor.unread
  offset_eq : lexer.cursor.offset = byteSize before
  line_eq : lexer.line = lineBehind before
  tokenLine_eq : ∃ earlier, earlier <+: before ∧ lexer.tokenLine = lineBehind earlier

variable {source before text rest : List Char} {file : String}

theorem stands_ofSource (source file : String) :
    (ofSource source file).Stands source.toList file [] :=
  ⟨rfl, rfl, rfl, rfl, [], List.prefix_rfl, rfl⟩

theorem Stands.pass (h : lexer.Stands source file before)
    (htext : lexer.cursor.unread = text ++ rest) :
    (lexer.pass text).Stands source file (before ++ text) where
  file_eq := h.file_eq
  source_eq := by
    rw [unread_pass htext, List.append_assoc, ← htext]
    exact h.source_eq
  offset_eq := by
    rw [offset_pass htext, h.offset_eq, Text.byteSize_append]
  line_eq := by
    rw [lineBehind_append, ← h.line_eq]
    rfl
  tokenLine_eq := by
    obtain ⟨earlier, hearlier, hline⟩ := h.tokenLine_eq
    exact ⟨earlier, hearlier.trans (List.prefix_append _ _), hline⟩

theorem Stands.mark (h : lexer.Stands source file before) :
    lexer.mark.Stands source file before :=
  ⟨h.file_eq, h.source_eq, h.offset_eq, h.line_eq, before, List.prefix_rfl, h.line_eq⟩

theorem Stands.congr (h : lexer.Stands source file before) (hfile : next.file = lexer.file)
    (hcursor : next.cursor = lexer.cursor) (hline : next.line = lexer.line)
    (htokenLine : next.tokenLine = lexer.tokenLine) : next.Stands source file before :=
  ⟨hfile ▸ h.file_eq, hcursor ▸ h.source_eq, hcursor ▸ h.offset_eq, hline ▸ h.line_eq,
    htokenLine ▸ h.tokenLine_eq⟩

/-- Behind a lexeme that has been read. -/
theorem Stands.of_reads {lexeme : Lexeme} (h : lexer.Stands source file before)
    (htext : lexer.cursor.unread = lexeme.2 ++ rest) (hreads : lexer.Reads lexeme next) :
    next.Stands source file (before ++ lexeme.2) :=
  (h.mark.pass htext).congr hreads.file hreads.cursor hreads.line hreads.tokenLine

/-- A step that returns a token and one that fails both leave the lexer behind what it has
passed. -/
theorem Stands.advance (h : lexer.Stands source file before) :
    ∃ later, (stateAfter lexer.advance).Stands source file later := by
  have houtcome := lexer.outcome_advance
  generalize lexer.advance = result at houtcome
  cases houtcome with
  | @finish gap htext hgap =>
    exact ⟨_, (h.pass (htext.trans (List.append_nil gap).symm)).mark.congr rfl rfl rfl rfl⟩
  | stray htext => exact ⟨_, (h.pass htext).mark⟩
  | tooLarge htext => exact ⟨_, (h.pass htext).mark.pass (unread_pass htext)⟩
  | token htext _ _ _ _ _ hreads => exact ⟨_, (h.pass htext).of_reads (unread_pass htext) hreads⟩

/-- **Whatever has been asked of a lexer, it stands in its source.** -/
theorem stands_after (source file : String) (actions : List LexerAction) :
    ∃ before, ((ofSource source file).after actions).Stands source.toList file before := by
  refine @after_keeps (fun lexer => ∃ before, lexer.Stands source.toList file before) ?_ actions _
    ⟨[], stands_ofSource source file⟩
  intro lexer hstands
  obtain ⟨before, h⟩ := hstands
  exact h.advance

end Lexer

end ScriptFront
