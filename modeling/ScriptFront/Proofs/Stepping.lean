import Mathlib.Logic.Basic
import ScriptFront.Proofs.Scanning

/-!
# ScriptFront.Proofs.Stepping

**One step of the lexer, told by the text alone.** A gap before a lexeme can be passed beforehand
(`advance_pass`), however it is cut into blanks and comments, and then the class of the lexeme
decides (`advance_of_classify`). Every text has a gap before its first lexeme (`exists_gap`).
-/

namespace ScriptFront

open Text (byteSize isWhiteSpace)

/-! ### Passing -/

@[simp] theorem newlines_append (x y : List Char) : newlines (x ++ y) = newlines x + newlines y :=
  List.count_append

namespace Cursor

theorem skip_skip (m n : Nat) (cursor : Cursor) :
    (cursor.skip m).skip n = cursor.skip (m + n) := by
  simp only [skip, List.drop_drop, List.take_add, Text.byteSize_append, mk.injEq]
  exact ⟨trivial, by omega, by omega⟩

end Cursor

namespace Lexer

variable {lexer : Lexer} {x y rest : List Char}

@[simp] theorem pass_nil (lexer : Lexer) : lexer.pass [] = lexer := by
  simp [pass, move, countLines, newlines, Cursor.skip]

/-- What is passed in two pieces could be passed in one. -/
theorem pass_pass (lexer : Lexer) (x y : List Char) :
    (lexer.pass x).pass y = lexer.pass (x ++ y) := by
  simp only [pass, move, countLines, Cursor.skip_skip, List.length_append, newlines_append,
    Nat.toUInt32, UInt32.ofNat_add, UInt32.add_assoc]

theorem mark_pass (lexer : Lexer) (x : List Char) :
    (lexer.mark.pass x).mark = (lexer.pass x).mark :=
  rfl

/-- The line that has been noted does not matter to a step, since it notes its own. -/
theorem advanceWithin_mark (count : Nat) (lexer : Lexer) :
    advanceWithin count lexer.mark = advanceWithin count lexer := by
  cases count <;> rfl

/-- A step may pass over any number of blanks and comments that is large enough. -/
theorem advanceWithin_eq (m : Nat) : ∀ (n : Nat) (lexer : Lexer), lexer.cursor.left ≤ m →
    lexer.cursor.left ≤ n → advanceWithin m lexer = advanceWithin n lexer := by
  induction m with
  | zero =>
    intro n lexer hm _
    have hunread := Cursor.left_eq_zero.mp (Nat.le_zero.mp hm)
    cases n with
    | zero => rfl
    | succ n => simp only [advanceWithin, cursor_mark, hunread]
  | succ m ih =>
    intro n lexer hm hn
    cases hunread : lexer.cursor.unread with
    | nil => cases n <;> simp only [advanceWithin, cursor_mark, hunread]
    | cons c cs =>
      have hpos : lexer.cursor.left ≠ 0 := by simp [Cursor.left_eq_zero, hunread]
      obtain ⟨n, rfl⟩ : ∃ k, n = k + 1 := ⟨n - 1, by omega⟩
      simp only [advanceWithin, cursor_mark, hunread]
      cases hclass : Pattern.classify? (c :: cs) with
      | none => rfl
      | some found =>
        obtain ⟨pattern, lexeme⟩ := found
        -- a blank or a comment has at least one byte, so one attempt less is enough behind it
        have hless := @left_pass_lt lexer.mark lexeme pattern (hunread ▸ hclass)
        rw [cursor_mark] at hless
        cases pattern with
        | blank => exact ih n _ (by omega) (by omega)
        | comment => exact ih n _ (by omega) (by omega)
        | word | digits | quoted | sign => rfl

/-- Reads a lexeme of a class, or passes over it if it is a blank or a comment. -/
def readAs (lexer : Lexer) : Pattern → List Char → EStateM.Result Diagnostic Lexer Kind
  | .blank, lexeme => (lexer.pass lexeme).advance
  | .comment, lexeme => (lexer.pass lexeme).advance
  | .word, lexeme => (lexer.mark.move lexeme).acceptWord lexer.position lexeme
  | .digits, lexeme => (lexer.mark.move lexeme).acceptDigits lexer.position lexeme
  | .quoted, lexeme => (lexer.mark.move lexeme).acceptQuoted lexer.position lexeme
  | .sign _ kind, lexeme => (lexer.mark.move lexeme).accept lexer.position kind lexeme

/-- **The class of what comes next decides.** -/
theorem advance_of_classify {pattern : Pattern} {lexeme : List Char}
    (h : Pattern.classify? lexer.cursor.unread = some (pattern, lexeme)) :
    lexer.advance = lexer.readAs pattern lexeme := by
  have hless := left_pass_lt h
  obtain ⟨count, hcount⟩ : ∃ k, lexer.cursor.left = k + 1 := ⟨lexer.cursor.left - 1, by omega⟩
  have hpassed : (lexer.pass lexeme).cursor.left ≤ count := by omega
  have hunread : lexer.cursor.unread ≠ [] := fun hnil => by
    simp [Cursor.left_eq_zero.mpr hnil] at hless
  obtain ⟨c, cs, hcons⟩ := List.exists_cons_of_ne_nil hunread
  rw [hcons] at h
  unfold advance
  rw [hcount, advanceWithin]
  simp only [cursor_mark, hcons, h]
  cases pattern with
  | blank | comment =>
    show advanceWithin count (lexer.mark.pass lexeme) = (lexer.pass lexeme).advance
    rw [← advanceWithin_mark, mark_pass, advanceWithin_mark]
    exact advanceWithin_eq _ _ _ hpassed (Nat.le_refl _)
  | word | digits | quoted | sign => rfl

theorem advance_of_nil (h : lexer.cursor.unread = []) : lexer.advance = lexer.mark.finish := by
  unfold advance
  rw [Cursor.left_eq_zero.mpr h]
  rfl

/-- What has no class is refused at its first character. -/
theorem advance_of_none {c : Char} {cs : List Char} (h : lexer.cursor.unread = c :: cs)
    (hnone : Pattern.classify? (c :: cs) = none) :
    lexer.advance = lexer.mark.refuse lexer.position .unrecognised [c] := by
  have hpos : lexer.cursor.left ≠ 0 := by simp [Cursor.left_eq_zero, h]
  obtain ⟨count, hcount⟩ : ∃ k, lexer.cursor.left = k + 1 := ⟨lexer.cursor.left - 1, by omega⟩
  unfold advance
  rw [hcount, advanceWithin]
  simp only [cursor_mark, h, hnone]
  rfl

section

variable {next : Lexer} {kind : Kind} {count : Nat}

/-- The tokens from a token on are that token and those behind it. -/
theorem tokensWithin_of_advance (hadvance : lexer.advance = .ok kind next) (hkind : kind ≠ .eof) :
    tokensWithin (count + 1) lexer = (tokensWithin count next).map (next.current :: ·) := by
  rw [tokensWithin, hadvance]
  cases kind with
  | eof => exact absurd rfl hkind
  | _ => rfl

/-- If there are tokens from a token on, there are tokens behind it. -/
theorem exists_tokensWithin (hadvance : lexer.advance = .ok kind next) (hkind : kind ≠ .eof)
    {tokens : List Token} (h : tokensWithin (count + 1) lexer = .ok tokens) :
    ∃ later, tokensWithin count next = .ok later := by
  rw [tokensWithin_of_advance hadvance hkind] at h
  cases hlater : tokensWithin count next with
  | ok later => exact ⟨later, rfl⟩
  | error fault =>
    rw [hlater] at h
    cases h

/-- What stops the tokens from a token on stops those behind it. -/
theorem tokensWithin_of_error (hadvance : lexer.advance = .ok kind next) (hkind : kind ≠ .eof)
    {fault : Diagnostic} (h : tokensWithin (count + 1) lexer = .error fault) :
    tokensWithin count next = .error fault := by
  rw [tokensWithin_of_advance hadvance hkind] at h
  cases hlater : tokensWithin count next with
  | ok later =>
    rw [hlater] at h
    cases h
  | error other =>
    rw [hlater] at h
    exact h

end

end Lexer

/-! ### Gaps -/

namespace Pattern

variable {c : Char} {cs body rest : List Char}

theorem classify?_of_blank (hc : isWhiteSpace c = true) :
    classify? (c :: cs) = some (.blank, c :: cs.takeWhile isWhiteSpace) := by
  simp [classify?, table, lexeme?, run?, hc]

/-- A run of white space is a blank. -/
theorem classify?_of_takeWhile {text : List Char} (h : text.takeWhile isWhiteSpace = c :: cs) :
    classify? text = some (.blank, c :: cs) := by
  cases text with
  | nil => simp at h
  | cons d text =>
    cases hd : isWhiteSpace d with
    | false => simp [hd] at h
    | true =>
      rw [classify?_of_blank hd]
      simpa [hd] using h

theorem takeWhile_ne_newline (hbody : '\n' ∉ body) (hend : ∀ c ∈ rest.head?, c = '\n') :
    (body ++ rest).takeWhile (· != '\n') = body := by
  have hinside : ∀ c ∈ body, (c != '\n') = true := fun c hc => by
    simpa using ne_of_mem_of_not_mem hc hbody
  rw [List.takeWhile_append_of_pos hinside]
  cases rest with
  | nil => simp
  | cons d rest => simp [hend d rfl]

theorem classify?_of_comment (hbody : '\n' ∉ body) (hend : ∀ c ∈ rest.head?, c = '\n') :
    classify? ('/' :: '/' :: (body ++ rest)) = some (.comment, '/' :: '/' :: body) := by
  have hslash : isWhiteSpace '/' = false := by decide
  simp [classify?, table, lexeme?, run?, hslash, takeWhile_ne_newline hbody hend]

end Pattern

namespace Lexer

variable {lexer : Lexer} {gap rest : List Char}

/-- **A gap can be passed beforehand.** By induction on the gap; what the lexer passes in one step
may be more than one piece of it. -/
theorem advance_pass (hgap : Trivia rest gap) :
    ∀ lexer : Lexer, lexer.cursor.unread = gap ++ rest →
      lexer.advance = (lexer.pass gap).advance := by
  induction hgap with
  | nil =>
    intro lexer _
    rw [pass_nil]
  | @blank c cs hc _ ih =>
    intro lexer hunread
    have hrest : (lexer.pass [c]).cursor.unread = cs ++ rest := by
      simp [hunread]
    have hlater := ih (lexer.pass [c]) hrest
    rw [pass_pass, List.singleton_append] at hlater
    rw [← hlater]
    have hclass : Pattern.classify? (c :: (cs ++ rest)) =
        some (.blank, c :: (cs ++ rest).takeWhile isWhiteSpace) := Pattern.classify?_of_blank hc
    rw [← List.cons_append, ← hunread] at hclass
    rw [advance_of_classify hclass]
    show (lexer.pass (c :: (cs ++ rest).takeWhile isWhiteSpace)).advance = _
    -- the lexer passes this blank together with those behind it, if there are any
    cases hblanks : (cs ++ rest).takeWhile isWhiteSpace with
    | nil => rfl
    | cons d blanks =>
      rw [← hrest] at hblanks
      have hrun := Pattern.classify?_of_takeWhile hblanks
      rw [@advance_of_classify (lexer.pass [c]) _ _ hrun]
      show _ = ((lexer.pass [c]).pass (d :: blanks)).advance
      rw [pass_pass, List.singleton_append]
  | @comment body cs hbody hend _ ih =>
    intro lexer hunread
    have htext : lexer.cursor.unread = '/' :: '/' :: (body ++ (cs ++ rest)) := by
      simp [hunread]
    have hclass := Pattern.classify?_of_comment hbody hend
    rw [← htext] at hclass
    rw [advance_of_classify hclass]
    show (lexer.pass ('/' :: '/' :: body)).advance = _
    have hrest : (lexer.pass ('/' :: '/' :: body)).cursor.unread = cs ++ rest := by
      simp [hunread]
    rw [ih _ hrest, pass_pass]

end Lexer

/-- What comes next is no blank and no comment. -/
def Solid (text : List Char) : Prop :=
  ∀ pattern lexeme, Pattern.classify? text = some (pattern, lexeme) →
    pattern ≠ .blank ∧ pattern ≠ .comment

/-- What begins with a blank is one. -/
theorem Solid.head_ne_blank {rest : List Char} (h : Solid rest) : ∀ c ∈ rest.head?, c ≠ ' ' := by
  intro c hc hblank
  subst hblank
  obtain ⟨cs, rfl⟩ := List.head?_eq_some_iff.mp hc
  have hwhite : isWhiteSpace ' ' = true := by decide
  exact (h _ _ (Pattern.classify?_of_blank hwhite)).1 rfl

/-- Every text has a gap before the rest of it. By induction on its length. -/
theorem exists_gap (text : List Char) :
    ∃ gap rest, text = gap ++ rest ∧ Trivia rest gap ∧ Solid rest := by
  induction hlength : text.length using Nat.strongRecOn generalizing text with
  | ind n ih =>
    by_cases hsolid : Solid text
    · exact ⟨[], text, rfl, .nil, hsolid⟩
    · obtain ⟨pattern, lexeme, hclass, hpattern⟩ : ∃ pattern lexeme,
          Pattern.classify? text = some (pattern, lexeme) ∧
            (pattern = .blank ∨ pattern = .comment) := by
        simp only [Solid, not_forall, not_and_or, not_not] at hsolid
        obtain ⟨pattern, lexeme, hclass, hpattern⟩ := hsolid
        exact ⟨pattern, lexeme, hclass, hpattern⟩
      obtain ⟨rest, rfl⟩ := Pattern.isPrefix_of_classify? hclass
      have hlexeme := List.length_pos_iff.mpr (Pattern.ne_nil_of_classify? hclass)
      obtain ⟨gap, rest, rfl, hgap, hrest⟩ := ih rest.length (by simp at hlength; omega) rest rfl
      refine ⟨lexeme ++ gap, rest, (List.append_assoc ..).symm, ?_, hrest⟩
      have hmatch := (Pattern.of_classify? hclass).2
      rcases hpattern with rfl | rfl
      · exact hgap.of_blank hmatch
      · exact hgap.of_comment hmatch rfl

end ScriptFront
