import ScriptFront.Token.Lexer

/-!
# ScriptFront.Token.Listing

The lexer **as a token stream**, and the list of all the tokens of a source. The bound on the
tokens to come is the number of bytes that are left, since every token takes at least one.
-/

namespace ScriptFront

namespace Lexer

/-- What holds of every step of the lexer: the kind given is that of the current token, a failure
leaves the current token alone, and no step but that to the end leaves as much to read as there
was. -/
def Proceeds (lexer : Lexer) : EStateM.Result Diagnostic Lexer Kind → Prop
  | .ok kind next =>
    next.current.kind = kind ∧ next.cursor.left ≤ lexer.cursor.left ∧
      (kind ≠ .eof → next.cursor.left < lexer.cursor.left)
  | .error _ next => next.current = lexer.current ∧ next.cursor.left ≤ lexer.cursor.left

@[simp] theorem cursor_mark (lexer : Lexer) : lexer.mark.cursor = lexer.cursor := rfl

@[simp] theorem current_pass (lexer : Lexer) (lexeme : List Char) :
    (lexer.pass lexeme).current = lexer.current := rfl

@[simp] theorem cursor_pass (lexer : Lexer) (lexeme : List Char) :
    (lexer.pass lexeme).cursor = lexer.cursor.skip lexeme.length := rfl

/-- A lexeme taken from the text leaves less to read. -/
theorem left_pass_lt {lexer : Lexer} {lexeme : List Char} {pattern : Pattern}
    (h : Pattern.classify? lexer.cursor.unread = some (pattern, lexeme)) :
    (lexer.pass lexeme).cursor.left < lexer.cursor.left := by
  have taken := Pattern.ne_nil_of_classify? h
  refine Cursor.left_skip_lt (by simpa using taken) ?_
  rintro empty
  have := Pattern.isPrefix_of_classify? h
  simp_all

theorem proceeds_accept {lexer next : Lexer} (start : Position) (kind : Kind)
    (lexeme : List Char) (h : next.cursor.left < lexer.cursor.left) :
    lexer.Proceeds (next.accept start kind lexeme) :=
  ⟨rfl, Nat.le_of_lt h, fun _ => h⟩

theorem proceeds_refuse {lexer next : Lexer} (position : Position) (cause : Cause)
    (lexeme : List Char) (same : next.current = lexer.current)
    (h : next.cursor.left ≤ lexer.cursor.left) :
    lexer.Proceeds (next.refuse position cause lexeme) :=
  ⟨same, h⟩

theorem proceeds_acceptWord {lexer next : Lexer} (start : Position) (lexeme : List Char)
    (h : next.cursor.left < lexer.cursor.left) :
    lexer.Proceeds (next.acceptWord start lexeme) := by
  simp only [acceptWord]
  split
  · exact proceeds_accept start _ lexeme h
  · exact proceeds_accept start _ lexeme h

theorem proceeds_acceptDigits {lexer next : Lexer} (start : Position) (lexeme : List Char)
    (same : next.current = lexer.current) (h : next.cursor.left < lexer.cursor.left) :
    lexer.Proceeds (next.acceptDigits start lexeme) := by
  simp only [acceptDigits]
  split
  · exact proceeds_accept start _ lexeme h
  · exact proceeds_refuse start _ lexeme same (Nat.le_of_lt h)

theorem Proceeds.of_later {lexer later : Lexer} {result : EStateM.Result Diagnostic Lexer Kind}
    (same : later.current = lexer.current) (h : later.cursor.left ≤ lexer.cursor.left) :
    later.Proceeds result → lexer.Proceeds result := by
  cases result with
  | ok kind next =>
    rintro ⟨of_kind, least, less⟩
    exact ⟨of_kind, Nat.le_trans least h, fun not_eof => Nat.lt_of_lt_of_le (less not_eof) h⟩
  | error fault next =>
    rintro ⟨kept, least⟩
    exact ⟨kept.trans same, Nat.le_trans least h⟩

theorem proceeds_advanceWithin (count : Nat) (lexer : Lexer) :
    lexer.Proceeds (advanceWithin count lexer) := by
  induction count generalizing lexer with
  | zero => exact ⟨rfl, Nat.le_refl _, fun not_eof => absurd rfl not_eof⟩
  | succ count ih =>
    simp only [advanceWithin]
    split
    · exact ⟨rfl, Nat.le_refl _, fun not_eof => absurd rfl not_eof⟩
    · next c cs unread =>
      have shorter {lexeme : List Char} {pattern : Pattern}
          (h : Pattern.classify? (c :: cs) = some (pattern, lexeme)) :
          (lexer.mark.move lexeme).cursor.left < lexer.cursor.left :=
        @left_pass_lt lexer.mark lexeme pattern (unread ▸ h)
      split
      · exact proceeds_refuse _ _ _ rfl (Nat.le_refl _)
      · next h => exact Proceeds.of_later (current_pass ..) (Nat.le_of_lt (shorter h)) (ih _)
      · next h => exact Proceeds.of_later (current_pass ..) (Nat.le_of_lt (shorter h)) (ih _)
      · next h => exact proceeds_acceptWord _ _ (shorter h)
      · next h => exact proceeds_acceptDigits _ _ rfl (shorter h)
      · next h => exact proceeds_accept _ _ _ (shorter h)
      · next h => exact proceeds_accept _ _ _ (shorter h)

theorem proceeds_advance (lexer : Lexer) : lexer.Proceeds lexer.advance :=
  proceeds_advanceWithin _ lexer

theorem proceeds_of_eq {lexer : Lexer} {result : EStateM.Result Diagnostic Lexer Kind}
    (h : lexer.advance = result) : lexer.Proceeds result :=
  h ▸ lexer.proceeds_advance

instance : TokenStream Lexer where
  advance := advance
  current := current
  intValue := intValue
  stringValue := stringValue
  ordinal := ordinal
  location := location
  remaining lexer := lexer.cursor.left

instance : LawfulTokenStream Lexer where
  kind_current h := (proceeds_of_eq h).1
  current_of_error h := (proceeds_of_eq h).1
  remaining_le h := (proceeds_of_eq h).2.1
  remaining_lt h := (proceeds_of_eq h).2.2

/-- The tokens up to the end, or the first fault, if no more than the given number stand before
the end. -/
def tokensWithin : Nat → Lexer → Except Diagnostic (List Token)
  | 0, lexer => .ok [Token.eof lexer.position]
  | count + 1, lexer =>
    match lexer.advance with
    | .error fault _ => .error fault
    | .ok .eof next => .ok [next.current]
    | .ok _ next => (tokensWithin count next).map (next.current :: ·)

/-- The tokens up to the end, which is the last of them, or the first fault. -/
def tokens (lexer : Lexer) : Except Diagnostic (List Token) :=
  tokensWithin lexer.cursor.left lexer

end Lexer

/-- All the tokens of a source, the end included, or its first fault. -/
def tokenize (source : String) (file : String) : Except Diagnostic (List Token) :=
  (Lexer.ofSource source file).tokens

end ScriptFront
