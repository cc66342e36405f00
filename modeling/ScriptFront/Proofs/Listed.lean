import ScriptFront.Proofs.Cutting

/-!
# ScriptFront.Proofs.Listed

**The tokens of a text that is cut.** They are one for each lexeme, with the kind and the text of
that lexeme, and behind them the end (`Cut.exists_tokenize`).
-/

namespace ScriptFront

/-- What a token is and how it is written, wherever it stands. -/
def Token.reading (token : Token) : Kind × String :=
  (token.kind, token.text)

namespace Lexeme

/-- What is made of a lexeme, wherever it stands. -/
def reading (lexeme : Lexeme) : Kind × String :=
  (lexeme.kind, String.ofList lexeme.2)

end Lexeme

namespace Lexer

variable {lexer next : Lexer} {gap rest : List Char} {lexeme : Lexeme} {kind : Kind}

/-- A lexeme becomes the current token. -/
theorem current_of_readAs (h : lexer.readAs lexeme.1 lexeme.2 = .ok kind next)
    (hblank : lexeme.1 ≠ .blank) (hcomment : lexeme.1 ≠ .comment) :
    next.current = ⟨kind, String.ofList lexeme.2, ⟨lexer.position, next.position⟩⟩ := by
  obtain ⟨pattern, text⟩ := lexeme
  cases pattern with
  | blank => exact absurd rfl hblank
  | comment => exact absurd rfl hcomment
  | word =>
    replace h : acceptWord _ _ _ = _ := h
    unfold acceptWord at h
    split at h <;> cases h <;> rfl
  | digits =>
    replace h : acceptDigits _ _ _ = _ := h
    unfold acceptDigits at h
    split at h <;> cases h
    rfl
  | quoted | sign => cases h; rfl

/-- A lexeme that is not too large becomes a token of its kind, with its text. -/
theorem exists_token (htext : lexer.cursor.unread = gap ++ (lexeme.2 ++ rest))
    (hgap : Trivia (lexeme.2 ++ rest) gap)
    (hclass : Pattern.classify? (lexeme.2 ++ rest) = some lexeme) (hblank : lexeme.1 ≠ .blank)
    (hcomment : lexeme.1 ≠ .comment) (hreadable : lexeme.Readable) :
    ∃ next, lexer.advance = .ok lexeme.kind next ∧ lexeme.kind ≠ .eof ∧
      next.cursor.unread = rest ∧ next.current.reading = lexeme.reading := by
  obtain ⟨next, hadvance, hunread, hview⟩ :=
    exists_advance htext hgap hclass hblank hcomment hreadable
  refine ⟨next, hadvance, hview.before_end, hunread, ?_⟩
  rw [advance_pass hgap lexer htext,
    advance_of_classify (by rw [unread_pass htext]; exact hclass)] at hadvance
  rw [Token.reading, current_of_readAs hadvance hblank hcomment]
  rfl

/-- Where only a gap is left, the end is the only token. -/
theorem tokensWithin_of_gap (hgap : Trivia [] lexer.cursor.unread) (count : Nat) :
    ∃ last, tokensWithin count lexer = .ok [last] ∧ last.reading = (.eof, Kind.eof.name) := by
  cases count with
  | zero => exact ⟨_, rfl, rfl⟩
  | succ count =>
    have htext : lexer.cursor.unread = lexer.cursor.unread ++ [] := (List.append_nil _).symm
    rw [tokensWithin, advance_pass hgap lexer htext, advance_of_nil (unread_pass htext)]
    exact ⟨_, rfl, rfl⟩

end Lexer

namespace Cut

variable {text : List Char} {lexemes : List Lexeme}

/-- The readings of the tokens of some lexemes, that of the end included. -/
def readings (lexemes : List Lexeme) : List (Kind × String) :=
  lexemes.map Lexeme.reading ++ [(.eof, Kind.eof.name)]

/-- By induction on the lexemes. -/
theorem exists_tokensWithin (hcut : Cut text lexemes)
    (hreadable : ∀ lexeme ∈ lexemes, lexeme.Readable) :
    ∀ (count : Nat) (lexer : Lexer), lexer.cursor.unread = text → lexer.cursor.left ≤ count →
      ∃ tokens, Lexer.tokensWithin count lexer = .ok tokens ∧
        tokens.map Token.reading = readings lexemes := by
  induction hcut with
  | finish hgap =>
    intro count lexer htext _
    obtain ⟨last, htokens, hlast⟩ := Lexer.tokensWithin_of_gap (htext ▸ hgap) count
    exact ⟨[last], htokens, congrArg (fun reading => [reading]) hlast⟩
  | @lexeme gap rest lexeme lexemes hgap hclass hblank hcomment _ ih =>
    intro count lexer htext hleft
    obtain ⟨hfirst, hlater⟩ := List.forall_mem_cons.mp hreadable
    obtain ⟨next, hadvance, hkind, hunread, hreading⟩ :=
      Lexer.exists_token htext hgap hclass hblank hcomment hfirst
    have hless := (Lexer.proceeds_of_eq hadvance).2.2 hkind
    obtain ⟨count, rfl⟩ : ∃ k, count = k + 1 := ⟨count - 1, by omega⟩
    obtain ⟨tokens, htokens, hreadings⟩ := ih hlater count next hunread (by omega)
    refine ⟨next.current :: tokens, ?_, ?_⟩
    · rw [Lexer.tokensWithin_of_advance hadvance hkind, htokens]
      rfl
    · rw [List.map_cons, hreading, hreadings]
      rfl

/-- **A text that is cut has a list of tokens**, which are those of its lexemes. -/
theorem exists_tokenize {source : String} (hcut : Cut source.toList lexemes)
    (hreadable : ∀ lexeme ∈ lexemes, lexeme.Readable) (file : String) :
    ∃ tokens, tokenize source file = .ok tokens ∧
      tokens.map Token.reading = readings lexemes :=
  hcut.exists_tokensWithin hreadable _ (Lexer.ofSource source file) rfl (Nat.le_refl _)

end Cut

end ScriptFront
