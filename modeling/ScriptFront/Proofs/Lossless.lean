import Mathlib.Algebra.Group.Nat.Defs
import Mathlib.Data.List.Chain
import ScriptFront.Proofs.Scanning

/-!
# ScriptFront.Proofs.Lossless

**Nothing of a source is lost in its tokens.** The tokens stand in the source one behind the other,
each at the bytes that its span tells and with the text that is there, and between them there is
nothing but white space and comments.

Inside, this is the shape of the text that is left when some tokens are still to be read
(`Layout`), which is found by induction on these; then it is told in bytes of the whole source.
-/

namespace ScriptFront

open Text (byteSize)

/-- A text that some tokens are read from, of which the first bytes have been passed. -/
inductive Layout (file : String) : Nat → List Char → List Token → Prop
  | finish {offset : Nat} {gap : List Char} (hgap : Trivia [] gap) :
      Layout file offset gap [Token.eof ⟨(offset + byteSize gap).toUInt32, file⟩]
  | token {offset : Nat} {gap lexeme rest : List Char} {kind : Kind} {tokens : List Token}
      (hgap : Trivia (lexeme ++ rest) gap) (hlexeme : lexeme ≠ []) (hkind : kind ≠ .eof)
      (hrest : Layout file (offset + byteSize (gap ++ lexeme)) rest tokens) :
      Layout file offset (gap ++ (lexeme ++ rest))
        (⟨kind, String.ofList lexeme, ⟨⟨(offset + byteSize gap).toUInt32, file⟩,
          ⟨(offset + byteSize (gap ++ lexeme)).toUInt32, file⟩⟩⟩ :: tokens)

/-- By induction on the number of tokens that may stand before the end. -/
theorem layout_tokensWithin (count : Nat) :
    ∀ (lexer : Lexer) (tokens : List Token), lexer.cursor.left ≤ count →
      Lexer.tokensWithin count lexer = .ok tokens →
        Layout lexer.file lexer.cursor.offset lexer.cursor.unread tokens := by
  induction count with
  | zero =>
    intro lexer tokens hleft h
    have hunread := Cursor.left_eq_zero.mp (Nat.le_zero.mp hleft)
    injection h with h
    rw [← h, hunread]
    exact .finish .nil
  | succ count ih =>
    intro lexer tokens hleft h
    have hscanned := lexer.scanned_advance
    unfold Lexer.tokensWithin at h
    cases hadvance : lexer.advance with
    | error fault next =>
      rw [hadvance] at h
      cases h
    | ok kind next =>
      rw [hadvance] at h hscanned
      have hless := (Lexer.proceeds_of_eq hadvance).2.2
      cases hscanned with
      | finish hgap hcurrent =>
        injection h with h
        rw [← h, hcurrent]
        exact .finish hgap
      | token htext hgap hlexeme hkind hcurrent hunread hoffset hfile =>
        have hmap : (Lexer.tokensWithin count next).map (next.current :: ·) = .ok tokens := by
          cases kind with
          | eof => exact absurd rfl hkind
          | _ => exact h
        cases hrest : Lexer.tokensWithin count next with
        | error fault =>
          rw [hrest] at hmap
          cases hmap
        | ok later =>
          rw [hrest] at hmap
          obtain rfl : next.current :: later = tokens := Except.ok.inj hmap
          have hlayout := ih next later (by have := hless hkind; omega) hrest
          rw [hfile, hoffset, hunread] at hlayout
          rw [htext, hcurrent]
          exact .token hgap hlexeme hkind hlayout

/-! ### In bytes of the whole source -/

/-- The byte that a token begins at. -/
def Token.startByte (token : Token) : Nat :=
  token.span.start.offset.toNat

/-- The byte behind a token. -/
def Token.stopByte (token : Token) : Nat :=
  token.span.stop.offset.toNat

/-- The bytes of a source from `start` to `stop` are those of `piece`, behind which `after` stands.
Both bounds lie between two characters. -/
def Occurs (source : String) (start stop : Nat) (piece after : String) : Prop :=
  ∃ before, source = before ++ piece ++ after ∧ before.utf8ByteSize = start ∧
    (before ++ piece).utf8ByteSize = stop

/-- The bytes of a source from `start` to `stop` are white space and comments. -/
def Blank (source : String) (start stop : Nat) : Prop :=
  ∃ gap after, Occurs source start stop gap after ∧ Trivia after.toList gap.toList

/-- What the tokens of a source tell about it from a byte on. -/
structure Lossless (source : String) (offset : Nat) (tokens : List Token) : Prop where
  /-- The end comes last and nowhere else, and its span is empty. -/
  ends : ∃ init last, tokens = init ++ [last] ∧ last.kind = .eof ∧
    last.startByte = source.utf8ByteSize ∧ last.stopByte = source.utf8ByteSize ∧
      ∀ token ∈ init, token.kind ≠ .eof
  /-- Every other token stands where its span says. -/
  occurs : ∀ token ∈ tokens, token.kind ≠ .eof → token.startByte < token.stopByte ∧
    ∃ after, Occurs source token.startByte token.stopByte token.text after
  /-- Before the first token there is nothing but white space and comments. -/
  first : ∀ token ∈ tokens.head?, offset ≤ token.startByte ∧ Blank source offset token.startByte
  /-- Between two tokens there is nothing else either. -/
  gaps : tokens.IsChain fun token next =>
    token.stopByte ≤ next.startByte ∧ Blank source token.stopByte next.startByte

theorem utf8ByteSize_ofList (cs : List Char) : (String.ofList cs).utf8ByteSize = byteSize cs := by
  induction cs with
  | nil => rfl
  | cons c cs ih =>
    rw [← List.singleton_append, String.ofList_append, String.utf8ByteSize_append, ih]
    exact congrArg (· + byteSize cs) String.utf8ByteSize_singleton

theorem utf8ByteSize_eq (source : String) : source.utf8ByteSize = byteSize source.toList := by
  rw [← utf8ByteSize_ofList, String.ofList_toList]

theorem toNat_toUInt32 {n : Nat} (h : n < 2 ^ 32) : n.toUInt32.toNat = n := by
  show (UInt32.ofNat n).toNat = n
  rw [UInt32.toNat_ofNat']
  exact Nat.mod_eq_of_lt h

/-- A piece of the text that is left, in bytes of the whole source. -/
theorem occurs_ofList (before : String) (skipped piece after : List Char) :
    Occurs (before ++ String.ofList (skipped ++ (piece ++ after)))
      (before.utf8ByteSize + byteSize skipped) (before.utf8ByteSize + byteSize (skipped ++ piece))
      (String.ofList piece) (String.ofList after) := by
  refine ⟨before ++ String.ofList skipped, ?_, ?_, ?_⟩
  · simp only [String.ofList_append, String.append_assoc]
  · rw [String.utf8ByteSize_append, utf8ByteSize_ofList]
  · rw [String.utf8ByteSize_append, String.utf8ByteSize_append, utf8ByteSize_ofList,
      utf8ByteSize_ofList, Text.byteSize_append, Nat.add_assoc]

theorem blank_ofList (before : String) {gap after : List Char} (hgap : Trivia after gap) :
    Blank (before ++ String.ofList (gap ++ after)) before.utf8ByteSize
      (before.utf8ByteSize + byteSize gap) := by
  refine ⟨String.ofList gap, String.ofList after, occurs_ofList before [] gap after, ?_⟩
  rw [String.toList_ofList, String.toList_ofList]
  exact hgap

/-- Only a gap is left. -/
theorem lossless_finish (before file : String) {gap : List Char} (hgap : Trivia [] gap)
    (hsize : (before ++ String.ofList gap).utf8ByteSize < 2 ^ 32) :
    Lossless (before ++ String.ofList gap) before.utf8ByteSize
      [Token.eof ⟨(before.utf8ByteSize + byteSize gap).toUInt32, file⟩] := by
  have htotal : (before ++ String.ofList gap).utf8ByteSize =
      before.utf8ByteSize + byteSize gap := by
    rw [String.utf8ByteSize_append, utf8ByteSize_ofList]
  rw [htotal] at hsize
  have hblank := blank_ofList before hgap
  rw [List.append_nil] at hblank
  have hbyte : (Token.eof ⟨(before.utf8ByteSize + byteSize gap).toUInt32, file⟩).startByte =
      before.utf8ByteSize + byteSize gap := toNat_toUInt32 hsize
  refine ⟨⟨[], _, rfl, rfl, ?_, ?_, fun _ hmem => absurd hmem List.not_mem_nil⟩, ?_, ?_,
    List.IsChain.singleton _⟩
  · rw [hbyte, htotal]
  · rw [htotal]
    exact toNat_toUInt32 hsize
  · intro token hmem hkind
    rw [List.mem_singleton.mp hmem] at hkind
    exact absurd rfl hkind
  · intro token hmem
    rw [← Option.some.inj hmem, hbyte]
    exact ⟨Nat.le_add_right _ _, hblank⟩

/-- A token stands before the others. -/
theorem Lossless.cons (before : String) {gap lexeme rest : List Char} {token : Token}
    {tokens : List Token} (hgap : Trivia (lexeme ++ rest) gap) (hlexeme : lexeme ≠ [])
    (hkind : token.kind ≠ .eof) (htext : token.text = String.ofList lexeme)
    (hstart : token.startByte = before.utf8ByteSize + byteSize gap)
    (hstop : token.stopByte = before.utf8ByteSize + byteSize (gap ++ lexeme))
    (h : Lossless (before ++ String.ofList (gap ++ (lexeme ++ rest))) token.stopByte tokens) :
    Lossless (before ++ String.ofList (gap ++ (lexeme ++ rest))) before.utf8ByteSize
      (token :: tokens) := by
  obtain ⟨init, last, rfl, hlast, hlastStart, hlastStop, hinit⟩ := h.ends
  refine ⟨⟨token :: init, last, rfl, hlast, hlastStart, hlastStop, ?_⟩, ?_, ?_,
    h.gaps.cons h.first⟩
  · intro other hmem
    rcases List.mem_cons.mp hmem with rfl | hmem
    · exact hkind
    · exact hinit other hmem
  · intro other hmem hother
    rcases List.mem_cons.mp hmem with rfl | hmem
    · have hpos := Text.byteSize_pos hlexeme
      refine ⟨?_, String.ofList rest, ?_⟩
      · rw [hstart, hstop, Text.byteSize_append]
        omega
      · rw [hstart, hstop, htext]
        exact occurs_ofList before gap lexeme rest
    · exact h.occurs other hmem hother
  · intro other hmem
    rw [← Option.some.inj hmem, hstart]
    exact ⟨Nat.le_add_right _ _, blank_ofList before hgap⟩

/-- By induction on the tokens, with what stands before them. -/
theorem Layout.lossless {file : String} {offset : Nat} {text : List Char} {tokens : List Token}
    (h : Layout file offset text tokens) :
    ∀ before : String, before.utf8ByteSize = offset →
      (before ++ String.ofList text).utf8ByteSize < 2 ^ 32 →
        Lossless (before ++ String.ofList text) offset tokens := by
  induction h with
  | @finish offset gap hgap =>
    intro before hbefore hsize
    rw [← hbefore]
    exact lossless_finish before file hgap hsize
  | @token offset gap lexeme rest kind tokens hgap hlexeme hkind hrest ih =>
    intro before hbefore hsize
    rw [← hbefore] at ih ⊢
    have htotal : (before ++ String.ofList (gap ++ (lexeme ++ rest))).utf8ByteSize =
        before.utf8ByteSize + byteSize (gap ++ lexeme) + byteSize rest := by
      rw [String.utf8ByteSize_append, utf8ByteSize_ofList, ← List.append_assoc,
        Text.byteSize_append, Nat.add_assoc]
    have hlength := Text.byteSize_append gap lexeme
    have hstop : (before.utf8ByteSize + byteSize (gap ++ lexeme)).toUInt32.toNat =
        before.utf8ByteSize + byteSize (gap ++ lexeme) := toNat_toUInt32 (by omega)
    have hstart : (before.utf8ByteSize + byteSize gap).toUInt32.toNat =
        before.utf8ByteSize + byteSize gap := toNat_toUInt32 (by omega)
    have hsplit : before ++ String.ofList (gap ++ (lexeme ++ rest)) =
        before ++ String.ofList (gap ++ lexeme) ++ String.ofList rest := by
      rw [← List.append_assoc, String.ofList_append, String.append_assoc]
    refine Lossless.cons before hgap hlexeme hkind rfl hstart hstop ?_
    -- the token and its gap join what stands before the others
    have hlater := ih (before ++ String.ofList (gap ++ lexeme))
      (by rw [String.utf8ByteSize_append, utf8ByteSize_ofList]) (by rw [← hsplit]; exact hsize)
    rw [← hsplit] at hlater
    show Lossless _ (before.utf8ByteSize + byteSize (gap ++ lexeme)).toUInt32.toNat tokens
    rw [hstop]
    exact hlater

/-- **Tokenizing loses nothing**, as long as bytes can be counted. -/
theorem tokenize_lossless {source file : String} (hsize : source.utf8ByteSize < 2 ^ 32 - 1)
    {tokens : List Token} (h : tokenize source file = .ok tokens) : Lossless source 0 tokens := by
  have hlayout := layout_tokensWithin _ _ tokens (Nat.le_refl _) h
  have hlossless := hlayout.lossless "" rfl
  have hsource : "" ++ String.ofList (Lexer.ofSource source file).cursor.unread = source := by
    show "" ++ String.ofList source.toList = source
    rw [String.ofList_toList, String.empty_append]
  rw [hsource] at hlossless
  exact hlossless (by omega)

/-- Nothing of a print statement with a comment behind it is lost. -/
theorem printing_lossless :
    ∃ tokens, tokenize "print(1); // one" "shell" = .ok tokens ∧
      Lossless "print(1); // one" 0 tokens :=
  ⟨_, rfl, tokenize_lossless (by decide) rfl⟩

end ScriptFront
