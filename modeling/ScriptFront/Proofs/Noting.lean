import ScriptFront.Proofs.Invariant
import ScriptFront.Proofs.Printed
import ScriptFront.Proofs.Recording

/-!
# ScriptFront.Proofs.Noting

**What a step of the lexer notes, told by the token that it returns.** The kind and the text of the
token say which values are noted and which name is met (`Lexer.noted_advance`); a step that fails
notes none (`Lexer.Unchanged`). So the tokens of a source say what its lexer knows at each of them.

* `Token.name?` is the name that a token brings.
* `Lexer.At` is a lexer that has come to a token of a list.
-/

namespace ScriptFront

/-- The name that a token brings, if it is an identifier. -/
def Token.name? (token : Token) : Option String :=
  if token.kind = .identifier then some token.text else none

namespace Lexer

variable {lexer next : Lexer} {kind : Kind} {fault : Diagnostic}

/-! ### One step -/

/-- What a step notes of the token that it returns. -/
structure Noted (lexer : Lexer) (kind : Kind) (next : Lexer) : Prop where
  kind_eq : next.current.kind = kind
  integer : kind = .number → next.intValue = Int64.ofNat (decimalValue next.current.text.toList)
  text : kind = .string → next.stringValue = String.ofList (unquoted next.current.text.toList)
  /-- A name is entered into the table, and nothing else is. -/
  identifiers : next.identifiers =
    next.current.name?.toList.foldl NameTable.enter lexer.identifiers
  /-- The ordinal of a name is the one that it has in the table. Without a name it stays. -/
  ordinal : next.current.name?.elim (next.ordinal = lexer.ordinal) fun name =>
    next.identifiers.find? name = some next.ordinal
  isName : ∀ name ∈ next.current.name?, ScriptFront.isName name = true

/-- What a step that fails leaves as it was, and what its fault says of it. -/
structure Unchanged (lexer : Lexer) (fault : Diagnostic) (next : Lexer) : Prop where
  identifiers : next.identifiers = lexer.identifiers
  ordinal : next.ordinal = lexer.ordinal
  location : fault.location.ordinal = lexer.ordinal

/-- Tokens of a kind that is always written the same way bring nothing. -/
theorem noted_of_isFixed (hkind : kind.isFixed = true) (hcurrent : next.current.kind = kind)
    (hidentifiers : next.identifiers = lexer.identifiers)
    (hordinal : next.ordinal = lexer.ordinal) : lexer.Noted kind next := by
  have hname : next.current.name? = none := by
    unfold Token.name?
    rw [hcurrent]
    exact if_neg fun heq => by simp [heq, Kind.isFixed] at hkind
  refine ⟨hcurrent, fun heq => ?_, fun heq => ?_, ?_, ?_, ?_⟩
  · simp [heq, Kind.isFixed] at hkind
  · simp [heq, Kind.isFixed] at hkind
  · rw [hname]
    exact hidentifiers
  · rw [hname]
    exact hordinal
  · simp [hname]

/-- What a pattern of words takes is a word. -/
theorem isWord_of_lexeme? {text lexeme : List Char} (h : Pattern.word.lexeme? text = some lexeme) :
    Pattern.isWord lexeme = true := by
  cases text with
  | nil => simp [Pattern.lexeme?] at h
  | cons c cs =>
    simp only [Pattern.lexeme?, Option.ite_none_right_eq_some, Option.some.injEq] at h
    obtain ⟨hc, rfl⟩ := h
    simp [Pattern.isWord, hc]

/-- A lexeme that stands where the lexer stands. -/
theorem noted_readAs {pattern : Pattern} {lexeme rest : List Char}
    (hclass : Pattern.classify? (lexeme ++ rest) = some (pattern, lexeme))
    (hblank : pattern ≠ .blank) (hcomment : pattern ≠ .comment) :
    Lands (fun kind next => lexer.Noted kind next) (fun fault next => lexer.Unchanged fault next)
      (lexer.readAs pattern lexeme) := by
  cases pattern with
  | blank => exact absurd rfl hblank
  | comment => exact absurd rfl hcomment
  | word =>
    show Lands _ _ (acceptWord _ _ _)
    unfold acceptWord
    split
    · next kind hreserved =>
      exact noted_of_isFixed (isFixed_of_ofReserved? hreserved) rfl rfl rfl
    · next hreserved =>
      have hword := isWord_of_lexeme? (Pattern.of_classify? hclass).2
      refine ⟨rfl, nofun, nofun, rfl, NameTable.find?_enter, fun name hname => ?_⟩
      · obtain rfl : String.ofList lexeme = name := by simpa [Token.name?] using hname
        exact isName_iff.mpr ⟨by rwa [String.toList_ofList], hreserved⟩
  | digits =>
    show Lands _ _ (acceptDigits _ _ _)
    unfold acceptDigits
    split
    · refine ⟨rfl, fun _ => ?_, nofun, rfl, rfl, nofun⟩
      show _ = Int64.ofNat (decimalValue (String.ofList lexeme).toList)
      rw [String.toList_ofList]
    · exact ⟨rfl, rfl, rfl⟩
  | quoted =>
    refine ⟨rfl, nofun, fun _ => ?_, rfl, rfl, nofun⟩
    show _ = String.ofList (unquoted (String.ofList lexeme).toList)
    rw [String.toList_ofList]
  | sign spelling kind => exact noted_of_isFixed (isFixed_of_sign hclass) rfl rfl rfl

/-- The end brings nothing. -/
theorem noted_finish (lexer : Lexer) :
    Lands (fun kind next => lexer.Noted kind next) (fun fault next => lexer.Unchanged fault next)
      lexer.mark.finish :=
  ⟨rfl, nofun, nofun, rfl, rfl, nofun⟩

/-- **What a step notes** is told by the token that it returns, and a step that fails notes
nothing. -/
theorem noted_advance (lexer : Lexer) :
    Lands (fun kind next => lexer.Noted kind next) (fun fault next => lexer.Unchanged fault next)
      lexer.advance := by
  obtain ⟨gap, rest, htext, hgap, hsolid⟩ := exists_gap lexer.cursor.unread
  have hunread := unread_pass htext
  rw [advance_pass hgap lexer htext]
  -- to pass the gap changes neither the table nor the ordinal
  suffices h : Lands (fun kind next => (lexer.pass gap).Noted kind next)
      (fun fault next => (lexer.pass gap).Unchanged fault next) (lexer.pass gap).advance from
    h.imp (fun _ _ hnoted => ⟨hnoted.kind_eq, hnoted.integer, hnoted.text, hnoted.identifiers,
      hnoted.ordinal, hnoted.isName⟩) fun _ _ hsame =>
      ⟨hsame.identifiers, hsame.ordinal, hsame.location⟩
  cases hclass : Pattern.classify? rest with
  | none =>
    cases rest with
    | nil =>
      rw [advance_of_nil hunread]
      exact noted_finish _
    | cons c cs =>
      rw [advance_of_none hunread hclass]
      exact ⟨rfl, rfl, rfl⟩
  | some found =>
    obtain ⟨pattern, lexeme⟩ := found
    obtain ⟨hblank, hcomment⟩ := hsolid pattern lexeme hclass
    obtain ⟨rest, rfl⟩ := Pattern.isPrefix_of_classify? hclass
    rw [advance_of_classify (hunread ▸ hclass)]
    exact noted_readAs hclass hblank hcomment

end Lexer

/-! ### The tokens of a source -/

/-- The names that some tokens bring, each of them once, in the order in which they first
appear. -/
def Token.names (tokens : List Token) : List String :=
  (tokens.filterMap Token.name?).eraseDups

theorem Token.filterMap_name?_append (tokens : List Token) (token : Token) :
    (tokens ++ [token]).filterMap name? = tokens.filterMap name? ++ token.name?.toList := by
  rw [List.filterMap_append]
  cases h : token.name? <;> simp [h]

theorem Token.names_append (tokens : List Token) (token : Token) :
    names (tokens ++ [token]) = token.name?.toList.foldl enter (names tokens) := by
  unfold names
  rw [filterMap_name?_append, ← foldl_enter_eq, ← foldl_enter_eq, List.foldl_append]

theorem Token.names_prefix {tokens more : List Token} (h : tokens <+: more) :
    names tokens <+: names more := by
  obtain ⟨rest, rfl⟩ := h
  unfold names
  rw [List.filterMap_append, List.eraseDups_append]
  exact List.prefix_append _ _

namespace Lexer

variable {tokens : List Token} {index : Nat} {lexer : Lexer}

/-- The lexer is about to read the token at an index of a list. -/
structure Before (tokens : List Token) (index : Nat) (lexer : Lexer) : Prop where
  ahead : lexer.tokens = .ok (tokens.drop index)
  numbers : lexer.identifiers.Numbers (Token.names (tokens.take index))

/-- The lexer has read the token at an index of a list, and has those behind it still to read. -/
structure At (tokens : List Token) (index : Nat) (lexer : Lexer) : Prop where
  current : tokens[index]? = some lexer.current
  integer : lexer.current.kind = .number →
    lexer.intValue = Int64.ofNat (decimalValue lexer.current.text.toList)
  text : lexer.current.kind = .string →
    lexer.stringValue = String.ofList (unquoted lexer.current.text.toList)
  ordinal : lexer.current.kind = .identifier →
    lexer.identifiers.find? lexer.current.text = some lexer.ordinal
  numbers : lexer.identifiers.Numbers (Token.names (tokens.take (index + 1)))
  ahead : lexer.current.kind ≠ .eof → lexer.tokens = .ok (tokens.drop (index + 1))
  ending : lexer.current.kind = .eof → lexer.cursor.unread = []

/-- A list of tokens begins with the token that the lexer reads next, and goes on with those that
it reads then. -/
theorem exists_of_tokens (h : lexer.tokens = .ok tokens) :
    ∃ next later, lexer.advance = .ok next.current.kind next ∧ tokens = next.current :: later ∧
      (next.current.kind ≠ .eof → next.tokens = .ok later) ∧
      (next.current.kind = .eof → next.cursor.unread = []) := by
  have hrecorded := recorded_record lexer
  have hlisting := hrecorded.tokensWithin_eq _ (Nat.le_refl _)
  generalize lexer.record = items at hrecorded hlisting
  unfold Lexer.tokens at h
  rw [h] at hlisting
  cases hrecorded with
  | @finish _ next item hadvance hshows =>
    rw [hshows.listing] at hlisting
    have hkind : next.current.kind = .eof := (proceeds_of_eq hadvance).1
    have hscanned := lexer.scanned_advance
    rw [hadvance] at hscanned
    refine ⟨next, [], hkind ▸ hadvance, Except.ok.inj hlisting, absurd hkind, fun _ => ?_⟩
    cases hscanned with
    | finish _ _ hnothing => exact hnothing
    | token _ _ _ hne => exact absurd rfl hne
  | @token _ next kind item items hadvance hkind hshows hrest =>
    obtain rfl : next.current.kind = kind := (proceeds_of_eq hadvance).1
    rw [hshows.listing, ← hrest.tokensWithin_eq _ (Nat.le_refl _)] at hlisting
    obtain ⟨later, hlater, rfl⟩ := exists_of_map_cons hlisting.symm
    exact ⟨next, later, hadvance, rfl, fun _ => hlater, fun heof => absurd heof hkind⟩
  | fault hadvance hitem =>
    rw [Item.listing_of_fault hitem] at hlisting
    cases hlisting

/-- **One step comes to the next token of the list.** -/
theorem Before.advance (h : lexer.Before tokens index) :
    ∃ next, lexer.advance = .ok next.current.kind next ∧ next.At tokens index := by
  obtain ⟨next, later, hadvance, hdrop, hahead, hending⟩ := exists_of_tokens h.ahead
  have hnoted := lexer.noted_advance
  rw [hadvance] at hnoted
  have hcurrent : tokens[index]? = some next.current := by
    rw [← List.head?_drop, hdrop]
    rfl
  have hlater : tokens.drop (index + 1) = later := by
    rw [← List.tail_drop, hdrop]
    rfl
  refine ⟨next, hadvance, hcurrent, hnoted.integer, hnoted.text, fun hkind => ?_, ?_,
    fun hkind => ?_, hending⟩
  · have hname : next.current.name? = some next.current.text := if_pos hkind
    have hordinal := hnoted.ordinal
    rwa [hname] at hordinal
  · rw [hnoted.identifiers, List.take_add_one, hcurrent, Option.toList_some, Token.names_append]
    exact h.numbers.foldl_enter _
  · rw [hlater]
    exact hahead hkind

/-- Behind a token that is not the end the lexer is about to read the next one. -/
theorem At.before (h : lexer.At tokens index) (hkind : lexer.current.kind ≠ .eof) :
    lexer.Before tokens (index + 1) :=
  ⟨h.ahead hkind, h.numbers⟩

theorem before_ofSource {source file : String} (h : tokenize source file = .ok tokens) :
    (ofSource source file).Before tokens 0 :=
  ⟨h, NameTable.numbers_empty⟩

end Lexer

end ScriptFront
