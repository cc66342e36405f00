import Mathlib.Data.Nat.Digits.Defs
import ScriptFront.Proofs.Decoding
import ScriptFront.Proofs.LongestMatch
import ScriptFront.Proofs.Resuming

/-!
# ScriptFront.Proofs.Literals

**The values of literals are exact over whole sessions.** Whatever is asked of a lexer, and whatever
faults there are on the way, it holds the value of the number that it has returned last and the
contents of the string that it has returned last (`Lexer.HoldsLast`). A run of digits that it comes
to is read as a whole, and is a number exactly if a signed word of 64 bits has room for its value
(`literals_exact`).

* `numeral` is the value of digits by their places.
* `Lexer.ComesTo` is a run of digits that a lexer comes to, with no digit on either side of it.
-/

namespace ScriptFront

open Text (byteSize)

/-! ### The value of digits -/

/-- The number that decimal digits are written for, the last of them being that of the ones. -/
def numeral (digits : List Char) : Nat :=
  Nat.ofDigits 10 (digits.reverse.map fun digit => digit.toNat - '0'.toNat)

theorem decimalValue_eq_numeral (digits : List Char) : decimalValue digits = numeral digits := by
  unfold decimalValue numeral
  rw [Nat.ofDigits_eq_foldr, List.foldr_map, List.foldr_reverse]
  simp only [Nat.cast_id, Nat.add_comm]

/-- A value that fits is not changed by being put into a word. -/
theorem toInt_ofNat_decimalValue {digits : List Char} (h : decimalValue digits ≤ 2 ^ 63 - 1) :
    (Int64.ofNat (decimalValue digits)).toInt = numeral digits := by
  rw [Int64.toInt_ofNat_of_lt (by omega), decimalValue_eq_numeral]

/-! ### The literals returned last -/

/-- The text of the token of a kind that comes last among some tokens. -/
def Token.lastText? (kind : Kind) (tokens : List Token) : Option String :=
  (tokens.filter fun token => token.kind = kind).getLast?.map Token.text

theorem Token.lastText?_append (kind : Kind) (tokens : List Token) (token : Token) :
    lastText? kind (tokens ++ [token]) =
      if token.kind = kind then some token.text else lastText? kind tokens := by
  unfold lastText?
  rw [List.filter_append]
  split
  · next hkind => simp [hkind]
  · next hkind => simp [hkind]

namespace Lexer

variable {lexer next : Lexer} {kind : Kind} {tokens : List Token}

/-- What a lexer holds of the literals, when some tokens have been returned. -/
structure HoldsLast (lexer : Lexer) (tokens : List Token) : Prop where
  /-- The integer is the value of the digits of the number returned last, or zero. -/
  integer : lexer.intValue.toInt =
    (Token.lastText? .number tokens).elim 0 fun text => (numeral text.toList : Int)
  digits : ∀ text ∈ Token.lastText? .number tokens,
    text ≠ "" ∧ (∀ c ∈ text.toList, c.isDigit = true) ∧ numeral text.toList ≤ 2 ^ 63 - 1
  /-- The contents are those of the string returned last, which has no quotes but those around
  them, or empty. -/
  contents : (Token.lastText? .string tokens).elim (lexer.stringValue = "") fun text =>
    text.toList = '"' :: (lexer.stringValue.toList ++ ['"']) ∧ '"' ∉ lexer.stringValue.toList

/-! ### One step -/

/-- What a step that returns a token makes of the values of literals. -/
structure Updates (lexer next : Lexer) : Prop where
  legal : next.current.kind ≠ .eof → Legal next.current.kind next.current.text
  intValue : next.intValue =
    if next.current.kind = .number then Int64.ofNat (decimalValue next.current.text.toList)
    else lexer.intValue
  stringValue : next.stringValue =
    if next.current.kind = .string then String.ofList (unquoted next.current.text.toList)
    else lexer.stringValue

/-- Only a number changes the integer, and only a string the contents. -/
theorem values_of_readAs {pattern : Pattern} {lexeme : List Char}
    (h : lexer.readAs pattern lexeme = .ok kind next) (hblank : pattern ≠ .blank)
    (hcomment : pattern ≠ .comment) :
    (kind ≠ .number → next.intValue = lexer.intValue) ∧
      (kind ≠ .string → next.stringValue = lexer.stringValue) := by
  cases pattern with
  | blank => exact absurd rfl hblank
  | comment => exact absurd rfl hcomment
  | word =>
    replace h : acceptWord _ _ _ = _ := h
    unfold acceptWord at h
    split at h <;> cases h <;> exact ⟨fun _ => rfl, fun _ => rfl⟩
  | digits =>
    replace h : acceptDigits _ _ _ = _ := h
    unfold acceptDigits at h
    split at h <;> cases h
    exact ⟨fun hne => absurd rfl hne, fun _ => rfl⟩
  | quoted =>
    cases h
    exact ⟨fun _ => rfl, fun hne => absurd rfl hne⟩
  | sign =>
    cases h
    exact ⟨fun _ => rfl, fun _ => rfl⟩

theorem updates_of_advance (h : lexer.advance = .ok kind next) : lexer.Updates next := by
  have houtcome := lexer.outcome_advance
  have hnoted := lexer.noted_advance
  rw [h] at houtcome hnoted
  obtain ⟨hkind, hinteger, htext, -⟩ := hnoted
  cases houtcome with
  | finish => exact ⟨fun hne => absurd rfl hne, rfl, rfl⟩
  | @token gap rest lexeme _ hunread hgap hclass hblank hcomment hreadable hreads =>
    have hread : (lexer.pass gap).readAs lexeme.1 lexeme.2 = .ok lexeme.kind next := by
      rw [← h, advance_pass hgap lexer hunread,
        advance_of_classify (by rw [unread_pass hunread]; exact hclass)]
    obtain ⟨hint, hstring⟩ := values_of_readAs hread hblank hcomment
    rw [← hkind] at hinteger htext hint hstring
    refine ⟨fun _ => ?_, ?_, ?_⟩
    · rw [hreads.current]
      exact Lexeme.legal hclass hblank hcomment hreadable
    · split
      · next hkind => exact hinteger hkind
      · next hkind => exact hint hkind
    · split
      · next hkind => exact htext hkind
      · next hkind => exact hstring hkind

/-- A token that is returned takes the place of the literal of its kind. -/
theorem HoldsLast.of_updates (h : lexer.HoldsLast tokens) (hnext : lexer.Updates next) :
    next.HoldsLast (tokens ++ [next.current]) := by
  obtain ⟨hlegal, hinteger, hcontents⟩ := hnext
  generalize next.current = token at hlegal hinteger hcontents ⊢
  refine ⟨?_, ?_, ?_⟩
  all_goals rw [Token.lastText?_append]
  · rw [hinteger]
    split
    · next hkind =>
      rw [hkind] at hlegal
      cases hlegal nofun with
      | fixed htext => cases htext
      | number _ _ hvalue => exact toInt_ofNat_decimalValue hvalue
    · exact h.integer
  · split
    · next hkind =>
      rw [hkind] at hlegal
      cases hlegal nofun with
      | fixed htext => cases htext
      | number hne hdigits hvalue =>
        rintro text ⟨⟩
        exact ⟨hne, hdigits, decimalValue_eq_numeral _ ▸ hvalue⟩
    · exact h.digits
  · rw [hcontents]
    split
    · next hkind =>
      rw [hkind] at hlegal
      generalize htoken : token.text = text at hlegal
      cases hlegal nofun with
      | fixed htext => cases htext
      | string hbody => simpa [unquoted] using hbody
    · exact h.contents

/-- **Every step keeps it**, and a step that fails changes nothing. -/
theorem logging_holdsLast : Logging HoldsLast fun _ _ => True where
  advance {lexer tokens} h := by
    show Lands _ _ lexer.advance
    cases hadvance : lexer.advance with
    | ok kind next => exact h.of_updates (updates_of_advance hadvance)
    | error fault next =>
      have hsame := undisturbed_of_error hadvance
      refine ⟨⟨?_, h.digits, ?_⟩, trivial⟩
      · rw [hsame.intValue]
        exact h.integer
      · rw [hsame.stringValue]
        exact h.contents
  unexpected _ := trivial

theorem holdsLast_ofSource (source file : String) : (ofSource source file).HoldsLast [] :=
  ⟨rfl, nofun, rfl⟩

end Lexer

/-! ### Sessions -/

section

variable {Inv : Lexer → List Token → Prop} {Stop : Diagnostic → Lexer → Prop}

theorem Logging.step (h : Logging Inv Stop) {lexer : Lexer} {tokens : List Token}
    (hinv : Inv lexer tokens) (action : LexerAction) :
    Inv (stateAfter (action.step lexer)) (tokens ++ action.returned lexer) := by
  have hlands := h.lands_step hinv action
  cases hstep : action.step lexer with
  | ok answer next =>
    rw [hstep] at hlands
    exact hlands
  | error fault next =>
    rw [hstep] at hlands
    exact hlands.1

/-- **What every token keeps, a session keeps** with the tokens that it returns. By induction on the
steps. -/
theorem Logging.after (h : Logging Inv Stop) (actions : List LexerAction) :
    ∀ {lexer : Lexer} {tokens : List Token}, Inv lexer tokens →
      Inv (lexer.after actions) (tokens ++ lexer.returned actions) := by
  induction actions with
  | nil =>
    intro lexer tokens hinv
    rw [Lexer.returned, List.append_nil]
    exact hinv
  | cons action actions ih =>
    intro lexer tokens hinv
    rw [Lexer.returned, ← List.append_assoc]
    exact ih (h.step hinv action)

end

/-! ### Where runs of digits end -/

/-- No run of digits goes on from some characters into those behind them. -/
def Seam (before after : List Char) : Prop :=
  ∀ c ∈ before.getLast?, ∀ d ∈ after.head?, d.isDigit = true → c.isDigit = false

section

variable {before gap after rest : List Char} {lexeme : Lexeme}

theorem Seam.append (h : Seam gap after) (hne : gap ≠ []) (before : List Char) :
    Seam (before ++ gap) after := by
  unfold Seam
  rwa [List.getLast?_append_of_ne_nil _ hne]

/-- A gap that ends before a digit ends with a blank. By induction on the gap. -/
theorem Trivia.seam (h : Trivia after gap) : Seam gap after := by
  induction h with
  | nil => exact nofun
  | @blank b cs hb hrest ih =>
    cases cs with
    | nil =>
      rintro c ⟨⟩ d hd hdigit
      exact Bool.eq_false_iff.mpr fun hc => Pattern.not_isWhiteSpace_of_isDigit hc hb
    | cons e cs => exact ih.append (List.cons_ne_nil e cs) [b]
  | @comment body cs hbody hend hrest ih =>
    cases cs with
    | nil =>
      -- a comment goes on up to a line end
      intro c hc d hd hdigit
      obtain rfl := hend d hd
      exact absurd hdigit (by decide)
    | cons e cs => exact ih.append (List.cons_ne_nil e cs) _

theorem isDigit_of_signs : ∀ entry ∈ Pattern.signs, ∀ c ∈ entry.1.getLast?, c.isDigit = false := by
  have hall : ∀ entry ∈ Pattern.signs, entry.1.getLast?.any Char.isDigit = false := by decide
  intro entry hentry c hc
  have hlast := hall entry hentry
  rwa [Option.mem_def.mp hc] at hlast

/-- A lexeme takes all the digits that it could go on with. -/
theorem seam_of_classify? (hclass : Pattern.classify? (lexeme.2 ++ rest) = some lexeme)
    (hblank : lexeme.1 ≠ .blank) (hcomment : lexeme.1 ≠ .comment) : Seam lexeme.2 rest := by
  obtain ⟨pattern, text⟩ := lexeme
  obtain ⟨hlisted, hmatch⟩ := Pattern.of_classify? hclass
  have htakes := Pattern.lexeme?_eq_some_iff.mp hmatch
  intro c hc d hd hdigit
  obtain ⟨later, rfl⟩ := List.head?_eq_some_iff.mp hd
  -- one digit more would not make another lexeme of the same class
  have hmaximal : ¬ pattern.Admits (text ++ [d]) := fun hlonger => by
    have hlength := htakes.longest _ ⟨later, List.append_assoc ..⟩ hlonger
    rw [List.length_append] at hlength
    simp at hlength
  have hadmits := htakes.admits
  cases pattern with
  | blank => exact absurd rfl hblank
  | comment => exact absurd rfl hcomment
  | word =>
    refine absurd ?_ hmaximal
    cases text with
    | nil => cases hc
    | cons e text =>
      obtain ⟨he, htext⟩ := Bool.and_eq_true_iff.mp hadmits
      simp [Pattern.Admits, Pattern.isWord, he, htext, isWordPart, hdigit]
  | digits =>
    refine absurd ⟨by simp, fun e he => ?_⟩ hmaximal
    rcases List.mem_append.mp he with he | he
    · exact hadmits.2 e he
    · rwa [List.mem_singleton.mp he]
  | quoted =>
    obtain ⟨body, rfl, -⟩ := hadmits
    rw [← List.cons_append, List.getLast?_concat] at hc
    obtain rfl := Option.some.inj hc
    decide
  | sign spelling kind =>
    obtain rfl : text = spelling := hadmits
    exact isDigit_of_signs _ (Pattern.sign_mem_table.mp hlisted) c hc

end

namespace Lexer

variable {lexer next : Lexer} {source file : String} {before gap digits rest text : List Char}

/-- A lexer stands in its source where no run of digits goes on. -/
structure StandsApart (source file : String) (before : List Char) (lexer : Lexer) : Prop where
  stands : lexer.Stands source.toList file before
  seam : Seam before lexer.cursor.unread

/-- Behind a lexeme of a class. -/
theorem Stands.apart {lexeme : Lexeme} (h : lexer.Stands source.toList file (before ++ lexeme.2))
    (hunread : lexer.cursor.unread = rest)
    (hclass : Pattern.classify? (lexeme.2 ++ rest) = some lexeme) (hblank : lexeme.1 ≠ .blank)
    (hcomment : lexeme.1 ≠ .comment) : ∃ before, lexer.StandsApart source file before := by
  have hseam := seam_of_classify? hclass hblank hcomment
  exact ⟨_, h, hunread ▸ hseam.append (Pattern.ne_nil_of_classify? hclass) before⟩

theorem StandsApart.advance (h : lexer.StandsApart source file before) :
    ∃ later, (stateAfter lexer.advance).StandsApart source file later := by
  have houtcome := lexer.outcome_advance
  generalize lexer.advance = result at houtcome
  cases houtcome with
  | @finish gap htext hgap =>
    have htext' := htext.trans (List.append_nil gap).symm
    refine ⟨_, (h.stands.pass htext').mark.congr rfl rfl rfl rfl, fun c _ d hd => ?_⟩
    replace hd : d ∈ (lexer.pass gap).cursor.unread.head? := hd
    rw [unread_pass htext'] at hd
    cases hd
  | @stray gap cs c htext hgap hclass =>
    refine ⟨_, (h.stands.pass htext).mark, fun e _ d hd hdigit => ?_⟩
    replace hd : d ∈ (lexer.pass gap).cursor.unread.head? := hd
    rw [unread_pass htext] at hd
    obtain rfl := Option.some.inj hd
    exact absurd (.inr (.inr (.inl hdigit))) (Pattern.classify?_eq_none_iff.mp hclass)
  | @tooLarge gap digits rest htext hgap hclass =>
    have hstands := (h.stands.pass htext).mark.pass (unread_pass htext)
    exact @Stands.apart _ _ _ _ _ (.digits, digits) hstands (unread_pass (unread_pass htext)) hclass
      nofun nofun
  | @token gap rest lexeme next htext hgap hclass hblank hcomment _ hreads =>
    have hstands := (h.stands.pass htext).of_reads (unread_pass htext) hreads
    refine hstands.apart ?_ hclass hblank hcomment
    rw [hreads.cursor]
    exact unread_pass (unread_pass htext)

/-- **Whatever has been asked of a lexer, no run of digits goes on where it stands.** -/
theorem standsApart_after (source file : String) (actions : List LexerAction) :
    ∃ before, ((ofSource source file).after actions).StandsApart source file before := by
  refine @after_keeps (fun lexer => ∃ before, lexer.StandsApart source file before) ?_ actions _
    ⟨[], stands_ofSource source file, nofun⟩
  intro lexer happart
  obtain ⟨before, h⟩ := happart
  exact h.advance

/-! ### Runs of digits -/

/-- A lexer comes to a run of digits, with nothing but a gap before it. There is no digit on either
side of the run. -/
structure ComesTo (source : String) (lexer : Lexer) (before digits after : List Char) :
    Prop where
  source_eq : source.toList = before ++ (digits ++ after)
  reached : ∃ passed gap, before = passed ++ gap ∧
    lexer.cursor.unread = gap ++ (digits ++ after) ∧ Trivia (digits ++ after) gap
  ne_nil : digits ≠ []
  isDigit : ∀ c ∈ digits, c.isDigit = true
  maximal_left : ∀ c ∈ before.getLast?, c.isDigit = false
  maximal_right : ∀ c ∈ after.head?, c.isDigit = false

/-- What stands behind a number of bytes of a source. -/
def placeBehind (file : String) (before : List Char) : Position :=
  ⟨(byteSize before).toUInt32, file⟩

/-- A run of digits becomes a number. -/
def numberToken (file : String) (before digits : List Char) : Token :=
  ⟨.number, String.ofList digits, ⟨placeBehind file before, placeBehind file (before ++ digits)⟩⟩

/-- A run of digits is refused, where the name read last has an ordinal. -/
def numberFault (file : String) (before digits : List Char) (ordinal : UInt32) : Diagnostic :=
  ⟨.tooLarge, String.ofList digits, placeBehind file before, ⟨lineBehind before, ordinal⟩⟩

theorem Stands.position_eq (h : lexer.Stands source.toList file before) :
    lexer.position = placeBehind file before := by
  unfold position placeBehind
  rw [h.offset_eq, h.file_eq]

theorem StandsApart.comesTo (h : lexer.StandsApart source file before)
    (htext : lexer.cursor.unread = gap ++ (digits ++ rest)) (hgap : Trivia (digits ++ rest) gap)
    (hclass : Pattern.classify? (digits ++ rest) = some (.digits, digits)) :
    ComesTo source lexer (before ++ gap) digits rest := by
  obtain ⟨hdigits, hstop⟩ := digits_of_classify? hclass
  have hne : digits ≠ [] := Pattern.ne_nil_of_classify? hclass
  obtain ⟨d, ds, hcons⟩ := List.exists_cons_of_ne_nil hne
  have hd : d.isDigit = true := hdigits d (by rw [hcons]; exact List.mem_cons_self)
  refine ⟨?_, ⟨before, gap, rfl, htext, hgap⟩, hne, hdigits, fun c hc => ?_, hstop⟩
  · rw [h.stands.source_eq, htext, List.append_assoc]
  · -- the digit before the run would stand at the end of the gap, or before it
    have hseam := h.seam
    have hgapSeam := hgap.seam
    rw [htext, hcons] at hseam
    rw [hcons] at hgapSeam
    cases gap with
    | nil =>
      rw [List.append_nil] at hc
      exact hseam c hc d rfl hd
    | cons e gap =>
      rw [List.getLast?_append_of_ne_nil _ (List.cons_ne_nil e gap)] at hc
      exact hgapSeam c hc d rfl hd

/-- What a lexer comes to is what stands ahead of it. -/
theorem ComesTo.exists_ahead {after : List Char} {passed : List Char}
    (hrun : ComesTo source lexer before digits after)
    (hstands : lexer.Stands source.toList file passed) :
    ∃ gap, before = passed ++ gap ∧ lexer.cursor.unread = gap ++ (digits ++ after) ∧
      Trivia (digits ++ after) gap ∧
      Pattern.classify? (digits ++ after) = some (.digits, digits) := by
  obtain ⟨passed', gap, rfl, htext, hgap⟩ := hrun.reached
  have hpassed : passed' = passed := by
    have hsource := hstands.source_eq
    rw [hrun.source_eq, htext, List.append_assoc] at hsource
    exact List.append_cancel_right hsource
  refine ⟨gap, hpassed ▸ rfl, htext, hgap, ?_⟩
  obtain ⟨d, ds, rfl⟩ := List.exists_cons_of_ne_nil hrun.ne_nil
  obtain ⟨hd, hds⟩ := List.forall_mem_cons.mp hrun.isDigit
  refine Pattern.classify?_of_digits hd hds ?_
  cases after with
  | nil => decide
  | cons c after => exact hrun.maximal_right c rfl

theorem kind_eq_number {lexeme : Lexeme}
    (hclass : Pattern.classify? (lexeme.2 ++ rest) = some lexeme) (h : lexeme.kind = .number) :
    lexeme.1 = .digits := by
  obtain ⟨pattern, text⟩ := lexeme
  cases pattern with
  | digits => rfl
  | word =>
    replace h : (Kind.ofReserved? (String.ofList text)).getD .identifier = .number := h
    cases hreserved : Kind.ofReserved? (String.ofList text) with
    | none =>
      rw [hreserved] at h
      cases h
    | some kind =>
      have hfixed := isFixed_of_ofReserved? hreserved
      rw [hreserved] at h
      obtain rfl : kind = .number := h
      cases hfixed
  | sign spelling kind =>
    have hfixed := isFixed_of_sign hclass
    obtain rfl : kind = .number := h
    cases hfixed
  | _ => cases h

/-- **A run of digits that fits becomes a number**, and nothing else does. -/
theorem StandsApart.number_iff {passed : List Char} (h : lexer.StandsApart source file passed)
    {token : Token} : (∃ next, lexer.advance = .ok .number next ∧ next.current = token) ↔
      ∃ before digits after, ComesTo source lexer before digits after ∧
        numeral digits ≤ 2 ^ 63 - 1 ∧ token = numberToken file before digits := by
  constructor
  · rintro ⟨next, hadvance, rfl⟩
    have houtcome := lexer.outcome_advance
    rw [hadvance] at houtcome
    generalize hkind : Kind.number = kind at houtcome
    cases houtcome with
    | finish => cases hkind
    | @token gap rest lexeme _ htext hgap hclass _ _ hreadable hreads =>
      have hplace := h.stands.pass htext
      have hbehind := hplace.of_reads (unread_pass htext) hreads
      obtain ⟨pattern, digits⟩ := lexeme
      obtain rfl : pattern = .digits := kind_eq_number hclass hkind.symm
      have hvalue : decimalValue digits < integerBound := hreadable
      refine ⟨_, digits, rest, h.comesTo htext hgap hclass, ?_, ?_⟩
      · rw [← decimalValue_eq_numeral]
        exact Nat.le_pred_of_lt hvalue
      · rw [hreads.current, hplace.position_eq, hbehind.position_eq]
        rfl
  · rintro ⟨before, digits, after, hrun, hvalue, rfl⟩
    obtain ⟨gap, rfl, htext, hgap, hclass⟩ := hrun.exists_ahead h.stands
    have hreadable : Lexeme.Readable (.digits, digits) := by
      rw [← decimalValue_eq_numeral] at hvalue
      exact Nat.lt_of_le_pred (by decide) hvalue
    obtain ⟨next, hadvance, hreads⟩ := @exists_advance_of_readable _ _ _ (.digits, digits) htext
      hgap _ rfl hclass nofun nofun hreadable
    have hplace := h.stands.pass htext
    have hbehind := hplace.of_reads (unread_pass htext) hreads
    refine ⟨next, hadvance, ?_⟩
    rw [hreads.current, hplace.position_eq, hbehind.position_eq]
    rfl

/-- **A run of digits that does not fit is refused as a whole**, and for no other is there such a
fault. -/
theorem StandsApart.tooLarge_iff {passed : List Char} (h : lexer.StandsApart source file passed)
    {fault : Diagnostic} :
    (fault.cause = .tooLarge ∧ ∃ next, lexer.advance = .error fault next) ↔
      ∃ before digits after, ComesTo source lexer before digits after ∧
        2 ^ 63 - 1 < numeral digits ∧ fault = numberFault file before digits lexer.ordinal := by
  constructor
  · rintro ⟨hcause, next, hadvance⟩
    have houtcome := lexer.outcome_advance
    rw [hadvance] at houtcome
    cases houtcome with
    | stray => cases hcause
    | @tooLarge gap digits rest htext hgap hclass hbound =>
      have hplace := h.stands.pass htext
      refine ⟨_, digits, rest, h.comesTo htext hgap hclass, ?_, ?_⟩
      · rw [← decimalValue_eq_numeral]
        exact hbound
      · unfold numberFault
        rw [← hplace.position_eq, ← hplace.line_eq]
        rfl
  · rintro ⟨before, digits, after, hrun, hvalue, rfl⟩
    obtain ⟨gap, rfl, htext, hgap, hclass⟩ := hrun.exists_ahead h.stands
    have hplace := h.stands.pass htext
    rw [← decimalValue_eq_numeral] at hvalue
    refine ⟨rfl, (lexer.pass gap).mark.pass digits, ?_⟩
    unfold numberFault
    rw [← hplace.position_eq, ← hplace.line_eq]
    exact advance_of_tooLarge htext hgap hclass hvalue

/-- The literals of a lexer are exact, when some tokens have been returned. -/
structure LiteralsExact (source file : String) (lexer : Lexer) (tokens : List Token) :
    Prop where
  /-- It holds the values of those returned last. -/
  holds : lexer.HoldsLast tokens
  /-- The next token is a number exactly if the lexer comes to a run of digits that fits, and then
  it is that run. -/
  number {token : Token} : (∃ next, lexer.advance = .ok .number next ∧ next.current = token) ↔
    ∃ before digits after, ComesTo source lexer before digits after ∧
      numeral digits ≤ 2 ^ 63 - 1 ∧ token = numberToken file before digits
  /-- A number is refused exactly if the lexer comes to a run of digits that does not fit, and the
  fault is about that run. -/
  tooLarge {fault : Diagnostic} :
    (fault.cause = .tooLarge ∧ ∃ next, lexer.advance = .error fault next) ↔
      ∃ before digits after, ComesTo source lexer before digits after ∧
        2 ^ 63 - 1 < numeral digits ∧ fault = numberFault file before digits lexer.ordinal

end Lexer

/-- **The values of literals are exact**, whatever has been asked of a lexer before and whatever
faults it has gone on after. -/
theorem literals_exact (source file : String) (actions : List LexerAction) :
    ((Lexer.ofSource source file).after actions).LiteralsExact source file
      ((Lexer.ofSource source file).returned actions) := by
  obtain ⟨before, happart⟩ := Lexer.standsApart_after source file actions
  refine ⟨?_, happart.number_iff, happart.tooLarge_iff⟩
  have hholds := Lexer.logging_holdsLast.after actions (Lexer.holdsLast_ofSource source file)
  rwa [List.nil_append] at hholds

/-- A number that is too large, a string, and a number with leading zeros before a character that
begins nothing. -/
example : ((Lexer.ofSource "9223372036854775808 \"a\" 0042 $" "shell").after
    (List.replicate 4 .advance)).intValue = 42 := by
  decide +kernel

end ScriptFront
