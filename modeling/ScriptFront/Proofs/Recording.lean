import ScriptFront.Proofs.Levels
import ScriptFront.Proofs.Lossless
import ScriptFront.Token.Playback

/-!
# ScriptFront.Proofs.Recording

**To parse a source is to parse a recording of its tokens.** The parser that draws its tokens from
the lexer, one as each is needed, is set beside the parser that reads them from a list, into which
the lexer has put them beforehand (`Recorded`). Both take the same steps (`Alike`), so it is enough
that they stay in step at each token (`Replays`).

With them goes the list of all the tokens of the source, as far as it can be had (`Item.listing`):
what stops it has not been reached while a parser runs, and it is what stops the parser if the
grammar does not.
-/

namespace ScriptFront

open Grammar
open Text (byteSize)

/-! ### Recordings -/

/-- What an item has to tell of the token that a lexer has read. The value of an integer and the
contents of a text are told at tokens of their kind only. -/
structure Item.Shows (item : Item) (lexer : Lexer) : Prop where
  token : item.token = lexer.current
  location : item.location = lexer.location
  integer : lexer.current.kind = .number → item.intValue = lexer.intValue
  text : lexer.current.kind = .string → item.stringValue = lexer.stringValue
  fault : item.fault = none

/-- The items tell what a lexer reads from here on, up to the end or to the first fault. -/
inductive Recorded : Lexer → List Item → Prop
  | finish {lexer next : Lexer} {item : Item} (hadvance : lexer.advance = .ok .eof next)
      (hshows : item.Shows next) : Recorded lexer [item]
  | token {lexer next : Lexer} {kind : Kind} {item : Item} {items : List Item}
      (hadvance : lexer.advance = .ok kind next) (hkind : kind ≠ .eof) (hshows : item.Shows next)
      (hrest : Recorded next items) : Recorded lexer (item :: items)
  | fault {lexer next : Lexer} {fault : Diagnostic} {item : Item}
      (hadvance : lexer.advance = .error fault next) (hitem : item.diagnostic? = some fault) :
      Recorded lexer [item]

/-- The item of the token that a lexer has read. -/
def Item.ofLexer (lexer : Lexer) : Item where
  token := lexer.current
  location := lexer.location
  intValue := lexer.intValue
  stringValue := lexer.stringValue
  fault := none

/-- The item of a failure. -/
def Item.ofFault (fault : Diagnostic) : Item where
  token := ⟨.eof, fault.text, ⟨fault.position, fault.position⟩⟩
  location := fault.location
  intValue := 0
  stringValue := ""
  fault := some fault.cause

theorem Item.shows_ofLexer (lexer : Lexer) : (Item.ofLexer lexer).Shows lexer :=
  ⟨rfl, rfl, fun _ => rfl, fun _ => rfl, rfl⟩

/-- An item that shows a token is no failure. -/
theorem Item.Shows.diagnostic? {item : Item} {lexer : Lexer} (h : item.Shows lexer) :
    item.diagnostic? = none := by
  unfold Item.diagnostic?
  rw [h.fault]
  rfl

/-- The items of what a lexer reads, at most as many as the count says. -/
def Lexer.recordWithin : Nat → Lexer → List Item
  | 0, _ => []
  | count + 1, lexer =>
    match lexer.advance with
    | .error fault _ => [Item.ofFault fault]
    | .ok .eof next => [Item.ofLexer next]
    | .ok _ next => Item.ofLexer next :: recordWithin count next

/-- The items of all that a lexer reads. -/
def Lexer.record (lexer : Lexer) : List Item :=
  recordWithin (lexer.cursor.left + 1) lexer

/-- By induction on the count, which is above the number of bytes left. -/
theorem recorded_recordWithin (count : Nat) :
    ∀ lexer : Lexer, lexer.cursor.left < count → Recorded lexer (lexer.recordWithin count) := by
  induction count with
  | zero =>
    intro lexer hleft
    exact absurd hleft (Nat.not_lt_zero _)
  | succ count ih =>
    intro lexer hleft
    unfold Lexer.recordWithin
    cases hadvance : lexer.advance with
    | error fault next => exact .fault hadvance rfl
    | ok kind next =>
      by_cases hkind : kind = .eof
      · subst hkind
        exact .finish hadvance (Item.shows_ofLexer next)
      · have hless := (Lexer.proceeds_of_eq hadvance).2.2 hkind
        have hrest := ih next (by omega)
        cases kind with
        | eof => exact absurd rfl hkind
        | _ => exact .token hadvance hkind (Item.shows_ofLexer next) hrest

/-- Whatever is left to read, there is a recording of it. -/
theorem recorded_record (lexer : Lexer) : Recorded lexer lexer.record :=
  recorded_recordWithin _ lexer (Nat.lt_succ_self _)

/-! ### The list of the tokens -/

/-- The tokens of some items, or the first failure among them. -/
def Item.listing : List Item → Except Diagnostic (List Token)
  | [] => .ok []
  | item :: items =>
    match item.diagnostic? with
    | some fault => .error fault
    | none => (listing items).map (item.token :: ·)

theorem Item.Shows.listing {item : Item} {lexer : Lexer} (h : item.Shows lexer)
    (items : List Item) :
    Item.listing (item :: items) = (Item.listing items).map (lexer.current :: ·) := by
  simp only [Item.listing, h.diagnostic?, h.token]

theorem Item.listing_of_fault {item : Item} {fault : Diagnostic}
    (h : item.diagnostic? = some fault) (items : List Item) :
    Item.listing (item :: items) = .error fault := by
  unfold Item.listing
  rw [h]

/-- A token in front does not change what stops a list of tokens. -/
theorem map_cons_eq_error {tokens : Except Diagnostic (List Token)} {token : Token}
    {fault : Diagnostic} : tokens.map (token :: ·) = .error fault ↔ tokens = .error fault := by
  cases tokens with
  | ok tokens =>
    constructor
    · intro h
      cases h
    · intro h
      cases h
  | error other => exact Iff.rfl

theorem exists_of_map_cons {tokens : Except Diagnostic (List Token)} {token : Token}
    {whole : List Token} (h : tokens.map (token :: ·) = .ok whole) :
    ∃ later, tokens = .ok later ∧ whole = token :: later := by
  cases tokens with
  | error fault => cases h
  | ok later => exact ⟨later, rfl, (Except.ok.inj h).symm⟩

/-- **Listing the tokens is listing the recording of them**, if the count is large enough. By
induction on the recording. -/
theorem Recorded.tokensWithin_eq {lexer : Lexer} {items : List Item} (h : Recorded lexer items) :
    ∀ count, lexer.cursor.left ≤ count → Lexer.tokensWithin count lexer = Item.listing items := by
  induction h with
  | @finish lexer next item hadvance hshows =>
    intro count hleft
    rw [hshows.listing []]
    cases count with
    | zero =>
      -- the end is told without reading it
      have hunread := Cursor.left_eq_zero.mp (Nat.le_zero.mp hleft)
      have hscanned := lexer.scanned_advance
      rw [hadvance] at hscanned
      cases hscanned with
      | finish _ hcurrent =>
        rw [hcurrent, hunread]
        rfl
      | token _ _ _ hkind => exact absurd rfl hkind
    | succ count =>
      unfold Lexer.tokensWithin
      rw [hadvance]
      rfl
  | @token lexer next kind item items hadvance hkind hshows _ ih =>
    intro count hleft
    have hless := (Lexer.proceeds_of_eq hadvance).2.2 hkind
    obtain ⟨count, rfl⟩ : ∃ k, count = k + 1 := ⟨count - 1, by omega⟩
    rw [hshows.listing items, ← ih count (by omega)]
    unfold Lexer.tokensWithin
    rw [hadvance]
    cases kind with
    | eof => exact absurd rfl hkind
    | _ => cases count <;> rfl
  | @fault lexer next fault item hadvance hitem =>
    intro count hleft
    rw [Item.listing_of_fault hitem]
    cases count with
    | zero =>
      have hunread := Cursor.left_eq_zero.mp (Nat.le_zero.mp hleft)
      have hscanned := lexer.scanned_advance
      rw [hadvance] at hscanned
      cases hscanned with
      | fault htext _ hrest =>
        rw [hunread] at htext
        exact absurd (List.append_eq_nil_iff.mp htext.symm).2 hrest
    | succ count =>
      unfold Lexer.tokensWithin
      rw [hadvance]

/-! ### Where things stand -/

/-- A token before the end begins before the place that is reached by it, and what was read and
what is left are the same in all. -/
theorem Lexer.bounds_of_token {lexer next : Lexer} {kind : Kind}
    (hadvance : lexer.advance = .ok kind next) (hkind : kind ≠ .eof)
    (hsize : lexer.cursor.offset + lexer.cursor.left < 2 ^ 32) :
    lexer.cursor.offset ≤ next.cursor.offset ∧ next.current.startByte < next.cursor.offset ∧
      next.cursor.offset + next.cursor.left = lexer.cursor.offset + lexer.cursor.left := by
  have hscanned := lexer.scanned_advance
  rw [hadvance] at hscanned
  cases hscanned with
  | finish => exact absurd rfl hkind
  | @token gap lexeme rest _ _ htext _ hlexeme _ hcurrent hunread hoffset _ =>
    have hleft := lexer.cursor.left_eq
    have hleft' := next.cursor.left_eq
    have hpos := Text.byteSize_pos hlexeme
    rw [htext, Text.byteSize_append, Text.byteSize_append] at hleft
    rw [hunread] at hleft'
    rw [Text.byteSize_append] at hoffset
    have hstart : next.current.startByte = lexer.cursor.offset + byteSize gap := by
      rw [hcurrent]
      exact toNat_toUInt32 (by omega)
    omega

/-- What stops the list of the tokens stands behind the place that has been reached. By induction
on the recording. -/
theorem Recorded.offset_le {lexer : Lexer} {items : List Item} (h : Recorded lexer items) :
    ∀ fault, lexer.cursor.offset + lexer.cursor.left < 2 ^ 32 →
      Item.listing items = .error fault →
        lexer.cursor.offset ≤ fault.position.offset.toNat := by
  induction h with
  | finish hadvance hshows =>
    intro fault _ hlisting
    rw [hshows.listing []] at hlisting
    cases hlisting
  | token hadvance hkind hshows _ ih =>
    intro fault hsize hlisting
    rw [hshows.listing, map_cons_eq_error] at hlisting
    obtain ⟨hle, -, htotal⟩ := Lexer.bounds_of_token hadvance hkind hsize
    exact Nat.le_trans hle (ih fault (by rw [htotal]; exact hsize) hlisting)
  | @fault lexer next found item hadvance hitem =>
    intro fault hsize hlisting
    rw [Item.listing_of_fault hitem] at hlisting
    obtain rfl := Except.error.inj hlisting
    have hscanned := lexer.scanned_advance
    rw [hadvance] at hscanned
    cases hscanned with
    | @fault gap rest _ _ htext _ _ hposition _ =>
      have hleft := lexer.cursor.left_eq
      rw [htext, Text.byteSize_append] at hleft
      have hstart : found.position.offset.toNat = lexer.cursor.offset + byteSize gap := by
        rw [hposition]
        exact toNat_toUInt32 (by omega)
      omega

/-! ### In step -/

variable {tokens : Except Diagnostic (List Token)}

/-- A fault that stops a parser comes no later than what stops the list of the tokens. -/
structure Anticipates (tokens : Except Diagnostic (List Token)) (fault : Diagnostic) : Prop where
  lexical : fault.isGrammatical = false → tokens = .error fault
  grammatical : fault.isGrammatical = true →
    ∀ other, tokens = .error other → fault.position.offset < other.position.offset

/-- The list has what the lexer is about to read, and so has the list of all the tokens. -/
structure Impends (tokens : Except Diagnostic (List Token)) (lexer : Lexer)
    (playback : Playback) : Prop where
  recorded : Recorded lexer playback.unread
  listed : ∀ fault, tokens = .error fault ↔ Item.listing playback.unread = .error fault
  size : lexer.cursor.offset + lexer.cursor.left < 2 ^ 32

/-- A parser that draws from the lexer and one that reads from the list stand at the same token.
At the end there is nothing left on either side. -/
structure Replays (tokens : Except Diagnostic (List Token)) (p : Parser Lexer)
    (q : Parser Playback) : Prop where
  lookahead : p.lookahead = q.lookahead
  depth : p.depth = q.depth
  kind : p.stream.current.kind = p.lookahead
  shows : q.stream.current.Shows p.stream
  ahead : p.lookahead ≠ .eof → Impends tokens p.stream q.stream ∧
    p.stream.current.startByte < p.stream.cursor.offset
  behind : p.lookahead = .eof → (∀ fault, tokens ≠ .error fault) ∧
    p.stream.cursor.unread = [] ∧ q.stream.unread = []

/-- **One token keeps the two in step**, whichever of the three ways the lexer goes. -/
theorem Impends.advance {p : Parser Lexer} {q : Parser Playback}
    (h : Impends tokens p.stream q.stream) (hdepth : p.depth = q.depth) :
    Together (fun _ _ p' q' => Replays tokens p' q') (fun e f _ _ => e = f ∧ Anticipates tokens e)
      (Rule.advance p) (Rule.advance q) := by
  obtain ⟨hrecorded, hlisted, hsize⟩ := h
  generalize hunread : q.stream.unread = items at hrecorded hlisted
  cases hrecorded with
  | @finish _ next item hadvance hshows =>
    have hplay := Playback.advance_of_token hunread hshows.diagnostic?
    have hkind : next.current.kind = .eof := (Lexer.proceeds_of_eq hadvance).1
    have hend : item.token.kind = .eof := by rw [hshows.token, hkind]
    rw [Rule.advance_of_ok hadvance, Rule.advance_of_ok hplay]
    refine ⟨hend.symm, hdepth, hkind, hshows, fun hahead => absurd rfl hahead, fun _ => ?_⟩
    refine ⟨fun fault hfault => ?_, ?_, rfl⟩
    · have hlisting := (hlisted fault).mp hfault
      rw [hshows.listing] at hlisting
      cases hlisting
    · have hscanned := p.stream.scanned_advance
      rw [hadvance] at hscanned
      cases hscanned with
      | finish _ _ hnothing => exact hnothing
      | token _ _ _ hne => exact absurd rfl hne
  | @token _ next kind item items hadvance hkind hshows hrest =>
    have hplay := Playback.advance_of_token hunread hshows.diagnostic?
    have hcurrent : next.current.kind = kind := (Lexer.proceeds_of_eq hadvance).1
    have hsame : item.token.kind = kind := by rw [hshows.token, hcurrent]
    obtain ⟨-, hstart, htotal⟩ := Lexer.bounds_of_token hadvance hkind hsize
    rw [Rule.advance_of_ok hadvance, Rule.advance_of_ok hplay]
    refine ⟨hsame.symm, hdepth, hcurrent, hshows, fun _ => ⟨⟨hrest, fun fault => ?_, ?_⟩, hstart⟩,
      fun hbehind => absurd hbehind hkind⟩
    -- a token that has been read is not what stops the list, and only moves bytes behind the lexer
    · rw [hlisted, hshows.listing, map_cons_eq_error]
    · rw [htotal]
      exact hsize
  | @fault _ next fault item hadvance hitem =>
    have hplay := Playback.advance_of_fault hunread hitem
    rw [Rule.advance_of_error hadvance, Rule.advance_of_error hplay]
    have hlexical : fault.isGrammatical = false := by
      have hscanned := p.stream.scanned_advance
      rw [hadvance] at hscanned
      cases hscanned with
      | fault _ _ _ _ hcause => exact hcause
    refine ⟨rfl, fun _ => ?_, fun hgrammatical => ?_⟩
    · rw [hlisted]
      exact Item.listing_of_fault hitem []
    · rw [hlexical] at hgrammatical
      cases hgrammatical

/-- A token that is not expected is the same on both sides, and stands before all that is still
to be read. -/
theorem Replays.unexpected {p : Parser Lexer} {q : Parser Playback} (h : Replays tokens p q)
    (expected : List Kind) : p.unexpected expected = q.unexpected expected ∧
      Anticipates tokens (p.unexpected expected) := by
  refine ⟨?_, fun hlexical => ?_, fun _ other hother => ?_⟩
  · show Diagnostic.mk _ p.stream.current.text p.stream.current.span.start p.stream.location =
      Diagnostic.mk _ q.stream.current.token.text q.stream.current.token.span.start
        q.stream.current.location
    rw [h.shows.token, h.shows.location]
  · cases hlexical
  · by_cases hkind : p.lookahead = .eof
    · -- once the end has been read, nothing can stop the list any more
      exact absurd hother ((h.behind hkind).1 other)
    · obtain ⟨himpends, hstart⟩ := h.ahead hkind
      have hle := himpends.recorded.offset_le other himpends.size ((himpends.listed other).mp hother)
      exact UInt32.lt_iff_toNat_lt.mpr (Nat.lt_of_lt_of_le hstart hle)

/-- Rules keep the two in step. -/
theorem simulation_replays (tokens : Except Diagnostic (List Token)) (limit : Option Nat) :
    Simulation Eq limit limit (fun _ => Replays tokens)
      (fun _ e f _ _ => e = f ∧ Anticipates tokens e) where
  lookahead h := h.lookahead
  advance h hkind := (h.ahead hkind).1.advance h.depth
  unexpected h _ := h.unexpected _
  refusal h := by rw [h.depth]
  enter h _ := ⟨h.lookahead, congrArg (· + 1) h.depth, h.kind, h.shows, h.ahead, h.behind⟩
  leave h := ⟨h.lookahead, congrArg (· - 1) h.depth, h.kind, h.shows, h.ahead, h.behind⟩
  leave_fault h := h
  integer h hkind := congrArg Expr.const (h.shows.integer (h.kind.trans hkind)).symm
  identifier h _ := congrArg (fun location => Expr.id location.ordinal) h.shows.location.symm
  text h hkind := congrArg Expr.str (h.shows.text (h.kind.trans hkind)).symm

/-! ### A whole parse -/

/-- Parses a list of items. -/
def parseItems (file : String) (items : List Item) : Except Diagnostic Program :=
  match parseStream (Playback.ofItems file items) with
  | .ok program _ => .ok program
  | .error fault _ => .error fault

/-- Behind the end the lexer finds the end again, and so does the list. -/
theorem Replays.advance_of_end {p : Parser Lexer} {q : Parser Playback} (h : Replays tokens p q)
    (hend : p.lookahead = .eof) :
    Together (fun _ _ _ _ => ∀ fault, tokens ≠ .error fault)
      (fun e f _ _ => e = f ∧ Anticipates tokens e) (Rule.advance p) (Rule.advance q) := by
  obtain ⟨hlisted, hnothing, hempty⟩ := h.behind hend
  have hleft := Cursor.left_eq_zero.mpr hnothing
  have hadvance : TokenStream.advance p.stream = p.stream.mark.finish := by
    show Lexer.advanceWithin p.stream.cursor.left p.stream = _
    rw [hleft]
    rfl
  have hplay : TokenStream.advance q.stream =
      .ok .eof { q.stream with current := Item.eof q.stream.stop } := by
    show Playback.advance q.stream = _
    unfold Playback.advance
    simp only [hempty]
  rw [Rule.advance_of_ok hadvance, Rule.advance_of_ok hplay]
  exact hlisted

/-- A whole parse of a source beside that of a recording. -/
theorem together_program {source file : String} {items : List Item}
    (h : Recorded (Lexer.ofSource source file) items) (hsize : source.utf8ByteSize < 2 ^ 32) :
    Together (fun a b _ _ => a = b ∧ ∀ fault, tokenize source file ≠ .error fault)
      (fun e f _ _ => e = f ∧ Anticipates (tokenize source file) e)
      (Grammar.program (some maxDepth) { stream := Lexer.ofSource source file })
      (Grammar.program (some maxDepth) { stream := Playback.ofItems file items }) := by
  have hstart : Impends (tokenize source file) (Lexer.ofSource source file)
      (Playback.ofItems file items) := by
    refine ⟨h, fun fault => ?_, ?_⟩
    · unfold tokenize Lexer.tokens
      rw [h.tokensWithin_eq _ (Nat.le_refl _)]
      exact Iff.rfl
    · rw [utf8ByteSize_eq] at hsize
      show 0 + byteSize source.toList < 2 ^ 32
      omega
  have hrun := (simulation_replays (tokenize source file) (some maxDepth)).program compositional_eq
    (hstart.advance rfl) fun _ _ hrel hend => hrel.advance_of_end hend
  refine hrun.imp (fun a b _ _ hok => ⟨?_, hok.2⟩) fun _ _ _ _ hfault => hfault
  exact congrArg Program.mk (eq_of_retained hok.1)

/-- The two parses give the same program, or they stop at the same fault. -/
theorem parse_cases {source file : String} {items : List Item}
    (h : Recorded (Lexer.ofSource source file) items) (hsize : source.utf8ByteSize < 2 ^ 32) :
    (∃ program, parse source file = .ok program ∧ parseItems file items = .ok program ∧
      ∀ fault, tokenize source file ≠ .error fault) ∨
    ∃ fault, parse source file = .error fault ∧ parseItems file items = .error fault ∧
      Anticipates (tokenize source file) fault := by
  have htogether := together_program h hsize
  unfold parse parseItems parseStream
  cases hlazy : Grammar.program (some maxDepth) { stream := Lexer.ofSource source file } <;>
    cases heager : Grammar.program (some maxDepth) { stream := Playback.ofItems file items } <;>
    rw [hlazy, heager] at htogether
  · obtain ⟨rfl, hlisted⟩ := htogether
    exact Or.inl ⟨_, rfl, rfl, hlisted⟩
  · exact False.elim htogether
  · exact False.elim htogether
  · obtain ⟨rfl, hanticipates⟩ := htogether
    exact Or.inr ⟨_, rfl, rfl, hanticipates⟩

/-- How the parse of a source goes with a list of items, and with the list of its tokens. -/
structure Agreement (source file : String) (items : List Item) : Prop where
  /-- The items give the same program, or the same fault. -/
  same : parse source file = parseItems file items
  /-- A source that has a program has a list of tokens. -/
  succeeds : ∀ program, parse source file = .ok program →
    ∃ tokens, tokenize source file = .ok tokens
  /-- If it is not the grammar that refuses the source, its tokens cannot be listed either. -/
  lexical : ∀ fault, parse source file = .error fault → fault.isGrammatical = false →
    tokenize source file = .error fault
  /-- What stops the list stops the parser as well, unless the grammar has done so before. -/
  earliest : ∀ fault, tokenize source file = .error fault → parse source file = .error fault ∨
    ∃ first, parse source file = .error first ∧ first.isGrammatical = true ∧
      first.position.offset < fault.position.offset

/-- **It does not matter whether tokens are read as they are needed or beforehand.** There is a
recording of every source, and every recording of it parses like the source. -/
theorem parse_agrees_with_recording (source file : String)
    (hsize : source.utf8ByteSize < 2 ^ 32 - 1) :
    Recorded (Lexer.ofSource source file) (Lexer.ofSource source file).record ∧
      ∀ items, Recorded (Lexer.ofSource source file) items → Agreement source file items := by
  refine ⟨recorded_record _, fun items hrecorded => ?_⟩
  rcases parse_cases hrecorded (by omega) with
    ⟨program, hlazy, heager, hlisted⟩ | ⟨fault, hlazy, heager, hanticipates⟩
  · refine ⟨hlazy.trans heager.symm, fun _ _ => ?_, fun fault hfault => ?_, fun fault hfault => ?_⟩
    · cases htokens : tokenize source file with
      | ok tokens => exact ⟨tokens, rfl⟩
      | error fault => exact absurd htokens (hlisted fault)
    · rw [hlazy] at hfault
      cases hfault
    · exact absurd hfault (hlisted fault)
  · refine ⟨hlazy.trans heager.symm, fun program hprogram => ?_, fun other hother hlexical => ?_,
      fun other hother => ?_⟩
    · rw [hlazy] at hprogram
      cases hprogram
    · obtain rfl := Except.error.inj (hlazy.symm.trans hother)
      exact hanticipates.lexical hlexical
    · cases hcause : fault.isGrammatical with
      | false =>
        obtain rfl := Except.error.inj ((hanticipates.lexical hcause).symm.trans hother)
        exact Or.inl hlazy
      | true => exact Or.inr ⟨fault, hlazy, hcause, hanticipates.grammatical hcause other hother⟩

/-- Where the grammar stops at the number, the parser never comes to the character that begins no
token. -/
theorem early_refusal_agrees :
    parse "print 1 $" "shell" =
        .error ⟨.unexpected [.openParen], "1", ⟨6, "shell"⟩, ⟨1, 0⟩⟩ ∧
      tokenize "print 1 $" "shell" = .error ⟨.unrecognised, "$", ⟨8, "shell"⟩, ⟨1, 0⟩⟩ ∧
      Agreement "print 1 $" "shell" (Lexer.ofSource "print 1 $" "shell").record := by
  refine ⟨by decide +kernel, by decide +kernel, ?_⟩
  exact (parse_agrees_with_recording "print 1 $" "shell" (by decide)).2 _ (recorded_record _)

end ScriptFront
