import ScriptFront.Proofs.CurlyDepth
import ScriptFront.Proofs.FirstFault
import ScriptFront.Proofs.Invariant
import ScriptFront.Proofs.Recording

/-!
# ScriptFront.Proofs.TopLevel

**What is printed at the top level is retained, in order, and nothing else is.** The list of what
stands behind each print word at curly depth zero is that of the statements of the program: each
statement writes what stands in parentheses behind its word.
-/

namespace ScriptFront

open Grammar
open scoped Computability

/-! ### What is retained of spelled statements -/

namespace Spelling

variable {levels : Nat} {w : List Symbol} {found : Option Statement} {statements : List Statement}

/-- Behind a print word stands in parentheses what a statement writes. -/
def Wrote (levels : Nat) (behind : List Symbol) (statement : Statement) : Prop :=
  ∃ opening between closing more e, behind = opening :: (between ++ closing :: more) ∧
    opening.kind = .openParen ∧ closing.kind = .closeParen ∧
    Value (inside levels) between e ∧ statement = .write e

theorem Wrote.append {behind : List Symbol} {statement : Statement}
    (h : Wrote levels behind statement) (v : List Symbol) :
    Wrote levels (behind ++ v) statement := by
  obtain ⟨opening, between, closing, more, e, rfl, hopening, hclosing, hvalue, rfl⟩ := h
  exact ⟨opening, between, closing, more ++ v, e, by simp, hopening, hclosing, hvalue, rfl⟩

/-- Where the symbols are those of some tokens, the tokens are cut as they are. -/
theorem Wrote.exists_of_map {α : Type} {symbolOf : α → Symbol} {behind : List α}
    {statement : Statement} (h : Wrote levels (behind.map symbolOf) statement) :
    ∃ opening between closing more e, behind = opening :: (between ++ closing :: more) ∧
      (symbolOf opening).kind = .openParen ∧ (symbolOf closing).kind = .closeParen ∧
      Value (inside levels) (between.map symbolOf) e ∧ statement = .write e := by
  obtain ⟨_, _, _, _, e, hbehind, hopening, hclosing, hvalue, rfl⟩ := h
  obtain ⟨opening, rest, rfl, rfl, hrest⟩ := List.map_eq_cons_iff.mp hbehind
  obtain ⟨between, rest', rfl, rfl, hrest'⟩ := List.map_eq_append_iff.mp hrest
  obtain ⟨closing, more, rfl, rfl, rfl⟩ := List.map_eq_cons_iff.mp hrest'
  exact ⟨opening, between, closing, more, e, rfl, hopening, hclosing, hvalue, rfl⟩

/-- Behind the word of a print statement there is neither another one nor a curly bracket. -/
theorem quiet_printing {opening closing semicolon : Symbol} {v : List Symbol} {e : Expr}
    (hopening : opening.kind = .openParen) (hvalue : Value (inside levels) v e)
    (hclosing : closing.kind = .closeParen) (hsemicolon : semicolon.kind = .semicolon) :
    Quiet 0 (Symbol.kinds (opening :: (v ++ [closing, semicolon]))) := by
  have hend : Quiet 0 [Kind.semicolon] := quiet_singleton (by decide) (by decide) (by decide)
  have hparen : Quiet 0 (.openParen :: (Symbol.kinds v ++ [.closeParen])) :=
    bracketed_quiet.parenthesised (bracketed_quiet.value hvalue)
  simpa [hopening, hclosing, hsemicolon] using hparen.append hend

theorem Single.curlyDepth_eq (h : Single levels w found) : curlyDepth (Symbol.kinds w) = 0 := by
  cases h with
  | printing hword hopening hvalue hclosing hsemicolon =>
    rw [Symbol.kinds_cons, curlyDepth_cons, hword,
      (quiet_printing hopening hvalue hclosing hsemicolon).1]
    rfl
  | dropped hdropped => exact (silent_dropped levels _ hdropped).1

/-- A print statement has one print word at depth zero, its own, and no other statement has any. -/
theorem Single.prints (h : Single levels w found) :
    List.Forall₂ (Wrote levels) (printsFrom Symbol.kind 0 w) found.toList := by
  cases h with
  | @printing word opening closing semicolon v e hword hopening hvalue hclosing hsemicolon =>
    have hrest := (quiet_printing hopening hvalue hclosing hsemicolon).printsFrom_eq
      (Int.le_refl 0)
    have hprints : printsFrom Symbol.kind 0 (word :: opening :: (v ++ [closing, semicolon])) =
        [opening :: (v ++ [closing, semicolon])] := by
      have hdepth : curlyDepth [Kind.printWord] = 0 := rfl
      rw [printsFrom, hword, hdepth, add_zero, hrest, if_pos ⟨rfl, rfl⟩]
    rw [hprints]
    exact .cons ⟨opening, v, closing, [semicolon], e, rfl, hopening, hclosing, hvalue, rfl⟩ .nil
  | dropped hdropped =>
    rw [(silent_dropped levels _ hdropped).printsFrom_eq (Int.le_refl 0)]
    exact .nil

/-- By induction on the statements. -/
theorem Sequence.prints (h : Sequence levels w statements) :
    List.Forall₂ (Wrote levels) (printsFrom Symbol.kind 0 w) statements := by
  induction h with
  | nil => exact .nil
  | @cons w v found statements hfirst _ ih =>
    have hdepth : curlyDepth (w.map Symbol.kind) = 0 := hfirst.curlyDepth_eq
    rw [printsFrom_append, hdepth, add_zero]
    refine List.rel_append ?_ ih
    rw [List.forall₂_map_left_iff]
    exact hfirst.prints.imp fun _ _ hwrote => hwrote.append v

end Spelling

/-! ### Token lists -/

/-- The symbol of an item. -/
def Item.symbol (item : Item) : Symbol :=
  Symbol.ofValues item.token.kind item.intValue item.location.ordinal item.stringValue

@[simp] theorem Item.kind_symbol (item : Item) : item.symbol.kind = item.token.kind :=
  Symbol.kind_ofValues ..

/-- Faultless items before the end are yielded one after the other. -/
theorem Playback.trail_reading {before after : List Item} (stop : Position)
    (h : Faultless before) (hnext : FaultlessHead after) (hend : .eof ∉ kindsOf before) :
    Trail (before.map Item.symbol) (reading (before ++ after) stop)
      (Item.first (before ++ after) stop).token.kind (reading after stop)
      (Item.first after stop).token.kind := by
  induction before with
  | nil => exact ⟨rfl, rfl⟩
  | cons item before ih =>
    have hrest : Faultless before := (List.forall_mem_cons.mp h).2
    obtain ⟨hitem, hend⟩ := not_or.mp (mt List.mem_cons.mpr hend)
    exact ⟨rfl, Ne.symm hitem, _, _, advance_eq item stop (hrest.head_append hnext), ih hrest hend⟩

/-- A whole list of items is a trail from the first to the end. -/
theorem Playback.trail_atFirst (file : String) {items : List Item} (h : Faultless items)
    (hend : .eof ∉ kindsOf items) :
    Trail (items.map Item.symbol) (Parser.atFirst file items).stream
      (Parser.atFirst file items).lookahead (reading [] (Item.stopOf file items)) .eof := by
  have hnothing : FaultlessHead [] := by simp [FaultlessHead]
  have htrail := trail_reading (Item.stopOf file items) h hnothing hend
  rwa [List.append_nil] at htrail

/-- The items that a parser has passed are no failures, and at the end it has passed all. -/
structure Passed (items : List Item) (playback : Playback) (kind : Kind) : Prop where
  before : ∃ before, items = before ++ playback.unread ∧ Faultless before
  ended : kind = .eof → playback.unread = []

theorem Playback.advance_of_nil {playback : Playback} (hunread : playback.unread = []) :
    playback.advance = .ok .eof { playback with current := Item.eof playback.stop } := by
  unfold Playback.advance
  rw [hunread]

/-- A failure that is met is a fault of the parser, and an item that is none is passed. -/
theorem passed_advance {items before : List Item} {playback : Playback}
    (hend : ∀ item ∈ items, item.fault = none → item.token.kind ≠ .eof)
    (hitems : items = before ++ playback.unread) (hbefore : Faultless before) :
    Lands (fun kind next => Passed items next kind) (fun _ _ => True)
      (TokenStream.advance playback) := by
  show Lands _ _ playback.advance
  cases hunread : playback.unread with
  | nil =>
    rw [Playback.advance_of_nil hunread]
    exact ⟨⟨before, hitems, hbefore⟩, fun _ => hunread⟩
  | cons item rest =>
    cases hitem : item.diagnostic? with
    | some fault =>
      rw [Playback.advance_of_fault hunread hitem]
      exact trivial
    | none =>
      have hfault : item.fault = none := by simpa [Item.diagnostic?] using hitem
      have hmem : item ∈ items := by simp [hitems, hunread]
      rw [Playback.advance_of_token hunread hitem]
      refine ⟨⟨before ++ [item], by simp [hitems, hunread], ?_⟩,
        fun hkind => absurd hkind (hend item hmem hfault)⟩
      exact hbefore.append (.singleton hfault)

theorem invariant_passed {items : List Item}
    (hend : ∀ item ∈ items, item.fault = none → item.token.kind ≠ .eof) :
    Invariant (Passed items) fun _ _ => True where
  advance h _ := by
    obtain ⟨before, hitems, hbefore⟩ := h.before
    exact passed_advance hend hitems hbefore
  unexpected _ _ := trivial
  rest h := ⟨_, _, Playback.advance_of_nil (h.ended rfl)⟩

/-- Items that are accepted are no failures, as there is no end before any of them. -/
theorem faultless_of_accepted {file : String} {items : List Item}
    (hend : ∀ item ∈ items, item.fault = none → item.token.kind ≠ .eof)
    (h : Accepted file items) : Faultless items := by
  have hstart : Lands (fun kind next => Passed items next kind) (fun _ _ => True)
      (TokenStream.advance (Playback.ofItems file items)) :=
    passed_advance hend (List.nil_append items).symm fun _ hitem => absurd hitem List.not_mem_nil
  have hrun := (invariant_passed hend).parseStream hstart
  obtain ⟨program, rest, haccepted⟩ := h
  rw [haccepted] at hrun
  obtain ⟨playback, hpassed⟩ := hrun
  obtain ⟨before, hitems, hbefore⟩ := hpassed.before
  rw [hitems, hpassed.ended rfl, List.append_nil]
  exact hbefore

/-! ### What the statements write -/

/-- Every parenthesis has its counterpart. -/
inductive Balanced : List Kind → Prop
  | nil : Balanced []
  | other {kind : Kind} {w : List Kind} (hopening : kind ≠ .openParen)
      (hclosing : kind ≠ .closeParen) (hrest : Balanced w) : Balanced (kind :: w)
  | pair {v w : List Kind} (hinside : Balanced v) (hrest : Balanced w) :
      Balanced (.openParen :: (v ++ .closeParen :: w))

theorem Balanced.append {v w : List Kind} (hv : Balanced v) (hw : Balanced w) :
    Balanced (v ++ w) := by
  induction hv with
  | nil => exact hw
  | other hopening hclosing _ ih => exact .other hopening hclosing ih
  | pair hinside _ _ ih =>
    rw [List.cons_append, List.append_assoc, List.cons_append]
    exact .pair hinside ih

theorem bracketed_balanced : Spelling.Bracketed Balanced where
  append := Balanced.append
  leaf := by
    rintro _ (rfl | rfl | rfl) <;> exact .other (by decide) (by decide) .nil
  operator op := by
    cases op <;> exact .other (by decide) (by decide) .nil
  parenthesised h := .pair h .nil

/-- An expression is read from some items, from the first of them to the last. -/
def ReadsExpression (file : String) (items : List Item) (e : Expr) : Prop :=
  ∃ parser, (do
      Rule.consume
      closed (some maxDepth) Grammar.expression : Rule Playback Expr)
        { stream := Playback.ofItems file items } = .ok e parser ∧
    parser.lookahead = .eof ∧ parser.stream.unread = []

theorem consume_ofItems (file : String) {items : List Item} (h : FaultlessHead items) :
    Rule.consume ({ stream := Playback.ofItems file items } : Parser Playback) =
      .ok () (Parser.atFirst file items) := by
  have hadvance : TokenStream.advance (Playback.ofItems file items) = _ :=
    Playback.advance_eq (Item.eof ⟨0, file⟩) (Item.stopOf file items) h
  simp only [Rule.consume, Rule.advance, Bind.bind, EStateM.bind, hadvance]
  rfl

theorem readsExpression_of_spelled (file : String) {items : List Item} {e : Expr}
    (h : Faultless items) (hend : .eof ∉ kindsOf items)
    (hspells : Spelling.Expression (Spelling.inside maxDepth) (items.map Item.symbol) e) :
    ReadsExpression file items e := by
  have hyields : Yields (Grammar.expression (Inner.whole (some maxDepth) : Inner Playback)) e 0
      (items.map Item.symbol) .eof :=
    Spelling.yields_expression (Spelling.innerYields maxDepth 0 (Nat.zero_add _)) hspells rfl
  obtain ⟨parser, hrun, hstream, hlook, -⟩ :=
    hyields (Parser.atFirst file items) _ rfl (Playback.trail_atFirst file h hend)
  refine ⟨parser, ?_, hlook, by rw [hstream]; rfl⟩
  have hclosed : closed (some maxDepth) Grammar.expression =
      (Grammar.expression (Inner.whole (some maxDepth)) : Rule Playback Expr) :=
    whole_expression (some maxDepth)
  rw [hclosed]
  simp only [Bind.bind, EStateM.bind, consume_ofItems file h.head, hrun]
  rfl

/-- What stands behind each print word at curly depth zero, in the order of these. -/
def Item.prints (items : List Item) : List (List Item) :=
  printsFrom (·.token.kind) 0 items

/-- Behind a print word stand a parenthesis and its counterpart, and what stands between them is
written by a statement: the contents of a text, or the tree of an expression. -/
def Writes (file : String) (behind : List Item) (statement : Statement) : Prop :=
  ∃ opening between closing more, behind = opening :: (between ++ closing :: more) ∧
    opening.token.kind = .openParen ∧ closing.token.kind = .closeParen ∧
    Balanced (kindsOf between) ∧
    ((∃ item, between = [item] ∧ item.token.kind = .string ∧
        statement = .write (.str item.stringValue)) ∨
      ∃ e, ReadsExpression file between e ∧ statement = .write e)

/-- What symbols tell of a print word, the items tell. -/
theorem writes_of_wrote (file : String) {behind : List Item} {statement : Statement}
    (h : Faultless behind) (hend : .eof ∉ kindsOf behind)
    (hwrote : Spelling.Wrote maxDepth (behind.map Item.symbol) statement) :
    Writes file behind statement := by
  obtain ⟨opening, between, closing, more, e, rfl, hopening, hclosing, hvalue, rfl⟩ :=
    hwrote.exists_of_map
  have hkinds : Symbol.kinds (between.map Item.symbol) = kindsOf between := by
    simp [Symbol.kinds, kindsOf, Function.comp_def]
  refine ⟨opening, between, closing, more, rfl, by simpa using hopening, by simpa using hclosing,
    hkinds ▸ bracketed_balanced.value hvalue, ?_⟩
  have hbetween : Faultless between := fun item hitem => h item (by simp [hitem])
  have hend' : .eof ∉ kindsOf between := fun hmem => hend (by simp_all [kindsOf])
  generalize hw : between.map Item.symbol = w at hvalue
  cases hvalue with
  | @text symbol hkind =>
    obtain ⟨item, rfl, rfl⟩ := List.map_eq_singleton_iff.mp hw
    rw [Item.kind_symbol] at hkind
    refine .inl ⟨item, rfl, hkind, ?_⟩
    rw [Item.symbol, hkind]
    rfl
  | expression hexpression =>
    rw [← hw] at hexpression
    exact .inr ⟨e, readsExpression_of_spelled file hbetween hend' hexpression, rfl⟩

/-- What stands behind a print word is a part of the whole. -/
theorem isSuffix_of_mem_printsFrom {α : Type} {kindOf : α → Kind} {behind x : List α} :
    ∀ {depth : Int}, behind ∈ printsFrom kindOf depth x → behind <:+ x := by
  induction x with
  | nil => simp [printsFrom]
  | cons token x ih =>
    intro depth hmem
    have hcases : behind = x ∨ behind <:+ x := by
      rw [printsFrom] at hmem
      split at hmem
      · exact (List.mem_cons.mp hmem).imp_right ih
      · exact .inr (ih hmem)
    rcases hcases with rfl | hsuffix
    · exact List.suffix_cons token behind
    · exact hsuffix.trans (List.suffix_cons token x)

/-- **A program is what is printed at the top level.** It has one statement for each print word at
curly depth zero, in the order of these, and each statement writes what stands in parentheses
behind its word. -/
theorem statements_of_prints {file : String} {items : List Item} {program : Program}
    {rest : Playback} (hend : ∀ item ∈ items, item.fault = none → item.token.kind ≠ .eof)
    (h : parseStream (Playback.ofItems file items) = .ok program rest) :
    program.size = (Item.prints items).length ∧
      List.Forall₂ (Writes file) (Item.prints items) program.statements := by
  -- the parser has taken every item, so none of them is a fault
  have hfaultless := faultless_of_accepted hend ⟨program, rest, h⟩
  have hkinds : .eof ∉ kindsOf items := fun hmem => by
    obtain ⟨item, hitem, hkind⟩ := List.mem_map.mp hmem
    exact hend item hitem (hfaultless item hitem) hkind
  have hfirst : TokenStream.advance (Playback.ofItems file items) = _ :=
    Playback.advance_eq (Item.eof ⟨0, file⟩) (Item.stopOf file items) hfaultless.head
  have hlast : TokenStream.advance (Playback.reading [] (Item.stopOf file items)) = _ :=
    Playback.advance_of_nil rfl
  have hspelled := Spelling.spelled_of_parse hfirst
    (Playback.trail_atFirst file hfaultless hkinds) hlast h
  have hprints := hspelled.prints
  rw [printsFrom_map, List.forall₂_map_left_iff] at hprints
  simp only [Item.kind_symbol] at hprints
  have hwrites : List.Forall₂ (Writes file) (Item.prints items) program.statements := by
    have hmembers := (List.forall₂_and_left _ _).mpr
      ⟨fun behind (hmem : behind ∈ printsFrom (·.token.kind) 0 items) =>
        isSuffix_of_mem_printsFrom hmem, hprints⟩
    refine hmembers.imp fun behind statement hboth => ?_
    obtain ⟨⟨before, hitems⟩, hwrote⟩ := hboth
    rw [← hitems] at hfaultless hkinds
    exact writes_of_wrote file hfaultless.right
      (fun hmem => hkinds (kindsOf_append before behind ▸ List.mem_append_right _ hmem)) hwrote
  exact ⟨hwrites.length_eq.symm, hwrites⟩

/-- A print statement in a condition is dropped, and the one behind it is retained. -/
theorem one_print_of_two :
    ∃ items program rest, kindsOf items = [.ifWord, .openParen, .number, .closeParen, .openCurly,
        .printWord, .openParen, .string, .closeParen, .semicolon, .closeCurly,
        .printWord, .openParen, .number, .closeParen, .semicolon] ∧
      parseStream (Playback.ofItems "" items) = .ok program rest ∧
      program.statements = [.write (.const 0)] ∧
      List.Forall₂ (Writes "") (Item.prints items) program.statements := by
  let items := [.ifWord, .openParen, .number, .closeParen, .openCurly, .printWord, .openParen,
    .string, .closeParen, .semicolon, .closeCurly, .printWord, .openParen, .number, .closeParen,
    .semicolon].map Item.bare
  have hparse : parseItems "" items = .ok ⟨[.write (.const 0)]⟩ := by decide +kernel
  unfold parseItems at hparse
  cases hrun : parseStream (Playback.ofItems "" items) with
  | error fault rest =>
    rw [hrun] at hparse
    cases hparse
  | ok program rest =>
    rw [hrun] at hparse
    cases hparse
    exact ⟨items, _, rest, rfl, hrun, rfl, (statements_of_prints (by decide) hrun).2⟩

end ScriptFront
