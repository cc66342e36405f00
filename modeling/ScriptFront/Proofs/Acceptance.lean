import ScriptFront.Proofs.Conformity.Statement
import ScriptFront.Token.Playback

/-!
# ScriptFront.Proofs.Acceptance

**What the parser does with a list of tokens**, none of which is a failure. The list is split at
the token where the parser comes to a decision. It accepts if that is the end and the tokens before
are a program of the syntax; otherwise it stops there, with that token in the diagnostic.
-/

namespace ScriptFront

open Grammar

/-- No item stands for a failure. -/
def Faultless (items : List Item) : Prop :=
  ∀ item ∈ items, item.fault = none

/-- The item that comes next, if there is one, is no failure. -/
def FaultlessHead (items : List Item) : Prop :=
  ∀ item ∈ items.head?, item.fault = none

theorem Faultless.head {items : List Item} (h : Faultless items) : FaultlessHead items :=
  fun item hitem => h item (List.mem_of_mem_head? hitem)

theorem Faultless.head_append {before after : List Item} (h : Faultless before)
    (hnext : FaultlessHead after) : FaultlessHead (before ++ after) := by
  cases before with
  | nil => exact hnext
  | cons first before =>
    intro item hitem
    obtain rfl : first = item := Option.some.inj hitem
    exact h _ List.mem_cons_self

theorem Faultless.left {before after : List Item} (h : Faultless (before ++ after)) :
    Faultless before :=
  fun item hitem => h item (List.mem_append_left _ hitem)

theorem Faultless.right {before after : List Item} (h : Faultless (before ++ after)) :
    Faultless after :=
  fun item hitem => h item (List.mem_append_right _ hitem)

/-- The kinds of some items. -/
def kindsOf (items : List Item) : List Kind :=
  items.map (·.token.kind)

/-- The first of some items, or the end behind them. -/
def Item.first (items : List Item) (stop : Position) : Item :=
  items.headD (Item.eof stop)

/-- The diagnostic that an item is none of those that are expected. -/
def Item.unexpected (item : Item) (expected : List Kind) : Diagnostic where
  cause := .unexpected expected
  text := item.token.text
  position := item.token.span.start
  location := item.location

namespace Playback

/-- A list of which the first item has just been read, or its end. -/
def reading (items : List Item) (stop : Position) : Playback where
  current := Item.first items stop
  unread := items.tail
  stop := stop

/-- A step leads to the next item if that is no failure. -/
theorem advance_eq (current : Item) {items : List Item} (stop : Position)
    (h : FaultlessHead items) :
    TokenStream.advance (⟨current, items, stop⟩ : Playback) =
      .ok (Item.first items stop).token.kind (reading items stop) := by
  cases items with
  | nil => rfl
  | cons item rest =>
    have hitem : item.diagnostic? = none := by
      unfold Item.diagnostic?
      rw [h item rfl]
      rfl
    show Playback.advance _ = _
    unfold Playback.advance
    simp only [hitem]
    rfl

/-- The items before the first end are yielded one after the other. Behind the item that is then
in view there may be failures. -/
theorem walk_reading {before after : List Item} (stop : Position) (h : Faultless before)
    (hnext : FaultlessHead after) (hend : .eof ∉ kindsOf before) :
    Walk (kindsOf before) (reading (before ++ after) stop)
      (Item.first (before ++ after) stop).token.kind (reading after stop)
      (Item.first after stop).token.kind := by
  induction before with
  | nil => exact ⟨rfl, rfl⟩
  | cons item before ih =>
    have hrest : Faultless before := fun other hother => h other (List.mem_cons_of_mem _ hother)
    refine ⟨rfl, fun heq => hend ?_, _, _, advance_eq item stop (hrest.head_append hnext), ?_⟩
    · rw [← heq]
      exact List.mem_cons_self
    · exact ih hrest fun hmem => hend (List.mem_cons_of_mem _ hmem)

end Playback

/-! ### A whole parse -/

variable {file : String} {before after items : List Item}

/-- Where a list of items ends. -/
def Item.stopOf (file : String) (items : List Item) : Position :=
  ⟨items.length.toUInt32, file⟩

/-- The item behind some of the items of a list. -/
abbrev Item.behind (file : String) (before after : List Item) : Item :=
  Item.first after (Item.stopOf file (before ++ after))

/-- The parser with the first item in view. -/
def Parser.atFirst (file : String) (items : List Item) : Parser Playback where
  stream := Playback.reading items (Item.stopOf file items)
  lookahead := (Item.first items (Item.stopOf file items)).token.kind

/-- The statements of a program. -/
abbrev wholeSequence : Rule Playback (List Statement) :=
  Grammar.sequence (Inner.whole (some maxDepth))

/-- What is done once the first token is in view. -/
def programBody : Rule Playback Program := do
  let statements ← wholeSequence
  Rule.expect .eof
  return ⟨statements⟩

theorem program_eq (h : FaultlessHead items) :
    Grammar.program (some maxDepth) { stream := Playback.ofItems file items } =
      programBody (Parser.atFirst file items) := by
  have hadvance := Playback.advance_eq (Item.eof ⟨0, file⟩) (Item.stopOf file items) h
  have hfirst : Rule.consume ({ stream := Playback.ofItems file items } : Parser Playback) =
      .ok () (Parser.atFirst file items) := by
    unfold Rule.consume Rule.advance
    simp only [Bind.bind, EStateM.bind]
    rw [show Playback.ofItems file items = ⟨Item.eof ⟨0, file⟩, items, Item.stopOf file items⟩
      from rfl, hadvance]
    rfl
  unfold Grammar.program
  rw [show closed (some maxDepth) Grammar.sequence = wholeSequence from
    whole_sequence (some maxDepth)]
  show (Rule.consume >>= fun _ => programBody) _ = _
  simp only [Bind.bind, EStateM.bind]
  rw [hfirst]

/-- The items are accepted as a program. -/
def Accepted (file : String) (items : List Item) : Prop :=
  ∃ program rest, parseStream (Playback.ofItems file items) = .ok program rest

/-- Where the statements are read up to the end, the items are accepted. -/
theorem accepted_of_reads (h : Faultless (before ++ after)) (hend : .eof ∉ kindsOf before)
    (hafter : (Item.behind file before after).token.kind = .eof)
    (hread : Reads wholeSequence 0 (kindsOf before) .eof Any) :
    Accepted file (before ++ after) := by
  have hwalk := Playback.walk_reading (Item.stopOf file (before ++ after)) h.left h.right.head hend
  rw [hafter] at hwalk
  obtain ⟨statements, p, hrun, -, hstream, hlook, -⟩ :=
    hread (Parser.atFirst file (before ++ after)) _ rfl hwalk
  have htail : Faultless after.tail := fun item hitem => h.right item (List.mem_of_mem_tail hitem)
  have hadvance := Playback.advance_eq (Item.behind file before after)
    (Item.stopOf file (before ++ after)) htail.head
  have hbody : ∃ program p', programBody (Parser.atFirst file (before ++ after)) =
      .ok program p' := by
    unfold programBody Rule.expect Rule.consume Rule.advance
    simp only [Bind.bind, EStateM.bind, hrun, Rule.lookahead, hlook, if_true, hstream,
      Playback.reading, hadvance]
    exact ⟨_, _, rfl⟩
  obtain ⟨program, p', hbody⟩ := hbody
  refine ⟨program, p'.stream, ?_⟩
  unfold parseStream
  rw [program_eq h.head, hbody]

/-- Where the program stops, so does the parser. -/
theorem parseStream_of_stops (h : Faultless before) (hnext : FaultlessHead after)
    (hend : .eof ∉ kindsOf before) {expected : List Kind}
    (hstop : Stops programBody 0 (kindsOf before) (Item.behind file before after).token.kind
      expected) :
    parseStream (Playback.ofItems file (before ++ after)) =
      .error ((Item.behind file before after).unexpected expected)
        (Playback.reading after (Item.stopOf file (before ++ after))) := by
  have hwalk := Playback.walk_reading (Item.stopOf file (before ++ after)) h hnext hend
  obtain ⟨p, hbody, hstream, -⟩ := hstop (Parser.atFirst file (before ++ after)) _ rfl hwalk
  unfold parseStream
  rw [program_eq (h.head_append hnext), hbody]
  unfold Parser.unexpected Parser.current
  simp only [hstream]
  rfl

/-- A program does not end before another token. -/
theorem stops_programBody {w : List Kind} {next : Kind} (hnext : next ≠ .eof)
    (hread : Reads wholeSequence 0 w next Any) : Stops programBody 0 w next [.eof] := by
  rw [← List.append_nil w]
  exact Stops.bind_right hread fun _ _ => (Stops.expect hnext).bind_left

/-! ### The decision -/

/-- The statements of a program accord with the syntax. -/
theorem accords_wholeSequence : Accords 0 (Syntax.program maxDepth) EndsSequence Any
    fun _ : Unit => wholeSequence :=
  accords_sequence (innerAccords maxDepth 0 (Nat.zero_add _))

theorem first_kind (items : List Item) (stop : Position) :
    (Item.first items stop).token.kind = (kindsOf items).headD .eof := by
  cases items <;> rfl

/-- A list of kinds is cut before its first end. -/
theorem exists_cut (kinds : List Kind) :
    ∃ x y, kinds = x ++ y ∧ .eof ∉ x ∧ y.headD .eof = .eof := by
  induction kinds with
  | nil => exact ⟨[], [], rfl, List.not_mem_nil, rfl⟩
  | cons kind kinds ih =>
    by_cases hkind : kind = .eof
    · exact ⟨[], kind :: kinds, rfl, List.not_mem_nil, hkind⟩
    · obtain ⟨x, y, rfl, hx, hy⟩ := ih
      refine ⟨kind :: x, y, rfl, fun hmem => ?_, hy⟩
      rcases List.mem_cons.mp hmem with heq | hmem
      · exact hkind heq.symm
      · exact hx hmem

/-- What the statements of a program do with some items: either they read those before the one in
question, or they stop at it. -/
inductive Verdict (before : List Item) (next : Kind) : Prop
  | reads (hprogram : kindsOf before ∈ Syntax.program maxDepth)
      (hreads : Reads wholeSequence 0 (kindsOf before) next Any)
  | stops (expected : List Kind)
      (hstops : Stops wholeSequence 0 (kindsOf before) next expected)
      (hviable : Viable (Syntax.program maxDepth) (kindsOf before))
      (hoffers : Offers 0 (Syntax.program maxDepth) (fun _ : Unit => wholeSequence)
        (kindsOf before) expected)

/-- A list can be split at the item in question. What stands behind its first end plays no
part. -/
theorem exists_verdict (items : List Item) :
    ∃ before after, items = before ++ after ∧ .eof ∉ kindsOf before ∧
      Verdict before ((kindsOf after).headD .eof) := by
  obtain ⟨x, y, hxy, hx, hy⟩ := exists_cut (kindsOf items)
  -- what is decided of the kinds before the first end is carried over to the items
  have hsplit (w z : List Kind) (hwz : x = w ++ z) : ∃ before after, items = before ++ after ∧
      kindsOf before = w ∧ (kindsOf after).headD .eof = z.headD .eof := by
    rw [hwz, List.append_assoc] at hxy
    obtain ⟨before, after, hitems, hbefore, hafter⟩ := List.map_eq_append_iff.mp hxy
    refine ⟨before, after, hitems, hbefore, ?_⟩
    show (after.map _).headD _ = _
    rw [hafter, headD_append, hy]
  have hleft {w z : List Kind} (hwz : x = w ++ z) : .eof ∉ w := by
    rw [hwz] at hx
    exact fun hmem => hx (List.mem_append_left z hmem)
  cases accords_wholeSequence.decides x hx with
  | reads w z hwz hw hreads =>
    obtain ⟨before, after, hitems, rfl, hnext⟩ := hsplit w z hwz
    rw [← hnext] at hreads
    exact ⟨before, after, hitems, hleft hwz, .reads hw (hreads ())⟩
  | stops w z expected hwz hstops hviable hoffers =>
    obtain ⟨before, after, hitems, rfl, hnext⟩ := hsplit w z hwz
    rw [← hnext] at hstops
    exact ⟨before, after, hitems, hleft hwz, .stops expected (hstops ()) hviable hoffers⟩

/-- What is a program of the syntax is accepted. -/
theorem accepted_of_program (file : String) {items : List Item} (h : Faultless items)
    (hprogram : kindsOf items ∈ Syntax.program maxDepth) : Accepted file items := by
  have hend := Syntax.endless_program maxDepth _ hprogram
  have hreads : Reads wholeSequence 0 (kindsOf items) .eof Any :=
    accords_wholeSequence.reads hprogram ⟨rfl, by decide⟩ ()
  rw [← List.append_nil items] at h ⊢
  exact accepted_of_reads h hend rfl hreads

/-- **The parser accepts exactly the programs of the syntax**, whatever else the tokens carry with
them. -/
theorem accepted_iff_program (file : String) {items : List Item} (h : Faultless items)
    (hend : .eof ∉ kindsOf items) :
    Accepted file items ↔ kindsOf items ∈ Syntax.program maxDepth := by
  refine ⟨fun haccepted => ?_, accepted_of_program file h⟩
  obtain ⟨program, rest, haccepted⟩ := haccepted
  obtain ⟨before, after, rfl, hbefore, hverdict⟩ := exists_verdict items
  rw [← first_kind after (Item.stopOf file (before ++ after))] at hverdict
  cases hverdict with
  | reads hprogram hreads =>
    cases after with
    | nil =>
      rw [List.append_nil]
      exact hprogram
    | cons item after =>
      -- with no end among the items, another token stands in the place of the end
      have hitem : item.token.kind ≠ .eof := fun heq => hend (by
        rw [← heq]
        exact List.mem_map_of_mem (List.mem_append_right _ List.mem_cons_self))
      have hstops := stops_programBody hitem hreads
      rw [parseStream_of_stops h.left h.right.head hbefore hstops] at haccepted
      cases haccepted
  | stops expected hstops _ _ =>
    rw [parseStream_of_stops h.left h.right.head hbefore hstops.bind_left] at haccepted
    cases haccepted

/-- An item of a kind that carries nothing else. -/
def Item.bare (kind : Kind) : Item :=
  { Item.eof Position.nowhere with token := { Token.eof Position.nowhere with kind := kind } }

/-- A print statement is accepted, and so it is a program. -/
theorem printing_program :
    Accepted "" ([.printWord, .openParen, .number, .closeParen, .semicolon].map Item.bare) ∧
      [.printWord, .openParen, .number, .closeParen, .semicolon] ∈ Syntax.program maxDepth := by
  have haccepted : Accepted ""
      ([.printWord, .openParen, .number, .closeParen, .semicolon].map Item.bare) := ⟨_, _, rfl⟩
  exact ⟨haccepted, (accepted_iff_program "" (by unfold Faultless; decide) (by decide)).mp haccepted⟩

end ScriptFront
