import ScriptFront.Proofs.Acceptance

/-!
# ScriptFront.Proofs.FirstFault

**A diagnostic of the parser is about the first token that is out of place.** The items before it
can be continued to a program, with it they cannot, and each kind that the diagnostic names could
stand in its place. The last point has one exception, where a primary is missing and as many levels
of nesting are open as there may be: an opening parenthesis is named there although it would be
refused in turn, as opening a level too many.
-/

namespace ScriptFront

open Grammar

variable {file : String} {before after : List Item} {item : Item}

/-- Some items can be continued so that they are accepted. -/
def Continuable (file : String) (items : List Item) : Prop :=
  ∃ more, Faultless more ∧ Accepted file (items ++ more)

theorem kindsOf_append (items more : List Item) :
    kindsOf (items ++ more) = kindsOf items ++ kindsOf more :=
  List.map_append

theorem kindsOf_bare (kinds : List Kind) : kindsOf (kinds.map Item.bare) = kinds := by
  induction kinds with
  | nil => rfl
  | cons kind kinds ih =>
    show kind :: kindsOf (kinds.map Item.bare) = kind :: kinds
    rw [ih]

theorem faultless_bare (kinds : List Kind) : Faultless (kinds.map Item.bare) := by
  intro item hitem
  obtain ⟨kind, -, rfl⟩ := List.mem_map.mp hitem
  rfl

theorem Faultless.append {items more : List Item} (h : Faultless items) (h' : Faultless more) :
    Faultless (items ++ more) := by
  intro item hitem
  rcases List.mem_append.mp hitem with hitem | hitem
  · exact h item hitem
  · exact h' item hitem

/-- What can be continued to a program can be continued so that it is accepted. -/
theorem continuable_of_viable {items : List Item} (h : Faultless items)
    (hviable : Viable (Syntax.program maxDepth) (kindsOf items)) : Continuable file items := by
  obtain ⟨v, hv⟩ := hviable
  refine ⟨v.map Item.bare, faultless_bare v,
    accepted_of_program file (h.append (faultless_bare v)) ?_⟩
  rw [kindsOf_append, kindsOf_bare]
  exact hv

theorem Faultless.singleton (h : item.fault = none) : Faultless [item] := by
  intro other hother
  rw [List.mem_singleton.mp hother]
  exact h

/-- An item that the program stops at is not accepted, whatever comes behind it. -/
theorem parseStream_at_item (h : Faultless before) (hend : .eof ∉ kindsOf before)
    (hitem : item.fault = none) {expected : List Kind}
    (hstops : Stops programBody 0 (kindsOf before) item.token.kind expected) (more : List Item) :
    ∃ rest, parseStream (Playback.ofItems file (before ++ item :: more)) =
      .error (item.unexpected expected) rest := by
  have hhead : FaultlessHead (item :: more) := fun other hother => by
    obtain rfl : item = other := Option.some.inj hother
    exact hitem
  exact ⟨_, parseStream_of_stops h hhead hend hstops⟩

theorem not_accepted_of_stops (h : Faultless before) (hend : .eof ∉ kindsOf before)
    (hitem : item.fault = none) {expected : List Kind}
    (hstops : Stops programBody 0 (kindsOf before) item.token.kind expected) (more : List Item) :
    ¬ Accepted file (before ++ item :: more) := by
  intro haccepted
  obtain ⟨program, rest, haccepted⟩ := haccepted
  obtain ⟨rest', hmore⟩ := parseStream_at_item h hend hitem hstops more
  rw [haccepted] at hmore
  cases hmore

/-- The items `before` are in place, the one behind them is not, and kinds that are expected could
stand there instead. -/
structure FirstFault (file : String) (before after : List Item) (expected : List Kind) : Prop where
  /-- What comes before can be continued. -/
  before_continuable : Continuable file before
  /-- With the item it cannot. -/
  behind_refused : ∀ more, ¬ Accepted file (before ++ Item.behind file before after :: more)
  /-- With an item of an expected kind it can, unless that would open a level too many. -/
  expected_continuable : ∀ item, item.fault = none → item.token.kind ∈ expected →
    Continuable file (before ++ [item]) ∨
      item.token.kind = .openParen ∧ expected = [.number, .identifier, .openParen] ∧
        ∀ more, ∃ rest, parseStream (Playback.ofItems file (before ++ item :: more)) =
          .error (item.unexpected []) rest

theorem Item.fault_behind (h : Faultless (before ++ after)) :
    (Item.behind file before after).fault = none := by
  cases after with
  | nil => rfl
  | cons item after => exact h.right item List.mem_cons_self

/-- The parser has stopped where the program does. -/
theorem eq_of_stops (h : Faultless (before ++ after)) (hend : .eof ∉ kindsOf before)
    {expected : List Kind} {fault : Diagnostic} {rest : Playback}
    (hstops : Stops programBody 0 (kindsOf before) (Item.behind file before after).token.kind
      expected)
    (herror : parseStream (Playback.ofItems file (before ++ after)) = .error fault rest) :
    fault = (Item.behind file before after).unexpected expected ∧
      rest = Playback.reading after (Item.stopOf file (before ++ after)) := by
  rw [parseStream_of_stops h.left h.right.head hend hstops] at herror
  injection herror with hfault hrest
  exact ⟨hfault.symm, hrest.symm⟩

/-- Where a program has been read and something comes behind it, only the end could have. -/
theorem firstFault_of_reads (h : Faultless (before ++ after)) (hend : .eof ∉ kindsOf before)
    (hnext : (Item.behind file before after).token.kind ≠ .eof)
    (hprogram : kindsOf before ∈ Syntax.program maxDepth)
    (hreads : Reads wholeSequence 0 (kindsOf before)
      (Item.behind file before after).token.kind Any) :
    FirstFault file before after [.eof] where
  before_continuable := by
    refine ⟨[], fun _ hitem => absurd hitem List.not_mem_nil, ?_⟩
    rw [List.append_nil]
    exact accepted_of_program file h.left hprogram
  behind_refused :=
    not_accepted_of_stops h.left hend (Item.fault_behind h) (stops_programBody hnext hreads)
  expected_continuable item hitem hkind := by
    -- an item of the kind of the end does end the program
    refine .inl ⟨[], fun _ hother => absurd hother List.not_mem_nil, ?_⟩
    rw [List.append_nil]
    exact accepted_of_reads (h.left.append (.singleton hitem)) hend (List.mem_singleton.mp hkind)
      (accords_wholeSequence.reads hprogram ⟨rfl, by decide⟩ ())

/-- Where the statements stop, the kinds that they offer are in place. -/
theorem firstFault_of_stops (h : Faultless (before ++ after)) (hend : .eof ∉ kindsOf before)
    {expected : List Kind}
    (hstops : Stops wholeSequence 0 (kindsOf before) (Item.behind file before after).token.kind
      expected)
    (hviable : Viable (Syntax.program maxDepth) (kindsOf before))
    (hoffers : Offers 0 (Syntax.program maxDepth) (fun _ : Unit => wholeSequence)
      (kindsOf before) expected) : FirstFault file before after expected where
  before_continuable := continuable_of_viable h.left hviable
  behind_refused := not_accepted_of_stops h.left hend (Item.fault_behind h) hstops.bind_left
  expected_continuable item hitem hkind := by
    rcases hoffers _ hkind with hoffer | ⟨hparen, hprimary, hdeep⟩
    · left
      refine continuable_of_viable (h.left.append (.singleton hitem)) ?_
      rw [kindsOf_append]
      exact hoffer
    · refine .inr ⟨hparen, hprimary, fun more => ?_⟩
      refine parseStream_at_item h.left hend hitem ?_ more
      rw [hparen]
      exact (hdeep ()).bind_left

/-- **A fault is found at the first token that is out of place**, and the kinds that are said to
be expected there would all have been in place, but for the one exception. -/
theorem error_at_first_fault {items : List Item} (h : Faultless items) {fault : Diagnostic}
    {rest : Playback}
    (herror : parseStream (Playback.ofItems file items) = .error fault rest) :
    ∃ before after expected, items = before ++ after ∧ .eof ∉ kindsOf before ∧
      fault = (Item.behind file before after).unexpected expected ∧
      rest = Playback.reading after (Item.stopOf file items) ∧
      FirstFault file before after expected := by
  obtain ⟨before, after, rfl, hend, hverdict⟩ := exists_verdict items
  rw [← first_kind after (Item.stopOf file (before ++ after))] at hverdict
  cases hverdict with
  | reads hprogram hreads =>
    -- had the end come next, the items would have been accepted
    have hnext : (Item.behind file before after).token.kind ≠ .eof := by
      intro heq
      rw [heq] at hreads
      obtain ⟨program, rest', haccepted⟩ := accepted_of_reads h hend heq hreads
      rw [herror] at haccepted
      cases haccepted
    obtain ⟨hfault, hrest⟩ := eq_of_stops h hend (stops_programBody hnext hreads) herror
    exact ⟨before, after, [.eof], rfl, hend, hfault, hrest,
      firstFault_of_reads h hend hnext hprogram hreads⟩
  | stops expected hstops hviable hoffers =>
    obtain ⟨hfault, hrest⟩ := eq_of_stops h hend hstops.bind_left herror
    exact ⟨before, after, expected, rfl, hend, hfault, hrest,
      firstFault_of_stops h hend hstops hviable hoffers⟩

/-- A parenthesis that is not closed is found at the end, where its counterpart is expected. -/
theorem first_fault_of_unclosed :
    FirstFault "" ([.printWord, .openParen, .number].map Item.bare) [] [.closeParen] := by
  have hrun : ∃ fault rest, parseStream (Playback.ofItems ""
      ([.printWord, .openParen, .number].map Item.bare)) = .error fault rest ∧
      fault.cause = .unexpected [.closeParen] ∧ rest.current.token.kind = .eof :=
    ⟨_, _, rfl, rfl, rfl⟩
  obtain ⟨fault, rest, herror, hcause, hkind⟩ := hrun
  obtain ⟨before, after, expected, hitems, -, rfl, rfl, hfirst⟩ :=
    error_at_first_fault (faultless_bare [.printWord, .openParen, .number]) herror
  obtain rfl : expected = [.closeParen] := Cause.unexpected.inj hcause
  cases after with
  | nil =>
    rw [hitems, List.append_nil]
    exact hfirst
  | cons item after =>
    -- the end is in view, and none of the items is one
    have hnone : ∀ item ∈ [.printWord, .openParen, .number].map Item.bare,
        item.token.kind ≠ .eof := by decide
    exact absurd hkind (hnone item (by simp [hitems]))

end ScriptFront
