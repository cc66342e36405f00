import ScriptFront.Proofs.Spelling

/-!
# ScriptFront.Proofs.Retained

**Which symbols spell which statements**, and what the parser makes of a whole stream of them. A
print statement is retained with the tree of its value; every other statement is one of the syntax,
and nothing of it is retained.

* The statements of a sequence are returned in their order (`yields_sequence`).
* A stream is parsed exactly if its symbols are a program of the syntax, and then to the statements
  that they spell (`spelled_of_parse`, `parse_of_spelled`).
-/

namespace ScriptFront

open Grammar
open scoped Computability

namespace Syntax

/-- The statements of which nothing is retained. -/
def dropped (within : Within) : Phrase :=
  loop within + condition within + functionDeclaration within + variableDeclaration within +
    assignmentOrCall within

theorem statement_eq (within : Within) : statement within = printing within + dropped within := by
  unfold statement dropped
  ac_rfl

end Syntax

namespace Spelling

/-- The symbols of one statement, with the statement that is retained of it, if any. So many levels
may be open at once. -/
inductive Single (levels : Nat) : List Symbol → Option Statement → Prop
  | printing {word opening closing semicolon : Symbol} {w : List Symbol} {e : Expr}
      (hword : word.kind = .printWord) (hopening : opening.kind = .openParen)
      (hvalue : Value (inside levels) w e) (hclosing : closing.kind = .closeParen)
      (hsemicolon : semicolon.kind = .semicolon) :
      Single levels (word :: opening :: (w ++ [closing, semicolon])) (some (.write e))
  | dropped {w : List Symbol} (h : Symbol.kinds w ∈ Syntax.dropped (Syntax.within levels)) :
      Single levels w none

/-- The symbols of some statements, with those that are retained. -/
inductive Sequence (levels : Nat) : List Symbol → List Statement → Prop
  | nil : Sequence levels [] []
  | cons {w v : List Symbol} {found : Option Statement} {statements : List Statement}
      (hfirst : Single levels w found) (hrest : Sequence levels v statements) :
      Sequence levels (w ++ v) (found.toList ++ statements)

variable {levels : Nat} {w v : List Symbol} {statements more : List Statement}

theorem Sequence.append (h : Sequence levels w statements) (h' : Sequence levels v more) :
    Sequence levels (w ++ v) (statements ++ more) := by
  induction h with
  | nil => exact h'
  | cons hfirst _ ih =>
    rw [List.append_assoc, List.append_assoc]
    exact .cons hfirst ih

/-- A statement of the syntax is spelled. -/
theorem exists_single (h : Symbol.kinds w ∈ Syntax.statement (Syntax.within levels)) :
    ∃ found, Single levels w found := by
  rw [Syntax.statement_eq] at h
  rcases h with h | h
  · simp only [Syntax.printing, mul_assoc] at h
    obtain ⟨word, v, rfl, hword, hv⟩ := exists_cons h
    obtain ⟨opening, u, rfl, hopening, hu⟩ := exists_cons hv
    obtain ⟨w, t, rfl, hw, ht⟩ := exists_append hu
    obtain ⟨closing, s, rfl, hclosing, hs⟩ := exists_cons ht
    obtain ⟨semicolon, rfl, hsemicolon⟩ := exists_symbol hs
    obtain ⟨e, he⟩ := exists_value levels hw
    exact ⟨_, .printing hword hopening he hclosing hsemicolon⟩
  · exact ⟨none, .dropped h⟩

/-- A program of the syntax is spelled. -/
theorem exists_sequence (h : Symbol.kinds w ∈ Syntax.program levels) :
    ∃ statements, Sequence levels w statements := by
  obtain ⟨parts, rfl, hparts⟩ := exists_flatten h
  clear h
  induction parts with
  | nil => exact ⟨[], .nil⟩
  | cons part parts ih =>
    obtain ⟨hpart, hparts⟩ := List.forall_mem_cons.mp hparts
    obtain ⟨found, hfirst⟩ := exists_single hpart
    obtain ⟨statements, hsequence⟩ := ih hparts
    exact ⟨_, .cons hfirst hsequence⟩

/-! ### What is spelled is returned -/

section Yields

variable {σ : Type} [TokenStream σ] [LawfulTokenStream σ] {limit d : Nat} {next : Kind}
  {found : Option Statement}

/-- The rules at `d` open levels return what is spelled there and accord with the syntax. -/
theorem yields_printing {word opening closing semicolon : Symbol} {e : Expr} {inside : Spelling}
    (h : InnerYields σ limit d inside) (hword : word.kind = .printWord)
    (hopening : opening.kind = .openParen) (hvalue : Value inside w e)
    (hclosing : closing.kind = .closeParen) (hsemicolon : semicolon.kind = .semicolon) :
    Yields (printing (Inner.whole (some limit) : Inner σ)) (.write e) d
      (word :: opening :: (w ++ [closing, semicolon])) next := by
  have hends : EndsExpression ((Symbol.kinds [closing, semicolon]).headD next) := by
    rw [Symbol.kinds_cons, List.headD_cons, hclosing]
    rfl
  refine Leads.expect hword (Leads.expect hopening ?_)
  refine Yields.bind (yields_value h hvalue hends) ?_
  exact Leads.expect hclosing (Leads.expect hsemicolon Leads.refl)

/-- Nothing is retained of a statement that is not a print statement. -/
theorem reads_dropped {within : Syntax.Within} (h : InnerAccords σ limit d within) {w : List Kind}
    (hw : w ∈ Syntax.dropped within) (hnext : EndsCondition next) :
    Reads (statement (Inner.whole (some limit) : Inner σ)) d w next (· = none) := by
  refine Reads.look ?_
  rcases hw with (((hw | hw) | hw) | hw) | hw
  · rw [(begins_loop within).headD hw next]
    exact Reads.bind_pure ((accords_loop h).reads hw trivial ()) fun _ _ => rfl
  · rw [(begins_condition within).headD hw next]
    exact Reads.bind_pure (reads_condition h hw hnext) fun _ _ => rfl
  · rw [(begins_functionDeclaration within).headD hw next]
    exact Reads.bind_pure ((accords_functionDeclaration h).reads hw trivial ()) fun _ _ => rfl
  · rw [(begins_variableDeclaration within).headD hw next]
    exact Reads.bind_pure ((accords_variableDeclaration h).reads hw trivial ()) fun _ _ => rfl
  · rw [(begins_assignmentOrCall within).headD hw next]
    exact Reads.bind_pure ((accords_assignmentOrCall h).reads hw trivial ()) fun _ _ => rfl

theorem yields_single (hd : d + levels = limit) (h : Single levels w found)
    (hnext : EndsCondition next) :
    Yields (statement (Inner.whole (some limit) : Inner σ)) found d w next := by
  cases h with
  | @printing word opening closing semicolon w e hword hopening hvalue hclosing hsemicolon =>
    apply Leads.look
    rw [Symbol.kinds_cons, List.headD_cons, hword]
    show Yields (some <$> printing (Inner.whole (some limit))) _ _ _ _
    rw [map_eq_pure_bind]
    exact Yields.bind_pure
      (yields_printing (innerYields levels d hd) hword hopening hvalue hclosing hsemicolon)
  | dropped hdropped =>
    exact Yields.of_reads (reads_dropped (innerAccords levels d hd) hdropped hnext)

/-- A statement begins with a kind that tells it. -/
theorem Single.startsStatement (h : Single levels w found) (next : Kind) :
    ((Symbol.kinds w).headD next).startsStatement = true := by
  cases h with
  | printing hword =>
    rw [Symbol.kinds_cons, List.headD_cons, hword]
    rfl
  | dropped hdropped =>
    refine (begins_statement (Syntax.within levels)).headD ?_ next
    rw [Syntax.statement_eq]
    exact .inr hdropped

/-- What comes behind a statement does not carry it on. -/
theorem Sequence.endsCondition (h : Sequence levels w statements) (hnext : EndsCondition next) :
    EndsCondition ((Symbol.kinds w).headD next) := by
  cases h with
  | nil => exact hnext
  | @cons w v found _ hfirst _ =>
    have hstart := hfirst.startsStatement ((Symbol.kinds v).headD next)
    rw [← headD_append, ← Symbol.kinds_append] at hstart
    intro heq
    rw [heq] at hstart
    exact Bool.false_ne_true hstart

/-- Some statements lead a loop from those before to those with them. By induction on the
statements. -/
theorem leads_sequence (hd : d + levels = limit) (h : Sequence levels w statements)
    (hnext : EndsCondition next) :
    ∀ retained, Leads (Rule.many (sequenceStep (Inner.whole (some limit) : Inner σ)) retained)
      (Rule.many (sequenceStep (Inner.whole (some limit))) (retained ++ statements)) d w next := by
  induction h with
  | nil =>
    intro retained
    rw [List.append_nil]
    exact Leads.refl
  | @cons w v found statements hfirst hrest ih =>
    intro retained
    have hbetween := hrest.endsCondition hnext
    have hstep : Yields (sequenceStep (Inner.whole (some limit) : Inner σ) retained)
        (some (retained ++ found.toList)) d w ((Symbol.kinds v).headD next) := by
      apply Leads.look
      rw [if_pos (hfirst.startsStatement _)]
      exact (yields_single hd hfirst hbetween).bind_pure
    rw [loop_sequenceStep.many_eq retained, ← List.append_assoc]
    exact Yields.bind hstep (ih (retained ++ found.toList))

theorem yields_sequence (hd : d + levels = limit) (h : Sequence levels w statements)
    (hnext : EndsSequence next) :
    Yields (Grammar.sequence (Inner.whole (some limit) : Inner σ)) statements d w next := by
  have hdone : Yields (Rule.many (sequenceStep (Inner.whole (some limit) : Inner σ)) statements)
      statements d [] next := by
    have hstep : Yields (sequenceStep (Inner.whole (some limit) : Inner σ) statements) none d []
        next := by
      apply Leads.look
      rw [Symbol.kinds_nil, List.headD_nil, if_neg (by simp [hnext.1])]
      exact Leads.refl
    rw [loop_sequenceStep.many_eq statements]
    exact Leads.bind hstep
  rw [← List.append_nil w]
  exact Leads.trans (leads_sequence hd h hnext.2 []) hdone

end Yields

/-! ### Whole streams -/

section Stream

variable {σ : Type} [TokenStream σ] {first start stop rest : σ} {kind : Kind}

/-- What is done once the first token is in view. -/
def afterFirst : Rule σ Program := do
  let statements ← Grammar.sequence (Inner.whole (some maxDepth))
  Rule.expect .eof
  return ⟨statements⟩

variable [LawfulTokenStream σ]

/-- To parse a stream is to bring its first token into view and to go on from there. -/
theorem parseStream_eq (hfirst : TokenStream.advance first = .ok kind start) :
    parseStream first =
      match afterFirst { stream := start, lookahead := kind } with
      | .ok program parser => .ok program parser.stream
      | .error fault parser => .error fault parser.stream := by
  have hconsume : Rule.consume ({ stream := first } : Parser σ) =
      .ok () { stream := start, lookahead := kind } := by
    simp only [Rule.consume, Rule.advance, hfirst, Bind.bind, EStateM.bind]
    rfl
  have hprogram : Grammar.program (some maxDepth) { stream := first } =
      afterFirst { stream := start, lookahead := kind } := by
    unfold Grammar.program
    rw [show closed (some maxDepth) Grammar.sequence =
      (Grammar.sequence (Inner.whole (some maxDepth)) : Rule σ (List Statement)) from
        whole_sequence (some maxDepth)]
    show (Rule.consume >>= fun _ => afterFirst) _ = _
    simp only [Bind.bind, EStateM.bind, hconsume]
  have hrun : parseStream first =
      match Grammar.program (some maxDepth) { stream := first } with
      | .ok program parser => .ok program parser.stream
      | .error fault parser => .error fault parser.stream := rfl
  rw [hrun, hprogram]

/-- Symbols that spell some statements are parsed to these. -/
theorem parse_of_spelled (hfirst : TokenStream.advance first = .ok kind start)
    (htrail : Trail w start kind stop .eof) {last : Kind}
    (hlast : TokenStream.advance stop = .ok last rest) (h : Sequence maxDepth w statements) :
    parseStream first = .ok ⟨statements⟩ rest := by
  have hyields : Yields (Grammar.sequence (Inner.whole (some maxDepth) : Inner σ)) statements 0 w
      .eof := yields_sequence (Nat.zero_add _) h ⟨rfl, by decide⟩
  obtain ⟨p, hrun, hstream, hlook, -⟩ :=
    hyields { stream := start, lookahead := kind } stop rfl htrail
  have hafter : afterFirst ({ stream := start, lookahead := kind } : Parser σ) =
      .ok ⟨statements⟩ { p with stream := rest, lookahead := last } := by
    unfold afterFirst Rule.expect Rule.consume Rule.advance
    simp only [Bind.bind, EStateM.bind, hrun, Pure.pure, EStateM.pure, Rule.lookahead, hlook,
      if_true, hstream, hlast]
  rw [parseStream_eq hfirst, hafter]

/-- Symbols of a stream that is parsed are a program of the syntax. -/
theorem program_of_parse (hfirst : TokenStream.advance first = .ok kind start)
    (htrail : Trail w start kind stop .eof) {program : Program}
    (h : parseStream first = .ok program rest) : Symbol.kinds w ∈ Syntax.program maxDepth := by
  have haccords : Accords 0 (Syntax.program maxDepth) EndsSequence Any
      fun _ : Unit => (Grammar.sequence (Inner.whole (some maxDepth)) : Rule σ (List Statement)) :=
    accords_sequence (innerAccords maxDepth 0 (Nat.zero_add _))
  rw [parseStream_eq hfirst] at h
  -- were they none, the parser would stop among them
  have hnone {w₁ w₂ : List Kind} {expected : List Kind} (hw : Symbol.kinds w = w₁ ++ w₂)
      (hstops : Stops (afterFirst : Rule σ Program) 0 w₁ (w₂.headD .eof) expected) : False := by
    have hwalk := htrail.walk
    rw [hw] at hwalk
    obtain ⟨s, kind', hwalk₁, hwalk₂⟩ := Walk.append.mp hwalk
    rw [hwalk₂.kind_eq] at hwalk₁
    obtain ⟨p, hrun, -⟩ := hstops { stream := start, lookahead := kind } s rfl hwalk₁
    rw [hrun] at h
    cases h
  cases haccords.decides (Symbol.kinds w) htrail.eof_notMem with
  | reads w₁ w₂ hw hmem hreads =>
    cases w₂ with
    | nil =>
      rw [List.append_nil] at hw
      exact hw ▸ hmem
    | cons next w₂ =>
      have hnext : next ≠ .eof := by
        rintro rfl
        exact htrail.eof_notMem (hw ▸ List.mem_append_right _ List.mem_cons_self)
      have hstops : Stops (afterFirst : Rule σ Program) 0 (w₁ ++ []) next [.eof] :=
        Stops.bind_right (hreads ()) fun _ _ => (Stops.expect hnext).bind_left
      rw [List.append_nil] at hstops
      exact (hnone hw hstops).elim
  | stops w₁ w₂ expected hw hstops _ _ => exact (hnone hw (hstops ()).bind_left).elim

/-- **A stream that is parsed spells the statements of its program.** -/
theorem spelled_of_parse (hfirst : TokenStream.advance first = .ok kind start)
    (htrail : Trail w start kind stop .eof) {last : Kind} {stop' : σ}
    (hlast : TokenStream.advance stop = .ok last stop') {program : Program}
    (h : parseStream first = .ok program rest) : Sequence maxDepth w program.statements := by
  obtain ⟨statements, hsequence⟩ := exists_sequence (program_of_parse hfirst htrail h)
  have hparse := parse_of_spelled hfirst htrail hlast hsequence
  rw [h] at hparse
  cases hparse
  exact hsequence

end Stream

end Spelling

end ScriptFront
