import ScriptFront.Proofs.Retained

/-!
# ScriptFront.Proofs.Nesting

**What opens a level too many is refused.** `Halts` says that a rule consumes given symbols and
refuses what comes behind them, with nothing expected in its place. That can only be a token that
would open a level, and it goes through every rule that has not been left yet, up to the whole
parse (`parse_of_halts`).
-/

namespace ScriptFront

open Grammar

variable {σ α β : Type} [TokenStream σ]

/-- At `d` open levels the rule consumes the symbols `w` and refuses what comes behind them, which
would open a level too many. -/
abbrev Halts (r : Rule σ α) (d : Nat) (w : List Symbol) (next : Kind) : Prop :=
  Leads r (Rule.fail []) d w next

variable {r : Rule σ α} {f : α → Rule σ β} {a : α} {d limit : Nat} {w v : List Symbol}
  {symbol : Symbol} {next : Kind}

theorem Halts.bind (h : Halts r d w next) : Halts (r >>= f) d w next :=
  Leads.bind h

theorem Halts.refused (hd : limit ≤ d) : Halts (Rule.nested (some limit) r) d [] next := by
  intro p s hp htrail
  obtain ⟨hs, hnext⟩ := htrail
  have hclosed : ((some limit).any (· ≤ p.depth)) = true := by simpa [hp] using hd
  refine ⟨p, ?_, hs, hnext, hp⟩
  simp only [Rule.nested, hclosed, if_true]

theorem Halts.nested (hd : d < limit) (h : Halts r (d + 1) w next) :
    Halts (Rule.nested (some limit) r) d w next := by
  intro p s hp htrail
  subst hp
  obtain ⟨p', hr, hs, hnext, hd'⟩ := h p.enter s rfl htrail
  have hopen : ((some limit).any (· ≤ p.depth)) = false := by simpa using hd
  refine ⟨p'.leave, ?_, hs, hnext, ?_⟩
  · simp only [Rule.nested, hopen, hr, Bool.false_eq_true, if_false]
    rfl
  · simp only [Parser.leave, hd', Nat.add_sub_cancel]

/-! ### Expressions -/

section Expression

variable {among : BinaryOp → Bool} {operand : Rule σ Expr} {op : BinaryOp} {l : Expr}

/-- An operand of a chain that is not the first. -/
theorem halts_chain (hloop : Loop (chainStep among operand)) (hop : op.kind = symbol.kind)
    (hamong : among op = true) (hleft : Yields operand l d w symbol.kind)
    (hright : Halts operand d v next) : Halts (chain among operand) d (w ++ symbol :: v) next := by
  have hkind : (BinaryOp.ofKind? symbol.kind).filter among = some op := by
    rw [BinaryOp.ofKind?_eq_some.mpr hop, Option.filter_some, if_pos hamong]
  have hstep : Halts (chainStep among operand l) d (symbol :: v) next := by
    apply Leads.look
    rw [Symbol.kinds_cons, List.headD_cons, hkind]
    exact Leads.consume hright.bind
  refine Yields.bind hleft ?_
  rw [hloop.many_eq l]
  exact hstep.bind

/-! The first operand of an expression may halt as well. -/

theorem Halts.term (h : Halts (primary (Inner.whole (some limit) : Inner σ)) d w next) :
    Halts (Grammar.term (Inner.whole (some limit) : Inner σ)) d w next :=
  h.bind

theorem Halts.arithmetic (h : Halts (Grammar.term (Inner.whole (some limit) : Inner σ)) d w next) :
    Halts (Grammar.arithmetic (Inner.whole (some limit) : Inner σ)) d w next :=
  h.bind

theorem Halts.expression
    (h : Halts (Grammar.arithmetic (Inner.whole (some limit) : Inner σ)) d w next) :
    Halts (Grammar.expression (Inner.whole (some limit) : Inner σ)) d w next :=
  h.bind

/-- An operator multiplies, adds or compares. -/
theorem BinaryOp.class_cases (op : BinaryOp) :
    op.isMultiplicative = true ∨ op.isAdditive = true ∨ op.isRelational = true := by
  cases op <;> decide

open Spelling

variable {inside : Spelling}

/-- The second operand of an expression, whatever its operator. -/
theorem halts_expression [LawfulTokenStream σ] (h : InnerYields σ limit d inside)
    (hleft : Primary inside w l)
    (hop : op.kind = symbol.kind)
    (hright : Halts (primary (Inner.whole (some limit) : Inner σ)) d v next) :
    Halts (Grammar.expression (Inner.whole (some limit) : Inner σ)) d (w ++ symbol :: v) next := by
  rcases op.class_cases with hclass | hclass | hclass
  · have hloop : Loop (chainStep BinaryOp.isMultiplicative
        (primary (Inner.whole (some limit) : Inner σ))) := loop_chainStep fun _ _ _ => alike_primary
    have hterm : Halts (Grammar.term (Inner.whole (some limit) : Inner σ)) d (w ++ symbol :: v)
        next := halts_chain hloop hop hclass (yields_primary h hleft) hright
    exact hterm.arithmetic.expression
  · have hloop : Loop (chainStep BinaryOp.isAdditive
        (Grammar.term (Inner.whole (some limit) : Inner σ))) :=
      loop_chainStep fun _ _ _ => alike_term compositional_eq
    have hend : isOperator BinaryOp.isMultiplicative symbol.kind = false := by
      rw [← hop]
      cases op <;> first | rfl | cases hclass
    have harithmetic : Halts (Grammar.arithmetic (Inner.whole (some limit) : Inner σ)) d
        (w ++ symbol :: v) next :=
      halts_chain hloop hop hclass (yields_term h (.single hleft) hend) hright.term
    exact harithmetic.expression
  · have hend : EndsArithmetic symbol.kind := by
      rw [← hop]
      cases op <;> first | exact ⟨rfl, rfl⟩ | cases hclass
    have hkind : (BinaryOp.ofKind? symbol.kind).filter BinaryOp.isRelational = some op := by
      rw [BinaryOp.ofKind?_eq_some.mpr hop, Option.filter_some, if_pos hclass]
    have hfirst : Yields (Grammar.arithmetic (Inner.whole (some limit) : Inner σ)) l d w
        ((Symbol.kinds (symbol :: v)).headD next) :=
      yields_arithmetic h (.single (.single hleft)) hend
    refine Yields.bind hfirst ?_
    apply Leads.look
    rw [Symbol.kinds_cons, List.headD_cons, hkind]
    exact Leads.consume hright.term.arithmetic.bind

/-- Parentheses around an expression that halts. -/
theorem Halts.parenthesised [LawfulTokenStream σ] (hd : d < limit)
    (hopening : symbol.kind = .openParen)
    (h : Halts (Grammar.expression (Inner.whole (some limit) : Inner σ)) (d + 1) w next) :
    Halts (primary (Inner.whole (some limit) : Inner σ)) d (symbol :: w) next := by
  rw [← whole_expression] at h
  apply Leads.look
  rw [Symbol.kinds_cons, List.headD_cons, hopening]
  exact Halts.nested hd (Leads.consume h.bind)

/-- A parenthesis that would open a level too many. -/
theorem halts_primary (hd : limit ≤ d) :
    Halts (primary (Inner.whole (some limit) : Inner σ)) d [] .openParen := by
  apply Leads.look
  exact Halts.refused hd

end Expression

/-! ### Programs -/

section Program

open Spelling

variable {word opening : Symbol}

/-- A print statement whose value halts. -/
theorem Halts.printing
    (h : Halts (Grammar.expression (Inner.whole (some limit) : Inner σ)) d w next)
    (hword : word.kind = .printWord) (hopening : opening.kind = .openParen)
    (hhead : (Symbol.kinds w).headD next ≠ .string) :
    Halts (Grammar.printing (Inner.whole (some limit) : Inner σ)) d (word :: opening :: w)
      next := by
  have hvalue : Halts (value (Inner.whole (some limit) : Inner σ)) d w next := by
    apply Leads.look
    rw [if_neg hhead]
    exact h
  exact Leads.expect hword (Leads.expect hopening hvalue.bind)

/-- A program whose first statement is a print statement that halts. -/
theorem Halts.afterFirst [LawfulTokenStream σ] {v : List Symbol}
    (h : Halts (Grammar.printing (Inner.whole (some maxDepth) : Inner σ)) 0 (word :: v) next)
    (hword : word.kind = .printWord) :
    Halts (Spelling.afterFirst : Rule σ Program) 0 (word :: v) next := by
  have hstatement : Halts (statement (Inner.whole (some maxDepth) : Inner σ)) 0 (word :: v)
      next := by
    apply Leads.look
    rw [Symbol.kinds_cons, List.headD_cons, hword]
    show Halts (some <$> Grammar.printing (Inner.whole (some maxDepth))) _ _ _
    rw [map_eq_pure_bind]
    exact h.bind
  have hstep : Halts (sequenceStep (Inner.whole (some maxDepth) : Inner σ) []) 0 (word :: v)
      next := by
    have hstart : Kind.printWord.startsStatement = true := rfl
    apply Leads.look
    rw [Symbol.kinds_cons, List.headD_cons, hword, if_pos hstart]
    exact hstatement.bind
  have hsequence : Halts (Grammar.sequence (Inner.whole (some maxDepth) : Inner σ)) 0 (word :: v)
      next := by
    unfold Grammar.sequence
    rw [loop_sequenceStep.many_eq []]
    exact hstep.bind
  exact hsequence.bind

/-- **The parser stops where a program halts**, and says that nothing is expected there. -/
theorem parse_of_halts [LawfulTokenStream σ] {first start stop : σ} {kind last : Kind}
    (hfirst : TokenStream.advance first = .ok kind start)
    (htrail : Trail (w ++ v) start kind stop last)
    (h : Halts (Spelling.afterFirst : Rule σ Program) 0 w ((Symbol.kinds v).headD last)) :
    ∃ fault rest, parseStream first = .error fault rest ∧ fault.cause = .unexpected [] := by
  obtain ⟨s, kind', htrail₁, htrail₂⟩ := Trail.append.mp htrail
  rw [htrail₂.kind_eq] at htrail₁
  obtain ⟨p, hrun, -⟩ := h { stream := start, lookahead := kind } s rfl htrail₁
  rw [Spelling.parseStream_eq hfirst, hrun]
  exact ⟨_, _, rfl, rfl⟩

end Program

end ScriptFront
