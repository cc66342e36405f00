import ScriptFront.Grammar.Session

/-!
# ScriptFront.Proofs.Confined

**What a rule does to the levels of nesting, and what it asks of the rules further in.**

Whatever becomes of a rule, it leaves as many levels open as there were when it began, and on the
way it never has more of them open than the limit allows (`Parser.Restored`). What it asks of the
rules further in it asks with one level more open, because it asks inside a level of its own. So a
rule comes to the same over two families of inner rules that come to the same there (`Confined`,
`confined_action`).

Both are proved at once, rule by rule: that a rule asks with one level more open is only known
because the rules before have left the levels as they were.
-/

namespace ScriptFront

open Grammar

variable {σ α β : Type}

/-- Where a rule leaves a parser that began at `start`, under a limit. -/
structure Parser.Restored (limit : Nat) (start p : Parser σ) : Prop where
  /-- As many levels are open as there were. -/
  depth_eq : p.depth = start.depth
  /-- More levels than the limit allows have not been open on the way. -/
  peak_le : p.peak ≤ max start.peak limit

theorem Parser.Restored.refl (limit : Nat) (p : Parser σ) : p.Restored limit p :=
  ⟨rfl, Nat.le_max_left _ _⟩

theorem Parser.Restored.trans {limit : Nat} {p q r : Parser σ} (hpq : p.Restored limit q)
    (hqr : q.Restored limit r) : p.Restored limit r := by
  have hpeak := hpq.peak_le
  have hpeak' := hqr.peak_le
  exact ⟨hqr.depth_eq.trans hpq.depth_eq, by omega⟩

/-- A level that could be opened is closed again. -/
theorem Parser.Restored.leave {limit : Nat} {p q : Parser σ} (hopen : p.depth < limit)
    (h : p.enter.Restored limit q) : p.Restored limit q.leave := by
  have hdepth : q.depth = p.depth + 1 := h.depth_eq
  have hpeak : q.peak ≤ max (max p.peak (p.depth + 1)) limit := h.peak_le
  constructor
  · simp only [Parser.leave, hdepth, Nat.add_sub_cancel]
  · simp only [Parser.leave]
    omega

/-- At `d` open levels two rules come to the same, and leave the levels as they were. -/
def Confined (limit d : Nat) (r s : Rule σ α) : Prop :=
  ∀ p : Parser σ, p.depth = d → r p = s p ∧ p.Restored limit (stateAfter (r p))

/-- Two families of inner rules come to the same with one level more than `d` open, where that level
can be opened. -/
structure Inner.Agrees (limit d : Nat) (i j : Inner σ) : Prop where
  limit_left : i.limit = some limit
  limit_right : j.limit = some limit
  expression : d < limit → Confined limit (d + 1) i.expression j.expression
  sequence : d < limit → Confined limit (d + 1) i.sequence j.sequence

/-! ### The steps of rules -/

section

variable {limit d : Nat} {r s : Rule σ α} {f g : α → Rule σ β}

/-- A rule that does not ask anything of the rules further in. -/
theorem Confined.of_restored (h : ∀ p : Parser σ, p.Restored limit (stateAfter (r p))) :
    Confined limit d r r :=
  fun p _ => ⟨rfl, h p⟩

theorem Confined.pure (a : α) : Confined limit d (Pure.pure a : Rule σ α) (Pure.pure a) :=
  .of_restored fun p => .refl limit p

theorem Confined.payload (value : σ → α) :
    Confined limit d (Rule.payload value) (Rule.payload value) :=
  .of_restored fun p => .refl limit p

theorem Confined.bind (hr : Confined limit d r s) (hf : ∀ a, Confined limit d (f a) (g a)) :
    Confined limit d (r >>= f) (s >>= g) := by
  intro p hd
  obtain ⟨hsame, hrestored⟩ := hr p hd
  simp only [Bind.bind, EStateM.bind, ← hsame]
  cases hrun : r p with
  | error fault q =>
    rw [hrun] at hrestored
    exact ⟨rfl, hrestored⟩
  | ok a q =>
    rw [hrun] at hrestored
    obtain ⟨hsame', hrestored'⟩ := hf a q (hrestored.depth_eq.trans hd)
    exact ⟨hsame', hrestored.trans hrestored'⟩

theorem Confined.map (f : α → β) (h : Confined limit d r s) :
    Confined limit d (f <$> r) (f <$> s) := by
  rw [map_eq_pure_bind, map_eq_pure_bind]
  exact .bind h fun a => .pure (f a)

theorem Confined.look {f g : Kind → Rule σ β} (h : ∀ kind, Confined limit d (f kind) (g kind)) :
    Confined limit d (Rule.lookahead >>= f) (Rule.lookahead >>= g) :=
  fun p hd => h p.lookahead p hd

/-- A level below the limit is opened as if there were no limit. -/
theorem Rule.nested_of_lt [TokenStream σ] {p : Parser σ} (hopen : p.depth < limit) :
    Rule.nested (some limit) r p = Rule.nested none r p := by
  have hlimit : (some limit).any (· ≤ p.depth) = false := by simpa using hopen
  simp only [Rule.nested, hlimit, Option.any_none]

/-- A level beyond the limit is refused. -/
theorem Rule.nested_of_le [TokenStream σ] {p : Parser σ} (hclosed : limit ≤ p.depth) :
    Rule.nested (some limit) r p = .error (p.unexpected []) p := by
  have hlimit : (some limit).any (· ≤ p.depth) = true := by simpa using hclosed
  simp only [Rule.nested, hlimit, if_true]
  rfl

/-- The rules inside a level are run with one level more open, if the level can be opened. -/
theorem Confined.nested [TokenStream σ] (h : d < limit → Confined limit (d + 1) r s) :
    Confined limit d (Rule.nested (some limit) r) (Rule.nested (some limit) s) := by
  rintro p rfl
  rcases Nat.lt_or_ge p.depth limit with hopen | hclosed
  · obtain ⟨hsame, hrestored⟩ := h hopen p.enter rfl
    rw [Rule.nested_of_lt hopen, Rule.nested_of_lt hopen]
    simp only [Rule.nested, Option.any_none, Bool.false_eq_true, if_false]
    refine ⟨by rw [hsame], ?_⟩
    cases hrun : r p.enter <;> rw [hrun] at hrestored <;> exact hrestored.leave hopen
  · rw [Rule.nested_of_le hclosed, Rule.nested_of_le hclosed]
    exact ⟨rfl, .refl limit p⟩

theorem Confined.manyWithin {step step' : α → Rule σ (Option α)}
    (h : ∀ a, Confined limit d (step a) (step' a)) (rounds : Nat) :
    ∀ a, Confined limit d (Rule.manyWithin step rounds a) (Rule.manyWithin step' rounds a) := by
  induction rounds with
  | zero => exact fun a => .pure a
  | succ rounds ih =>
    refine fun a => .bind (h a) fun found => ?_
    cases found with
    | none => exact .pure a
    | some a' => exact ih a'

/-- Both loops have as many rounds, because they begin at the same parser. -/
theorem Confined.many [TokenStream σ] {step step' : α → Rule σ (Option α)}
    (h : ∀ a, Confined limit d (step a) (step' a)) (a : α) :
    Confined limit d (Rule.many step a) (Rule.many step' a) :=
  fun p hd => Confined.manyWithin h p.pending a p hd

theorem Confined.repeatWhile [TokenStream σ] {step step' : Rule σ Bool}
    (h : Confined limit d step step') :
    Confined limit d (Rule.repeatWhile step) (Rule.repeatWhile step') :=
  .many (fun _ => .bind h fun _ => .pure _) ()

end

/-! ### Single tokens -/

variable [TokenStream σ] {limit d : Nat}

theorem Confined.advance : Confined limit d (Rule.advance : Rule σ Kind) Rule.advance := by
  refine .of_restored fun p => ?_
  unfold Rule.advance
  split
  · exact ⟨rfl, Nat.le_max_left _ _⟩
  · exact ⟨rfl, Nat.le_max_left _ _⟩

theorem Confined.consume : Confined limit d (Rule.consume : Rule σ Unit) Rule.consume :=
  .bind .advance fun _ => .pure ()

theorem Confined.fail (expected : List Kind) :
    Confined limit d (Rule.fail expected : Rule σ α) (Rule.fail expected) :=
  .of_restored fun p => .refl limit p

theorem Confined.expect (kind : Kind) :
    Confined limit d (Rule.expect kind : Rule σ Unit) (Rule.expect kind) := by
  refine .look fun seen => ?_
  split
  · exact .consume
  · exact .fail [kind]

/-- A token that is expected, and what follows it. -/
theorem Confined.expect_then {kind : Kind} {f g : Unit → Rule σ β}
    (h : Confined limit d (f ()) (g ())) :
    Confined limit d (Rule.expect kind >>= f) (Rule.expect kind >>= g) :=
  .bind (.expect kind) fun _ => h

/-- A token that is consumed, and what follows it. -/
theorem Confined.consume_then {f g : Unit → Rule σ β} (h : Confined limit d (f ()) (g ())) :
    Confined limit d (Rule.consume >>= f) (Rule.consume >>= g) :=
  .bind .consume fun _ => h

/-! ### Expressions -/

namespace Grammar

variable {i j : Inner σ}

theorem confined_leaf {value : σ → α} {make : α → Expr} :
    Confined limit d (do let a ← Rule.payload value; Rule.consume; return make a : Rule σ Expr)
      (do let a ← Rule.payload value; Rule.consume; return make a) :=
  .bind (.payload value) fun a => .consume_then (.pure (make a))

theorem confined_parenthesised (h : i.Agrees limit d j) (hopen : d < limit) :
    Confined limit (d + 1) (parenthesised i) (parenthesised j) := by
  refine .consume_then (.bind (h.expression hopen) fun value => ?_)
  exact .expect_then (.pure value)

theorem confined_primary (h : i.Agrees limit d j) : Confined limit d (primary i) (primary j) := by
  refine .look fun kind => ?_
  split
  · exact confined_leaf
  · exact confined_leaf
  · rw [h.limit_left, h.limit_right]
    exact .nested (confined_parenthesised h)
  · exact .fail _

theorem confined_chainStep {among : BinaryOp → Bool} {operand operand' : Rule σ Expr}
    (h : Confined limit d operand operand') (left : Expr) :
    Confined limit d (chainStep among operand left) (chainStep among operand' left) := by
  refine .look fun kind => ?_
  cases (BinaryOp.ofKind? kind).filter among with
  | none => exact .pure none
  | some op => exact .consume_then (.bind h fun right => .pure _)

theorem confined_chain {among : BinaryOp → Bool} {operand operand' : Rule σ Expr}
    (h : Confined limit d operand operand') :
    Confined limit d (chain among operand) (chain among operand') :=
  .bind h fun first => .many (confined_chainStep h) first

theorem confined_term (h : i.Agrees limit d j) : Confined limit d (term i) (term j) :=
  confined_chain (confined_primary h)

theorem confined_arithmetic (h : i.Agrees limit d j) :
    Confined limit d (arithmetic i) (arithmetic j) :=
  confined_chain (confined_term h)

theorem confined_expression (h : i.Agrees limit d j) :
    Confined limit d (expression i) (expression j) := by
  refine .bind (confined_arithmetic h) fun left => .look fun kind => ?_
  cases (BinaryOp.ofKind? kind).filter BinaryOp.isRelational with
  | none => exact .pure left
  | some op => exact .consume_then (.bind (confined_arithmetic h) fun right => .pure _)

/-! ### Statements -/

theorem confined_value (h : i.Agrees limit d j) : Confined limit d (value i) (value j) := by
  refine .look fun kind => ?_
  split
  · exact confined_leaf
  · exact confined_expression h

theorem confined_printing (h : i.Agrees limit d j) :
    Confined limit d (printing i) (printing j) := by
  refine .expect_then (.expect_then (.bind (confined_value h) fun value => ?_))
  exact .expect_then (.expect_then (.pure (Statement.write value)))

theorem confined_variableDeclaration (h : i.Agrees limit d j) :
    Confined limit d (variableDeclaration i) (variableDeclaration j) := by
  refine .expect_then (.expect_then (.expect_then ?_))
  exact .bind (confined_expression h) fun _ => .expect .semicolon

theorem confined_separator : Confined limit d (separator : Rule σ Unit) separator := by
  refine .look fun kind => ?_
  split
  · exact .pure ()
  · exact .expect .comma

theorem confined_items (admits : Kind → Bool) :
    Confined limit d (items admits : Rule σ Unit) (items admits) := by
  refine .repeatWhile (.look fun kind => ?_)
  split
  · exact .consume_then (.bind confined_separator fun _ => .pure true)
  · exact .pure false

theorem confined_assignmentOrCallTail (h : i.Agrees limit d j) :
    Confined limit d (assignmentOrCallTail i) (assignmentOrCallTail j) := by
  refine .look fun kind => ?_
  split
  · exact .consume_then (.bind (confined_expression h) fun _ => .pure ())
  · exact .consume_then (.bind (confined_items isArgument) fun _ => .expect .closeParen)
  · exact .fail _

theorem confined_assignmentOrCall (h : i.Agrees limit d j) :
    Confined limit d (assignmentOrCall i) (assignmentOrCall j) :=
  .expect_then (.bind (confined_assignmentOrCallTail h) fun _ => .expect .semicolon)

theorem confined_elseBranch (h : i.Agrees limit d j) (hopen : d < limit) :
    Confined limit (d + 1) (elseBranch i) (elseBranch j) := by
  refine .look fun kind => ?_
  split
  · refine .consume_then (.expect_then ?_)
    exact .bind (h.sequence hopen) fun _ => .expect .closeCurly
  · exact .pure ()

theorem confined_branches (h : i.Agrees limit d j) (hopen : d < limit) :
    Confined limit (d + 1) (branches i) (branches j) := by
  refine .expect_then (.expect_then (.bind (h.expression hopen) fun _ => ?_))
  refine .expect_then (.expect_then (.bind (h.sequence hopen) fun _ => ?_))
  exact .expect_then (confined_elseBranch h hopen)

theorem confined_condition (h : i.Agrees limit d j) :
    Confined limit d (condition i) (condition j) := by
  unfold condition
  rw [h.limit_left, h.limit_right]
  exact .nested (confined_branches h)

theorem confined_bodyStatement (h : i.Agrees limit d j) :
    Confined limit d (bodyStatement i) (bodyStatement j) := by
  refine .look fun kind => ?_
  split
  · exact .bind (confined_printing h) fun _ => .pure true
  · exact .bind (confined_condition h) fun _ => .pure true
  · exact .bind (confined_variableDeclaration h) fun _ => .pure true
  · exact .bind (confined_assignmentOrCall h) fun _ => .pure true
  · exact .pure false

theorem confined_body (h : i.Agrees limit d j) : Confined limit d (body i) (body j) :=
  .repeatWhile (confined_bodyStatement h)

theorem confined_increment (h : i.Agrees limit d j) :
    Confined limit d (increment i) (increment j) := by
  refine .expect_then (.look fun kind => ?_)
  split
  · exact .consume
  · exact .consume
  · exact .consume_then (.bind (confined_expression h) fun _ => .pure ())
  · exact .fail _

theorem confined_loop (h : i.Agrees limit d j) : Confined limit d (loop i) (loop j) := by
  refine .expect_then (.expect_then (.bind (confined_variableDeclaration h) fun _ => ?_))
  refine .bind (confined_expression h) fun _ => .expect_then ?_
  refine .bind (confined_increment h) fun _ => .expect_then (.expect_then ?_)
  exact .bind (confined_body h) fun _ => .expect .closeCurly

theorem confined_returning (h : i.Agrees limit d j) :
    Confined limit d (returning i) (returning j) := by
  refine .look fun kind => ?_
  split
  · exact .consume_then (.bind (confined_value h) fun _ => .expect .semicolon)
  · exact .pure ()

theorem confined_functionDeclaration (h : i.Agrees limit d j) :
    Confined limit d (functionDeclaration i) (functionDeclaration j) := by
  refine .expect_then (.expect_then (.expect_then ?_))
  refine .bind (confined_items isParameter) fun _ => .expect_then (.expect_then ?_)
  refine .bind (confined_body h) fun _ => .bind (confined_returning h) fun _ => ?_
  exact .expect .closeCurly

theorem confined_statement (h : i.Agrees limit d j) :
    Confined limit d (statement i) (statement j) := by
  refine .look fun kind => ?_
  split
  · exact .map some (confined_printing h)
  · exact .bind (confined_loop h) fun _ => .pure none
  · exact .bind (confined_condition h) fun _ => .pure none
  · exact .bind (confined_functionDeclaration h) fun _ => .pure none
  · exact .bind (confined_variableDeclaration h) fun _ => .pure none
  · exact .bind (confined_assignmentOrCall h) fun _ => .pure none
  · exact .pure none

theorem confined_sequence (h : i.Agrees limit d j) :
    Confined limit d (sequence i) (sequence j) := by
  refine .many (fun retained => .look fun kind => ?_) []
  split
  · exact .bind (confined_statement h) fun next => .pure _
  · exact .pure none

end Grammar

/-- **Every rule of the grammar leaves the levels as they were, and asks the rules further in with
one level more open.** -/
theorem confined_action {i j : Inner σ} (h : i.Agrees limit d j) (action : Action) :
    Confined limit d (action.rule i) (action.rule j) := by
  cases action with
  | advance => exact .map _ .advance
  | consume => exact .map _ .consume
  | expect kind => exact .map _ (.expect kind)
  | fail expected => exact .fail expected
  | nothing => exact .pure Answer.done
  | expression => exact .map _ (confined_expression h)
  | arithmetic => exact .map _ (confined_arithmetic h)
  | term => exact .map _ (confined_term h)
  | primary => exact .map _ (confined_primary h)
  | statement => exact .map _ (confined_statement h)
  | sequence => exact .map _ (confined_sequence h)
  | printing => exact .map _ (confined_printing h)
  | loop => exact .map _ (confined_loop h)
  | condition => exact .map _ (confined_condition h)
  | functionDeclaration => exact .map _ (confined_functionDeclaration h)
  | variableDeclaration => exact .map _ (confined_variableDeclaration h)
  | assignmentOrCall => exact .map _ (confined_assignmentOrCall h)

end ScriptFront
