import ScriptFront.Proofs.Conformity.Statement
import ScriptFront.Proofs.Restoring

/-!
# ScriptFront.Proofs.Ending

**Parsing always ends, and never goes deeper than a fixed bound**, however much there is to parse.

* A round of a loop and a rule that returns have read at least one token (`Parser.Progresses`),
  except for a statement or a sequence where no statement begins. So a loop is done, or has
  stopped, after no more rounds than there are tokens pending (`Loop.rounds`).
* A rule comes back to itself through the rules further in alone, and those it asks with one level
  of nesting more open. Levels are refused beyond the limit, so whatever stands behind as many
  levels as the limit allows is never asked for (`Inner.agrees_filled`).

The second point does not hang on the tokens, and the first one not on the levels.
-/

namespace ScriptFront

open Grammar

variable {σ : Type} [TokenStream σ]

/-! ### Rules without a bound on their recursion -/

/-- The rules further in are the rules of the grammar over themselves, as far in as one may go. -/
structure Inner.Recursive (limit : Option Nat) (i : Inner σ) : Prop where
  limit_eq : i.limit = limit
  expression_eq : i.expression = Grammar.expression i
  sequence_eq : i.sequence = Grammar.sequence i

/-- As many levels of the rules as the count says, and further in some other rules. -/
def Inner.filled (innermost : Inner σ) : Nat → Inner σ
  | 0 => innermost
  | count + 1 =>
    { limit := innermost.limit
      expression := Grammar.expression (filled innermost count)
      sequence := Grammar.sequence (filled innermost count) }

theorem Inner.limit_filled (innermost : Inner σ) (count : Nat) :
    (innermost.filled count).limit = innermost.limit := by
  cases count <;> rfl

theorem Inner.recursive_whole [LawfulTokenStream σ] (limit : Option Nat) :
    (Inner.whole limit : Inner σ).Recursive limit :=
  ⟨rfl, whole_expression limit, whole_sequence limit⟩

/-- The rules over themselves are those with any number of levels filled in. -/
theorem Inner.Recursive.filled_eq {limit : Option Nat} {i : Inner σ} (h : i.Recursive limit)
    (count : Nat) : i.filled count = i := by
  induction count with
  | zero => rfl
  | succ count ih =>
    unfold Inner.filled
    rw [ih, ← h.expression_eq, ← h.sequence_eq]

/-- What stands behind as many levels as can still be opened does not matter. By induction on their
number: what is asked for further in is asked for with one level less to open. -/
theorem Inner.agrees_filled {limit : Nat} {i j : Inner σ} (hi : i.limit = some limit)
    (hj : j.limit = some limit) (m : Nat) : ∀ n d, limit ≤ m + d → limit ≤ n + d →
      (i.filled m).Agrees limit d (j.filled n) := by
  induction m with
  | zero =>
    intro n d hm _
    rw [← Inner.limit_filled j n] at hj
    exact ⟨hi, hj, fun hopen => absurd hopen (by omega), fun hopen => absurd hopen (by omega)⟩
  | succ m ih =>
    intro n d hm hn
    refine ⟨hi, (Inner.limit_filled j n).trans hj, fun hopen => ?_, fun hopen => ?_⟩
    all_goals
      obtain ⟨n, rfl⟩ : ∃ k, n = k + 1 := ⟨n - 1, by omega⟩
    · exact confined_expression (ih n (d + 1) (by omega) (by omega))
    · exact confined_sequence (ih n (d + 1) (by omega) (by omega))

/-- A rule with its levels filled in is the rule over inner rules that have theirs filled in, for
every action. -/
theorem closed_action_eq [LawfulTokenStream σ] (limit : Option Nat) (action : Action)
    (p : Parser σ) :
    closed limit action.rule p = action.rule (Inner.whole limit) p := by
  cases hrule : action.isRule with
  | false =>
    -- these actions apply no rule of the grammar
    cases action with
    | advance => rfl
    | consume => rfl
    | expect kind => rfl
    | fail expected => rfl
    | nothing => rfl
    | _ => cases hrule
  | true =>
    by_cases hend : action = .condition ∧ p.lookahead = .eof
    · obtain ⟨rfl, hend⟩ := hend
      have hbranches (inner : Inner σ) := branches_of_end inner (p := p.enter) hend
      simp only [closed, Action.rule, condition, map_eq_pure_bind, Bind.bind, EStateM.bind,
        Rule.nested, Inner.limit_levels, hbranches]
      rfl
    · have halike (i j : Inner σ) : Alike Eq i j false (· = p.lookahead) (fun a b _ => a = b)
          (action.rule i) (action.rule j) := alike_action_of_kind hrule hend
      exact closed_eq limit halike rfl

/-! ### Tokens that are read -/

/-- A parser stands behind at least one token of another one, each of them before the end. -/
def Parser.Progresses (start p : Parser σ) : Prop :=
  ∃ w, w ≠ [] ∧ Walk w start.stream start.lookahead p.stream p.lookahead

theorem Parser.Reaches.trans {p q r : Parser σ} (hpq : p.Reaches q) (hqr : q.Reaches r) :
    p.Reaches r := by
  obtain ⟨w, hwalk⟩ := hpq
  obtain ⟨w', hwalk'⟩ := hqr
  exact ⟨w ++ w', Walk.append.mpr ⟨_, _, hwalk, hwalk'⟩⟩

theorem Parser.Progresses.trans {p q r : Parser σ} (hpq : p.Progresses q) (hqr : q.Reaches r) :
    p.Progresses r := by
  obtain ⟨w, hne, hwalk⟩ := hpq
  obtain ⟨w', hwalk'⟩ := hqr
  exact ⟨w ++ w', List.append_ne_nil_of_left_ne_nil hne w',
    Walk.append.mpr ⟨_, _, hwalk, hwalk'⟩⟩

/-- A parser with fewer tokens pending does not stand where it began. -/
theorem Parser.Reaches.progresses {p q : Parser σ} (h : p.Reaches q)
    (hless : q.pending < p.pending) : p.Progresses q := by
  obtain ⟨w, hwalk⟩ := h
  refine ⟨w, ?_, hwalk⟩
  rintro rfl
  obtain ⟨hstream, hkind⟩ := hwalk
  simp only [Parser.pending, hstream, hkind, Nat.lt_irrefl] at hless

/-- A parser beside itself, as far as it has read. -/
theorem simulation_reaches (start : Parser σ) (limit : Option Nat) :
    Simulation Eq limit limit (fun _ p q => p = q ∧ start.Reaches p)
      (fun _ e f p q => (e = f ∧ p = q) ∧ True) := by
  refine simulation_self limit ?_ (fun _ _ _ _ => trivial) (fun _ h => h) (fun _ h => h)
    fun _ _ _ => trivial
  rintro p ⟨w, hwalk⟩ hkind
  cases hadvance : TokenStream.advance p.stream with
  | ok kind s =>
    rw [Rule.advance_of_ok hadvance]
    exact ⟨_, hwalk.advance hkind hadvance⟩
  | error fault s =>
    rw [Rule.advance_of_error hadvance]
    trivial

section

variable [LawfulTokenStream σ] {limit : Option Nat} {α : Type} {start : Kind → Prop}
  {post : α → α → Bool → Prop} {r : Rule σ α} {p p' : Parser σ} {a : α}

/-- What a rule that returns has read. -/
theorem Alike.reaches (h : Alike Eq (Inner.whole limit) (Inner.whole limit) false start post r r)
    (hstart : start p.lookahead) (hrun : r p = .ok a p') :
    p.Reaches p' ∧ ∃ spent, post a a spent ∧ p'.pending + spent.toNat ≤ p.pending := by
  have hmeets := h.simulates_whole (simulation_reaches p limit) (d := 0) ⟨rfl, .refl p⟩ hstart
  rw [hrun] at hmeets
  obtain ⟨⟨-, hreaches⟩, spent, hpost, hless, -⟩ := hmeets
  exact ⟨hreaches, spent, hpost, hless⟩

/-- A rule that surely spends a token has read one when it returns. -/
theorem Alike.progresses
    (h : Alike Eq (Inner.whole limit) (Inner.whole limit) false start
      (fun _ _ spent => spent = true) r r)
    (hstart : start p.lookahead) (hrun : r p = .ok a p') : p.Progresses p' := by
  obtain ⟨hreaches, _, rfl, hless⟩ := h.reaches hstart hrun
  exact hreaches.progresses hless

end

/-! ### Loops -/

/-- The loops of the grammar. -/
inductive IsLoop (inner : Inner σ) : {α : Type} → (α → Rule σ (Option α)) → Prop
  | sequence : IsLoop inner (sequenceStep inner)
  | body : IsLoop inner fun _ : Unit => Rule.again (bodyStatement inner)
  | parameters : IsLoop inner fun _ : Unit => Rule.again (item isParameter)
  | arguments : IsLoop inner fun _ : Unit => Rule.again (item isArgument)
  | sum : IsLoop inner (chainStep BinaryOp.isAdditive (term inner))
  | product : IsLoop inner (chainStep BinaryOp.isMultiplicative (primary inner))

/-- The step of a loop has nothing to do at the end, takes the same steps as itself, and spends a
token if it goes on. -/
theorem IsLoop.alike {inner : Inner σ} {α : Type} {step : α → Rule σ (Option α)}
    (h : IsLoop inner step) :
    (∀ a (p : Parser σ), p.lookahead = .eof → step a p = .ok none p) ∧
      ∃ keep : α → α → Prop, ∀ a,
        Alike Eq inner inner false (fun _ => True) (GoesOn keep) (step a) (step a) := by
  cases h with
  | sequence =>
    refine ⟨sequenceStep_of_end, Retained Eq, fun retained => ?_⟩
    exact alike_sequenceStep compositional_eq (List.forall₂_same.mpr fun _ _ => rfl)
  | body =>
    exact ⟨again_of_end bodyStatement_of_end, fun _ _ => True, fun _ =>
      alike_again (alike_bodyStatement compositional_eq)⟩
  | parameters =>
    exact ⟨again_of_end (item_of_end rfl), fun _ _ => True, fun _ => alike_again (alike_item rfl)⟩
  | arguments =>
    exact ⟨again_of_end (item_of_end rfl), fun _ _ => True, fun _ => alike_again (alike_item rfl)⟩
  | sum =>
    exact ⟨chainStep_of_end, Eq, fun _ =>
      alike_chainStep compositional_eq (fun _ _ _ => alike_term compositional_eq) rfl⟩
  | product =>
    exact ⟨chainStep_of_end, Eq, fun _ =>
      alike_chainStep compositional_eq (fun _ _ _ => alike_primary) rfl⟩

section

variable {limit : Option Nat} {α : Type} {step : α → Rule σ (Option α)} {p p' : Parser σ} {a : α}

theorem IsLoop.loop [LawfulTokenStream σ] (h : IsLoop (Inner.whole limit) step) :
    Loop step := by
  obtain ⟨hrest, keep, halike⟩ := h.alike
  exact .of_alike limit hrest halike

theorem IsLoop.reaches [LawfulTokenStream σ] (h : IsLoop (Inner.whole limit) step)
    {found : Option α} (hrun : step a p = .ok found p') : p.Reaches p' := by
  obtain ⟨-, keep, halike⟩ := h.alike
  exact ((halike a).reaches trivial hrun).1

/-- **A round of a loop that is gone through has read a token.** -/
theorem IsLoop.progresses [LawfulTokenStream σ] (h : IsLoop (Inner.whole limit) step) {a' : α}
    (hrun : step a p = .ok (some a') p') : p.Progresses p' :=
  (h.reaches hrun).progresses (h.loop.spend hrun)

/-- A loop over a step, gone through from a value on: the step goes on as often as the count says,
and then it is done or stops. Nothing but the step brings the loop to its end. -/
inductive Rule.Rounds (step : α → Rule σ (Option α)) :
    Nat → α → Parser σ → EStateM.Result Diagnostic (Parser σ) α → Prop
  | done {a : α} {p p' : Parser σ} (h : step a p = .ok none p') : Rounds step 0 a p (.ok a p')
  | stops {a : α} {p p' : Parser σ} {fault : Diagnostic} (h : step a p = .error fault p') :
    Rounds step 0 a p (.error fault p')
  | round {count : Nat} {a a' : α} {p p' : Parser σ}
    {result : EStateM.Result Diagnostic (Parser σ) α} (h : step a p = .ok (some a') p')
    (hrest : Rounds step count a' p' result) : Rounds step (count + 1) a p result

/-- **A loop comes to its end in no more rounds than there are tokens pending.** By induction on the
rounds that it is given. -/
theorem Loop.rounds (h : Loop step) (rounds : Nat) : ∀ (a : α) (p : Parser σ), p.pending ≤ rounds →
    ∃ count, count ≤ p.pending ∧ Rule.Rounds step count a p (Rule.manyWithin step rounds a p) := by
  induction rounds with
  | zero =>
    intro a p hpending
    have hend : p.lookahead = .eof := by
      by_contra hkind
      have := Parser.pending_pos hkind
      omega
    exact ⟨0, Nat.zero_le _, .done (h.rest a p hend)⟩
  | succ rounds ih =>
    intro a p hpending
    simp only [Rule.manyWithin, Bind.bind, EStateM.bind]
    cases hstep : step a p with
    | error fault p' => exact ⟨0, Nat.zero_le _, .stops hstep⟩
    | ok found p' =>
      cases found with
      | none => exact ⟨0, Nat.zero_le _, .done hstep⟩
      | some a' =>
        have hless := h.spend hstep
        obtain ⟨count, hcount, hrounds⟩ := ih a' p' (by omega)
        exact ⟨count + 1, by omega, .round hstep hrounds⟩

theorem Rule.Rounds.reaches [LawfulTokenStream σ] (h : IsLoop (Inner.whole limit) step)
    {count : Nat} {b : α} (hrounds : Rule.Rounds step count a p (.ok b p')) : p.Reaches p' := by
  generalize hresult : (EStateM.Result.ok b p' : EStateM.Result Diagnostic (Parser σ) α) = result
    at hrounds
  induction hrounds with
  | done hdone =>
    cases hresult
    exact h.reaches hdone
  | stops => cases hresult
  | round hround _ ih => exact (h.reaches hround).trans (ih hresult)

end

/-! ### Rules that return -/

section

variable [LawfulTokenStream σ] {limit : Option Nat} {action : Action} {p p' : Parser σ}

/-- A sequence goes through a round of its loop where a statement begins. -/
theorem sequence_progresses {statements : List Statement}
    (hstart : p.lookahead.startsStatement = true)
    (hrun : Grammar.sequence (Inner.whole limit) p = .ok statements p') : p.Progresses p' := by
  have hloop : IsLoop (Inner.whole limit : Inner σ) (sequenceStep (Inner.whole limit)) := .sequence
  obtain ⟨count, -, hrounds⟩ := hloop.loop.rounds p.pending [] p (Nat.le_refl _)
  have hresult : Rule.manyWithin (sequenceStep (Inner.whole limit)) p.pending [] p =
      .ok statements p' := hrun
  rw [hresult] at hrounds
  cases hrounds with
  | done hdone =>
    -- where a statement begins, the step of the loop goes on
    unfold sequenceStep at hdone
    rw [lookahead_bind, if_pos hstart] at hdone
    simp only [Bind.bind, EStateM.bind] at hdone
    cases hstatement : Grammar.statement (Inner.whole limit) p <;> rw [hstatement] at hdone <;>
      cases hdone
  | round hround hrest => exact (hloop.progresses hround).trans (hrest.reaches hloop)

/-- **A rule that returns has read a token**, except for a statement or a sequence where no
statement begins. -/
theorem action_progresses (hrule : action.isRule = true)
    (hstart : action = .statement ∨ action = .sequence → p.lookahead.startsStatement = true)
    {answer : Answer} (hrun : closed limit action.rule p = .ok answer p') : p.Progresses p' := by
  by_cases hend : action = .condition ∧ p.lookahead = .eof
  · -- at the end no condition is found
    obtain ⟨rfl, hend⟩ := hend
    rw [condition_of_end hend] at hrun
    split at hrun <;> cases hrun
  rw [closed_action_eq] at hrun
  by_cases hsequence : action = .sequence
  · subst hsequence
    have hmap : ((fun retained => Answer.program ⟨retained⟩) <$>
        Grammar.sequence (Inner.whole limit)) p = .ok answer p' := hrun
    rw [map_eq_pure_bind] at hmap
    simp only [Bind.bind, EStateM.bind] at hmap
    cases hstatements : Grammar.sequence (Inner.whole limit) p <;> rw [hstatements] at hmap <;>
      cases hmap
    exact sequence_progresses (hstart (.inr rfl)) hstatements
  · have halike (i j : Inner σ) : Alike Eq i j false (· = p.lookahead)
        (fun _ _ spent => spent = true) (action.rule i) (action.rule j) := by
      refine alike_action_post hrule ?_ (fun _ => rfl) ?_ (absurd · hsequence)
      · rintro hcondition _ rfl hkind
        exact hend ⟨hcondition, hkind⟩
      · rintro hstatement _ rfl hnone
        rw [hstart (.inl hstatement)] at hnone
        cases hnone
    exact (halike _ _).progresses rfl hrun

end

/-! ### The end of every run -/

/-- How a parser comes to the end of what is asked of it, where `bound` bounds the recursion of the
rules. -/
structure Parser.Ends (bound : Nat) (p : Parser σ) : Prop where
  /-- Each round of a loop that is gone through has read a token. -/
  round : ∀ {α : Type} {step : α → Rule σ (Option α)}, IsLoop (Inner.whole (some maxDepth)) step →
    ∀ a a' p', step a p = .ok (some a') p' → p.Progresses p'
  /-- So has each rule that returns, except for a statement or a sequence where no statement
  begins. -/
  rule : ∀ action : Action, action.isRule = true →
    (action = .statement ∨ action = .sequence → p.lookahead.startsStatement = true) →
      ∀ answer p', closed (some maxDepth) action.rule p = .ok answer p' → p.Progresses p'
  /-- A rule asks the rules further in, through which alone it can come back to itself, with one
  level of nesting more open. -/
  further : ∀ (action : Action) (i j : Inner σ), i.Agrees maxDepth p.depth j →
    action.rule i p = action.rule j p
  /-- Each loop is brought to its end by its step. -/
  loop : ∀ {α : Type} {step : α → Rule σ (Option α)}, IsLoop (Inner.whole (some maxDepth)) step →
    ∀ a, ∃ count, count ≤ p.pending ∧ Rule.Rounds step count a p (Rule.many step a p)
  /-- The rules over themselves are those that are run. -/
  run : ∀ (action : Action) (i : Inner σ), i.Recursive (some maxDepth) →
    closed (some maxDepth) action.rule p = action.rule i p
  /-- They come to the same as the rules with their recursion cut off at the bound, whatever stands
  there in their place. -/
  bounded : ∀ (action : Action) (i innermost : Inner σ), i.Recursive (some maxDepth) →
    innermost.limit = some maxDepth → action.rule (innermost.filled bound) p = action.rule i p

/-- Rules whose recursion is cut off where the limit on nesting is reached. -/
theorem action_filled {i innermost : Inner σ} (hi : i.Recursive (some maxDepth))
    (hinnermost : innermost.limit = some maxDepth) (action : Action) (p : Parser σ) :
    action.rule (innermost.filled maxDepth) p = action.rule i p := by
  have hagrees := Inner.agrees_filled hinnermost hi.limit_eq maxDepth maxDepth p.depth
    (Nat.le_add_right _ _) (Nat.le_add_right _ _)
  rw [hi.filled_eq] at hagrees
  exact (confined_action hagrees action p rfl).1

/-- **Parsing always ends**, over every stream that is finite and from every parser, and one bound
on the recursion of the rules serves them all. The rules over themselves, with no such bound, are
there. -/
theorem parsing_ends : ∃ bound : Nat, ∀ (σ : Type) [TokenStream σ] [LawfulTokenStream σ],
    (Inner.whole (some maxDepth) : Inner σ).Recursive (some maxDepth) ∧
      ∀ p : Parser σ, p.Ends bound := by
  refine ⟨maxDepth, fun σ _ _ => ⟨Inner.recursive_whole _, fun p => ?_⟩⟩
  refine ⟨fun h _ _ _ => h.progresses, fun _ hrule hstart _ _ => action_progresses hrule hstart,
    fun action i j hagrees => (confined_action hagrees action p rfl).1,
    fun h a => h.loop.rounds p.pending a p (Nat.le_refl _), fun action i hi => ?_,
    fun action i innermost hi hinnermost => action_filled hi hinnermost action p⟩
  calc
    closed (some maxDepth) action.rule p = action.rule (Inner.whole (some maxDepth)) p :=
      closed_action_eq _ action p
    _ = action.rule ((Inner.whole (some maxDepth)).filled maxDepth) p := by
      rw [(Inner.recursive_whole (some maxDepth)).filled_eq]
    _ = action.rule i p := action_filled hi rfl action p

/-- It ends over every source, and over every list of items. -/
theorem parsing_ends_everywhere : ∃ bound : Nat,
    (∀ p : Parser Lexer, p.Ends bound) ∧ ∀ p : Parser Playback, p.Ends bound := by
  obtain ⟨bound, hends⟩ := parsing_ends
  exact ⟨bound, (hends Lexer).2, (hends Playback).2⟩

end ScriptFront
