import ScriptFront.Proofs.Confined
import ScriptFront.Proofs.Describing

/-!
# ScriptFront.Proofs.Restoring

**The levels of nesting are always restored.** Whatever is asked of a parser, and whatever becomes
of it, the parser has as many levels open afterwards as before, and it never has more of them open
than the limit allows (`levels_restored`). A level that is closed is the one that has been opened,
so the count of levels falls below that of the caller as little as it rises above the limit. Steps
that fail therefore cost nothing: a step behind them can open as many levels as one before them.

The levels filled in agree with themselves, whatever their number (`Inner.agrees_levels`), which
makes of `confined_action` a fact about the rules as they are run.
-/

namespace ScriptFront

open Grammar

variable {σ α : Type} [TokenStream σ] {limit : Nat} {p q : Parser σ}

/-! ### One step -/

/-- The levels filled in leave the levels as they were. By induction on their number. -/
theorem Inner.agrees_levels (limit count : Nat) :
    ∀ d, (Inner.levels (some limit) count : Inner σ).Agrees limit d
      (Inner.levels (some limit) count) := by
  induction count with
  | zero => exact fun d => ⟨rfl, rfl, fun _ => .fail [], fun _ => .fail []⟩
  | succ count ih =>
    exact fun d => ⟨rfl, rfl, fun _ => confined_expression (ih (d + 1)),
      fun _ => confined_sequence (ih (d + 1))⟩

theorem confined_closed (limit d : Nat) (action : Action) :
    Confined limit d (closed (some limit) action.rule : Rule σ Answer)
      (closed (some limit) action.rule) :=
  fun p hd => ⟨rfl, (confined_action (Inner.agrees_levels limit p.pending d) action p hd).2⟩

theorem confined_nestedTimes {rule : Rule σ α} (h : ∀ d, Confined limit d rule rule) (count : Nat) :
    ∀ d, Confined limit d (Rule.nestedTimes (some limit) count rule)
      (Rule.nestedTimes (some limit) count rule) := by
  induction count with
  | zero => exact h
  | succ count ih => exact fun d => .nested fun _ => ih (d + 1)

/-- **A step of a session restores the levels.** -/
theorem Parser.restored_step (limit : Nat) (step : Step) (p : Parser σ) :
    p.Restored limit (stateAfter (step.rule (some limit) p)) :=
  (confined_nestedTimes (fun d => confined_closed limit d step.action) step.nest p.depth p rfl).2

/-- The rules that are run inside a level of nesting: what stands in parentheses, a condition, and
what is asked for inside some levels. -/
inductive Enclosed : {α : Type} → Rule σ α → Prop
  | parenthesised (count : Nat) :
    Enclosed (Grammar.parenthesised (Inner.levels (some maxDepth) count))
  | branches (count : Nat) : Enclosed (Grammar.branches (Inner.levels (some maxDepth) count))
  | step (step : Step) : Enclosed (step.rule (some maxDepth))

/-- What is run inside a level leaves it open, so that it is this level that is closed then. -/
theorem Enclosed.depth_eq {rule : Rule σ α} (h : Enclosed rule) (hopen : p.depth < maxDepth) :
    (stateAfter (rule p.enter)).depth = p.depth + 1 := by
  cases h with
  | parenthesised count =>
    have hagrees := Inner.agrees_levels (σ := σ) maxDepth count p.depth
    exact (confined_parenthesised hagrees hopen p.enter rfl).2.depth_eq
  | branches count =>
    have hagrees := Inner.agrees_levels (σ := σ) maxDepth count p.depth
    exact (confined_branches hagrees hopen p.enter rfl).2.depth_eq
  | step step => exact (p.enter.restored_step maxDepth step).depth_eq

/-! ### Levels that can be opened -/

theorem nestedTimes_succ {limit : Option Nat} {rule : Rule σ α} (count : Nat) :
    Rule.nestedTimes limit (count + 1) rule =
      Rule.nested limit (Rule.nestedTimes limit count rule) := rfl

/-- As many levels as are left under the limit are opened as if there were none. -/
theorem nestedTimes_of_le {rule : Rule σ α} (count : Nat) :
    ∀ p : Parser σ, count ≤ limit - p.depth →
      Rule.nestedTimes (some limit) count rule p = Rule.nestedTimes none count rule p := by
  induction count with
  | zero => exact fun _ _ => rfl
  | succ count ih =>
    intro p hcount
    have hopen : p.depth < limit := by omega
    have hinside : count ≤ limit - p.enter.depth := by
      simp only [Parser.enter]
      omega
    rw [nestedTimes_succ, nestedTimes_succ, Rule.nested_of_lt hopen]
    simp only [Rule.nested, Option.any_none, Bool.false_eq_true, if_false, ih p.enter hinside]

/-- One level more is refused, with nothing expected. -/
theorem nestedTimes_of_lt {rule : Rule σ α} (count : Nat) :
    ∀ p : Parser σ, limit - p.depth < count →
      ∃ q, Rule.nestedTimes (some limit) count rule p = .error (q.unexpected []) q := by
  induction count with
  | zero => exact fun _ hcount => absurd hcount (Nat.not_lt_zero _)
  | succ count ih =>
    intro p hcount
    rw [nestedTimes_succ]
    rcases Nat.lt_or_ge p.depth limit with hopen | hclosed
    · have hinside : limit - p.enter.depth < count := by
        simp only [Parser.enter]
        omega
      obtain ⟨q, hq⟩ := ih p.enter hinside
      rw [Rule.nested_of_lt hopen]
      simp only [Rule.nested, Option.any_none, Bool.false_eq_true, if_false, hq]
      exact ⟨q.leave, rfl⟩
    · rw [Rule.nested_of_le hclosed]
      exact ⟨p, rfl⟩

/-! ### Sessions -/

/-- What a session does to the levels of nesting, from any parser on. -/
structure Parser.KeepsLevels (p : Parser σ) (steps : List Step) : Prop where
  /-- Every step leaves as many levels open as there were, whatever became of it. -/
  restored : ∀ result ∈ p.run steps, (stateAfter result).depth = p.depth
  /-- No step has had more levels open on the way than the limit allows. -/
  within : ∀ result ∈ p.run steps, (stateAfter result).peak ≤ max p.peak maxDepth
  /-- A level is opened below the limit only, and when it is closed there is that level to close. -/
  closes : ∀ {α : Type} (rule : Rule σ α), Enclosed rule → p.depth < maxDepth →
    p.enter.depth ≤ maxDepth ∧ (stateAfter (rule p.enter)).depth = p.enter.depth
  /-- Behind the session all levels that were left under the limit can be opened. -/
  available : ∀ step : Step, step.nest ≤ maxDepth - p.depth →
    step.rule (some maxDepth) (p.after steps) =
      Rule.nestedTimes none step.nest (closed (some maxDepth) step.action.rule) (p.after steps)
  /-- One more of them is refused. -/
  refused : ∀ step : Step, maxDepth - p.depth < step.nest →
    ∃ q, step.rule (some maxDepth) (p.after steps) = .error (q.unexpected []) q

/-- What one step does to the levels, the steps of a session do. By induction on the steps. -/
theorem Parser.restored_after (steps : List Step) :
    ∀ p : Parser σ, p.Restored maxDepth (p.after steps) := by
  induction steps with
  | nil => exact .refl maxDepth
  | cons step steps ih => exact fun p => (p.restored_step maxDepth step).trans (ih _)

/-- Each step of a session begins where those before it have led. -/
theorem Parser.restored_run {steps : List Step}
    {result : EStateM.Result Diagnostic (Parser σ) Answer} (hresult : result ∈ p.run steps) :
    p.Restored maxDepth (stateAfter result) := by
  obtain ⟨index, hindex⟩ := List.mem_iff_getElem?.mp hresult
  rw [Parser.getElem?_run] at hindex
  obtain ⟨step, -, rfl⟩ := Option.map_eq_some_iff.mp hindex
  exact (p.restored_after _).trans (Parser.restored_step maxDepth step _)

/-- **The levels of nesting are always restored**, over every stream and from every parser, whatever
has been asked of it and whatever has become of that. -/
theorem levels_restored (p : Parser σ) (steps : List Step) : p.KeepsLevels steps := by
  have hdepth := (p.restored_after steps).depth_eq
  refine ⟨fun result hresult => ?_, fun result hresult => ?_, fun rule h hopen => ?_,
    fun step h => ?_, fun step h => ?_⟩
  · exact (p.restored_run hresult).depth_eq
  · exact (p.restored_run hresult).peak_le
  · exact ⟨hopen, h.depth_eq hopen⟩
  · rw [← hdepth] at h
    exact nestedTimes_of_le step.nest _ h
  · rw [← hdepth] at h
    exact nestedTimes_of_lt step.nest _ h

end ScriptFront
