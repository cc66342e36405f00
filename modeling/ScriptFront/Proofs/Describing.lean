import ScriptFront.Grammar.Session
import ScriptFront.Proofs.Limit

/-!
# ScriptFront.Proofs.Describing

**A fault describes the state that the parser has stopped in.** There are two ways for a parser to
stop (`Parser.Stopped`): its stream fails, and the parser passes on that fault without having done
anything since, or the grammar refuses the token in view, and the fault is told by that token.

That the kind in view is the kind of the current token is kept by every token that is read, whether
it can be had or not (`Describes.advance`), and so by every rule and by every step of a session,
whatever became of the steps before (`Describes.step`).
-/

namespace ScriptFront

open Grammar

variable {σ : Type} [TokenStream σ]

/-! ### Where a parser stops -/

/-- The kind in view is that of the current token of the stream. -/
def Parser.InStep (p : Parser σ) : Prop :=
  p.lookahead = p.current.kind

/-- A parser that began at `start` has stopped at a fault. -/
inductive Parser.Stopped (start : Parser σ) (fault : Diagnostic) (p : Parser σ) : Prop
  /-- The last that was asked of the stream has failed with the fault. Neither the kind in view nor
  the current token has changed by that. -/
  | failed {w : List Kind} {s : σ} (hwalk : Walk w start.stream start.lookahead s p.lookahead)
      (hadvance : TokenStream.advance s = .error fault p.stream)
      (hcurrent : p.current = TokenStream.current s)
  /-- The token in view is none of those that are expected, and that is the fault. -/
  | refused {expected : List Kind} (hfault : fault = p.unexpected expected)
      (hexpected : p.lookahead ∉ expected)

/-- Where an action leaves a parser that began at `start`. The fault is accounted for, unless it is
one that was asked for. -/
abbrev Parser.Describes {α : Type} (start : Parser σ) (action : Action) :
    EStateM.Result Diagnostic (Parser σ) α → Prop :=
  Lands (fun _ p => p.InStep) fun fault p =>
    p.InStep ∧ ((∀ expected, action ≠ .fail expected) → start.Stopped fault p)

variable {start p : Parser σ} {action : Action} {limit : Option Nat}

theorem Parser.Describes.inStep {α : Type} {result : EStateM.Result Diagnostic (Parser σ) α}
    (h : start.Describes action result) : (stateAfter result).InStep := by
  cases result with
  | ok _ p => exact h
  | error _ p => exact h.1

/-- A level that is closed changes nothing of what a fault tells. -/
theorem Parser.Stopped.leave {fault : Diagnostic} (h : start.Stopped fault p) :
    start.Stopped fault p.leave := by
  cases h with
  | failed hwalk hadvance hcurrent => exact .failed hwalk hadvance hcurrent
  | refused hfault hexpected => exact .refused hfault hexpected

/-- Nor does one that is opened. -/
theorem Parser.Stopped.of_enter {fault : Diagnostic} (h : start.enter.Stopped fault p) :
    start.Stopped fault p := by
  cases h with
  | failed hwalk hadvance hcurrent => exact .failed hwalk hadvance hcurrent
  | refused hfault hexpected => exact .refused hfault hexpected

theorem Parser.Reaches.refl (p : Parser σ) : p.Reaches p :=
  ⟨[], rfl, rfl⟩

/-! ### One token -/

section

variable [LawfulTokenStream σ]

theorem Parser.InStep.of_advance {kind : Kind} {s : σ}
    (hadvance : TokenStream.advance p.stream = .ok kind s) :
    ({ p with stream := s, lookahead := kind } : Parser σ).InStep :=
  (LawfulTokenStream.kind_current hadvance).symm

/-- A stream that fails leaves both the kind in view and the current token alone. -/
theorem Parser.InStep.of_failure (h : p.InStep) {fault : Diagnostic} {s : σ}
    (hadvance : TokenStream.advance p.stream = .error fault s) :
    ({ p with stream := s } : Parser σ).InStep := by
  have hcurrent := LawfulTokenStream.current_of_error hadvance
  show p.lookahead = (TokenStream.current s).kind
  rw [hcurrent]
  exact h

theorem Parser.Reaches.stopped (h : start.Reaches p) {fault : Diagnostic} {s : σ}
    (hadvance : TokenStream.advance p.stream = .error fault s) :
    start.Stopped fault { p with stream := s } := by
  obtain ⟨w, hwalk⟩ := h
  exact .failed hwalk hadvance (LawfulTokenStream.current_of_error hadvance)

theorem Describes.advance (h : p.InStep) : p.Describes action (Rule.advance p) := by
  cases hadvance : TokenStream.advance p.stream with
  | ok kind s =>
    rw [Rule.advance_of_ok hadvance]
    exact .of_advance hadvance
  | error fault s =>
    rw [Rule.advance_of_error hadvance]
    exact ⟨h.of_failure hadvance, fun _ => (Parser.Reaches.refl p).stopped hadvance⟩

theorem Describes.consume (h : p.InStep) : p.Describes action (Rule.consume p) :=
  Lands.bind (advance h) fun _ _ hin => hin

theorem Describes.expect (h : p.InStep) (kind : Kind) :
    p.Describes action (Rule.expect kind p) := by
  unfold Rule.expect
  rw [lookahead_bind]
  by_cases hkind : p.lookahead = kind
  · rw [if_pos hkind]
    exact consume h
  · rw [if_neg hkind]
    exact ⟨h, fun _ => .refused rfl fun hmem => hkind (List.mem_singleton.mp hmem)⟩

/-! ### Rules -/

/-- A parser beside itself, as far as it has come. -/
theorem simulation_stopped (start : Parser σ) (limit : Option Nat) :
    Simulation Eq limit limit (fun _ p q => p = q ∧ p.InStep ∧ start.Reaches p)
      (fun _ e f p q => (e = f ∧ p = q) ∧ p.InStep ∧ start.Stopped e p) := by
  refine simulation_self limit ?_ (fun p expected hinv hkind => ⟨hinv.1, .refused rfl hkind⟩)
    (fun _ hinv => hinv) (fun _ hinv => hinv) fun _ _ hstop => ⟨hstop.1, hstop.2.leave⟩
  rintro p ⟨hin, w, hwalk⟩ hkind
  cases hadvance : TokenStream.advance p.stream with
  | ok kind s =>
    rw [Rule.advance_of_ok hadvance]
    exact ⟨.of_advance hadvance, _, hwalk.advance hkind hadvance⟩
  | error fault s =>
    rw [Rule.advance_of_error hadvance]
    exact ⟨hin.of_failure hadvance, Parser.Reaches.stopped ⟨w, hwalk⟩ hadvance⟩

theorem Describes.rule (hrule : action.isRule = true) (h : p.InStep) :
    p.Describes action (closed limit action.rule p) := by
  by_cases hend : action = .condition ∧ p.lookahead = .eof
  · -- a condition opens its level before it looks at the token in view
    obtain ⟨rfl, hend⟩ := hend
    rw [condition_of_end hend]
    split
    · exact ⟨h, fun _ => .refused rfl List.not_mem_nil⟩
    · refine ⟨h, fun _ => .refused rfl ?_⟩
      show p.lookahead ∉ [Kind.ifWord]
      rw [hend]
      decide
  · have halike (i j : Inner σ) : Alike Eq i j false (· = p.lookahead) (fun a b _ => a = b)
        (action.rule i) (action.rule j) := alike_action_of_kind hrule hend
    have hrun := together_closed compositional_eq (simulation_stopped p limit) halike
      (d := p.depth) ⟨rfl, h, .refl p⟩ rfl
    cases hclosed : closed limit action.rule p <;> rw [hclosed] at hrun
    · exact hrun.1.2.1
    · exact ⟨hrun.2.1, fun _ => hrun.2.2⟩

theorem Describes.closed (h : p.InStep) (action : Action) :
    p.Describes action (Grammar.closed limit action.rule p) := by
  cases action with
  | advance => exact Lands.bind (advance h) fun _ _ hin => hin
  | consume => exact Lands.bind (consume h) fun _ _ hin => hin
  | expect kind => exact Lands.bind (expect h kind) fun _ _ hin => hin
  | fail expected => exact ⟨h, fun hfail => absurd rfl (hfail expected)⟩
  | nothing => exact h
  | _ => exact rule rfl h

end

/-! ### Sessions -/

/-- Levels that are opened around a rule change nothing. By induction on their number. -/
theorem Describes.nestedTimes {α : Type} {rule : Rule σ α}
    (hrule : ∀ p : Parser σ, p.InStep → p.Describes action (rule p)) (count : Nat) :
    ∀ p : Parser σ, p.InStep → p.Describes action (Rule.nestedTimes limit count rule p) := by
  induction count with
  | zero => exact hrule
  | succ count ih =>
    intro p h
    have hinside := ih p.enter h
    simp only [Rule.nestedTimes, Rule.nested]
    split
    · exact ⟨h, fun _ => .refused rfl List.not_mem_nil⟩
    · cases hrun : Rule.nestedTimes limit count rule p.enter with
      | ok value q =>
        rw [hrun] at hinside
        exact hinside
      | error fault q =>
        rw [hrun] at hinside
        exact ⟨hinside.1, fun hfail => (hinside.2 hfail).of_enter.leave⟩

/-- **Every step of a session describes where it leaves the parser.** -/
theorem Describes.step [LawfulTokenStream σ] (h : p.InStep) (step : Step) :
    p.Describes step.action (step.rule limit p) :=
  nestedTimes (fun _ hin => closed hin step.action) step.nest p h

/-- The parser that the steps of a session lead to. -/
def Parser.after (p : Parser σ) : List Step → Parser σ
  | [] => p
  | step :: steps => (stateAfter (step.rule (some maxDepth) p)).after steps

/-- A step of a session begins where the steps before it have led. -/
theorem Parser.getElem?_run (steps : List Step) : ∀ (p : Parser σ) (index : Nat),
    (p.run steps)[index]? =
      steps[index]?.map fun step => step.rule (some maxDepth) (p.after (steps.take index)) := by
  induction steps with
  | nil => exact fun _ _ => rfl
  | cons step steps ih =>
    intro p index
    cases index with
    | zero => rfl
    | succ index => exact ih _ index

theorem Parser.InStep.after [LawfulTokenStream σ] (steps : List Step) :
    ∀ {p : Parser σ}, p.InStep → (p.after steps).InStep := by
  induction steps with
  | nil => exact id
  | cons step steps ih => exact fun h => ih (Describes.step h step).inStep

/-- In a session the kind in view is always that of the current token, and whenever a step stops at
a fault, the fault describes where the parser stands. -/
def Parser.Explains (p : Parser σ) (steps : List Step) : Prop :=
  p.InStep ∧ ∀ (index : Nat) (step : Step) (result : EStateM.Result Diagnostic (Parser σ) Answer),
    steps[index]? = some step → (p.run steps)[index]? = some result →
      (stateAfter result).InStep ∧ ∀ fault q, result = .error fault q →
        (∀ expected, step.action ≠ .fail expected) →
          (p.after (steps.take index)).Stopped fault q

theorem Parser.InStep.explains [LawfulTokenStream σ] (h : p.InStep) (steps : List Step) :
    p.Explains steps := by
  refine ⟨h, fun index step result hstep hresult => ?_⟩
  rw [Parser.getElem?_run, hstep] at hresult
  have hdescribes : (p.after (steps.take index)).Describes step.action result := by
    rw [← Option.some.inj hresult]
    exact Describes.step (h.after (steps.take index)) step
  refine ⟨hdescribes.inStep, fun fault q hfault => ?_⟩
  rw [hfault] at hdescribes
  exact hdescribes.2

/-- **A fault always describes the state that the parser has stopped in**, whatever has been asked
of the parser before, over sources and over lists of items alike. -/
theorem faults_describe_state :
    (∀ (source file : String) (steps : List Step),
      ({ stream := Lexer.ofSource source file } : Parser Lexer).Explains steps) ∧
      ∀ (file : String) (items : List Item) (steps : List Step),
        ({ stream := Playback.ofItems file items } : Parser Playback).Explains steps :=
  ⟨fun _ _ => Parser.InStep.explains rfl, fun _ _ => Parser.InStep.explains rfl⟩

end ScriptFront
