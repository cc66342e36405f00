import ScriptFront.Proofs.Parting
import ScriptFront.Proofs.Rules

/-!
# ScriptFront.Proofs.Levels

A run is bounded by two counts, both taken from the number of tokens pending: that of the rounds
of a loop, and that of the inner levels filled in. **The counts do not matter** as long as they are
large enough.

* Two runs that are related stay related, or part, with any numbers of levels that are large enough
  (`parts_levels`, `parts_closed`; `together_levels`, `together_closed` where they never part).
* A rule with its levels filled in is the rule whose inner rules have theirs filled in in turn
  (`closed_eq`).
* A loop is its step, and the loop again if the step has a result (`Loop.many_eq`).
-/

namespace ScriptFront

open Grammar

variable {σ τ : Type} [TokenStream σ] [TokenStream τ]

@[simp] theorem Inner.limit_levels (limit : Option Nat) (count : Nat) :
    (levels limit count : Inner σ).limit = limit := by
  cases count <;> rfl

section Parting

variable {E : Expr → Expr → Prop} {limit limit' : Option Nat}
  {R : Nat → Parser σ → Parser τ → Prop}
  {Q : Nat → Diagnostic → Diagnostic → Parser σ → Parser τ → Prop}
  {Stop : Nat → Diagnostic → Parser σ → Prop} {Astray : Parser τ → Prop}

/-- The levels filled in go on alone, however many there are. By induction on their number. -/
theorem strays_levels (hE : Compositional E) (stray : Straying E Astray) (limit : Option Nat)
    (n : Nat) : Inner.Strays E Astray (Inner.levels limit n : Inner τ) := by
  induction n with
  | zero => exact ⟨id, id⟩
  | succ n ih =>
    have hrun {α β : Type} {rel : α → β → Prop} {r : Rule τ α} {s : Rule τ β}
        (halike : Alike E (Inner.levels limit n : Inner τ) (Inner.levels limit n) false
          (fun _ => True) (fun a b _ => rel a b) r s) {q : Parser τ} (hq : Astray q) :
        Strays Astray (fun b => ∃ a, rel a b) (s q) := by
      refine (halike.strays stray ih q hq trivial).imp ?_ fun _ _ h => h
      rintro b q' ⟨hq', a, -, hab⟩
      exact ⟨hq', a, hab⟩
    exact ⟨hrun (alike_expression hE fun _ _ h => h), hrun (alike_sequence hE fun _ _ h => h)⟩

theorem Parting.levels (par : Parting E limit limit' R Q Stop Astray) (m n : Nat) :
    Parting E (Inner.levels limit m : Inner σ).limit (Inner.levels limit' n : Inner τ).limit
      R Q Stop Astray := by
  rw [Inner.limit_levels, Inner.limit_levels]
  exact par

variable [LawfulTokenStream σ] [LawfulTokenStream τ]

/-- The levels filled in run side by side until they part if there are more of them on each side
than tokens pending. By induction on the levels of one side: what is called further in has a token
less to read. -/
theorem parts_levels (hE : Compositional E) (par : Parting E limit limit' R Q Stop Astray)
    (m : Nat) : ∀ (n d : Nat) (p : Parser σ) (q : Parser τ), R d p q → p.pending < m →
      q.pending < n →
      Inner.Parts E R Q Stop Astray (Inner.levels limit m) (Inner.levels limit' n) d p q := by
  induction m with
  | zero =>
    intro n d p q _ hm
    exact absurd hm (Nat.not_lt_zero _)
  | succ m ih =>
    intro n d p q hrel hm hn
    obtain ⟨n, rfl⟩ : ∃ k, n = k + 1 := ⟨n - 1, by omega⟩
    have hrun {α β : Type} {rel : α → β → Prop} {r : Rule σ α} {s : Rule τ β}
        (halike : Alike E (Inner.levels limit m) (Inner.levels limit' n) false (fun _ => True)
          (fun a b _ => rel a b) r s) :
        Parts (Keeps R rel d p q) (Q d) (Stop d) Astray (fun b => ∃ a, rel a b) (r p) (s q) := by
      have hparts := halike.parts (par.levels m n) (strays_levels hE par.straying limit' n) (ih n)
        d p.pending q.pending p q (Nat.le_of_lt_succ hm) (Nat.le_of_lt_succ hn) hrel trivial
        ⟨Nat.le_refl _, Nat.le_refl _⟩
      refine hparts.imp ?_ fun b ⟨a, _, hab⟩ => ⟨a, hab⟩
      intro a b p' q' hmeets
      obtain ⟨hrel', spent, hab, hp, hq⟩ := hmeets
      exact ⟨hab, hrel', by omega, by omega⟩
    exact ⟨hrun (alike_expression hE fun _ _ h => h), hrun (alike_sequence hE fun _ _ h => h)⟩

/-- Two rules with their levels filled in run side by side until they part. -/
theorem parts_closed (hE : Compositional E) (par : Parting E limit limit' R Q Stop Astray)
    {α β : Type} {start : Kind → Prop} {post : α → β → Bool → Prop} {rule : Inner σ → Rule σ α}
    {rule' : Inner τ → Rule τ β} (h : ∀ i j, Alike E i j false start post (rule i) (rule' j))
    {d : Nat} {p : Parser σ} {q : Parser τ} (hrel : R d p q) (hstart : start p.lookahead) :
    Parts (Meets R post d p.pending q.pending) (Q d) (Stop d) Astray
      (fun b => ∃ a spent, post a b spent) (closed limit rule p) (closed limit' rule' q) :=
  (h _ _).parts (par.levels _ _) (strays_levels hE par.straying limit' q.pending)
    (parts_levels hE par p.pending q.pending) d p.pending q.pending p q (Nat.le_refl _)
    (Nat.le_refl _) hrel hstart ⟨Nat.le_refl _, Nat.le_refl _⟩

end Parting

section Simulation

variable {E : Expr → Expr → Prop} {limit limit' : Option Nat}
  {R : Nat → Parser σ → Parser τ → Prop}
  {Q : Nat → Diagnostic → Diagnostic → Parser σ → Parser τ → Prop}

/-- What is consumed has been read. -/
theorem Together.consume {rel : Parser σ → Parser τ → Prop}
    {fault : Diagnostic → Diagnostic → Parser σ → Parser τ → Prop} {p : Parser σ} {q : Parser τ}
    (h : Together (fun _ _ p' q' => rel p' q') fault (Rule.advance p) (Rule.advance q)) :
    Together (fun _ _ p' q' => rel p' q') fault (Rule.consume p) (Rule.consume q) :=
  h.bind fun _ _ _ _ hrel => hrel

variable [LawfulTokenStream σ] [LawfulTokenStream τ]

/-- The levels filled in run side by side if there are more of them on each side than tokens
pending. -/
theorem together_levels (hE : Compositional E) (sim : Simulation E limit limit' R Q)
    (m n d : Nat) (p : Parser σ) (q : Parser τ) (hrel : R d p q) (hm : p.pending < m)
    (hn : q.pending < n) :
    Inner.Together E R Q (Inner.levels limit m) (Inner.levels limit' n) d p q := by
  have hparts := parts_levels hE sim.parting m n d p q hrel hm hn
  exact ⟨hparts.expression.together, hparts.sequence.together⟩

/-- Two rules with their levels filled in run side by side. -/
theorem together_closed (hE : Compositional E) (sim : Simulation E limit limit' R Q) {α β : Type}
    {start : Kind → Prop} {post : α → β → Bool → Prop} {rule : Inner σ → Rule σ α}
    {rule' : Inner τ → Rule τ β} (h : ∀ i j, Alike E i j false start post (rule i) (rule' j))
    {d : Nat} {p : Parser σ} {q : Parser τ} (hrel : R d p q) (hstart : start p.lookahead) :
    Together (Meets R post d p.pending q.pending) (Q d)
      (closed limit rule p) (closed limit' rule' q) :=
  (parts_closed hE sim.parting h hrel hstart).together

/-- **Two programs run side by side** if they do so at their first token and behind the end. -/
theorem Simulation.program (hE : Compositional E)
    (sim : Simulation E (some maxDepth) (some maxDepth) R Q) {last : Parser σ → Parser τ → Prop}
    {s : σ} {t : τ}
    (hfirst : Together (fun _ _ p q => R 0 p q) (Q 0)
      (Rule.advance { stream := s }) (Rule.advance { stream := t }))
    (hlast : ∀ p q, R 0 p q → p.lookahead = .eof →
      Together (fun _ _ p' q' => last p' q') (Q 0) (Rule.advance p) (Rule.advance q)) :
    Together (fun a b p q => Retained E a.statements b.statements ∧ last p q) (Q 0)
      (Grammar.program (some maxDepth) { stream := s })
      (Grammar.program (some maxDepth) { stream := t }) := by
  have halike (i : Inner σ) (j : Inner τ) : Alike E i j false (fun _ => True)
      (fun l m _ => Retained E l m) (Grammar.sequence i) (Grammar.sequence j) :=
    alike_sequence hE fun _ _ hretained => hretained
  unfold Grammar.program
  refine Together.bind hfirst.consume fun _ _ p q hrel => ?_
  refine Together.bind (together_closed hE sim halike (d := 0) hrel trivial) fun l m p' q' h => ?_
  obtain ⟨hrel', spent, hretained, -⟩ := h
  have hexpect : Together (fun _ _ p' q' => last p' q') (Q 0)
      (Rule.expect .eof p') (Rule.expect .eof q') := by
    unfold Rule.expect
    rw [lookahead_bind, lookahead_bind, ← sim.lookahead hrel']
    by_cases hkind : p'.lookahead = .eof
    · rw [if_pos hkind, if_pos hkind]
      exact (hlast p' q' hrel' hkind).consume
    · rw [if_neg hkind, if_neg hkind]
      exact sim.unexpected hrel' fun hmem => hkind (List.mem_singleton.mp hmem)
  exact Together.bind hexpect fun _ _ _ _ hend => ⟨hretained, hend⟩

end Simulation

/-! ### One run, with its levels counted in two ways -/

theorem compositional_eq : Compositional Eq := by
  rintro op l _ r _ rfl rfl
  rfl

theorem eq_of_retained {l m : List Statement} (h : Retained Eq l m) : l = m := by
  induction h with
  | nil => rfl
  | @cons s t _ _ hst _ ih =>
    cases s
    cases t
    cases hst
    rw [ih]

/-- A parser beside itself, with a property that every token before the end keeps, and with what is
known of the faults that it stops at. -/
theorem simulation_self (limit : Option Nat) {Inv : Parser σ → Prop}
    {Stop : Diagnostic → Parser σ → Prop}
    (hadvance : ∀ p, Inv p → p.lookahead ≠ .eof →
      Lands (fun _ p' => Inv p') Stop (Rule.advance p))
    (hunexpected : ∀ p expected, Inv p → p.lookahead ∉ expected →
      Stop (p.unexpected expected) p)
    (henter : ∀ p, Inv p → Inv p.enter) (hleave : ∀ p, Inv p → Inv p.leave)
    (hfault : ∀ e p, Stop e p → Stop e p.leave) :
    Simulation Eq limit limit (fun _ (p q : Parser σ) => p = q ∧ Inv p)
      (fun _ e f p q => (e = f ∧ p = q) ∧ Stop e p) where
  lookahead := by
    rintro _ p _ ⟨rfl, -⟩
    rfl
  advance := by
    rintro _ p _ ⟨rfl, hinv⟩ hkind
    have hstep := hadvance p hinv hkind
    cases hrun : Rule.advance p <;> rw [hrun] at hstep
    · exact ⟨rfl, hstep⟩
    · exact ⟨⟨rfl, rfl⟩, hstep⟩
  unexpected := by
    rintro _ p _ expected ⟨rfl, hinv⟩ hkind
    exact ⟨⟨rfl, rfl⟩, hunexpected p expected hinv hkind⟩
  refusal := by
    rintro _ p _ ⟨rfl, -⟩
    rfl
  enter := by
    rintro _ p _ ⟨rfl, hinv⟩ -
    exact ⟨rfl, henter p hinv⟩
  leave := by
    rintro _ p _ ⟨rfl, hinv⟩
    exact ⟨rfl, hleave p hinv⟩
  leave_fault := by
    rintro _ e _ p _ ⟨⟨rfl, rfl⟩, hstop⟩
    exact ⟨⟨rfl, rfl⟩, hfault e p hstop⟩
  integer := by
    rintro _ p _ ⟨rfl, -⟩ -
    rfl
  identifier := by
    rintro _ p _ ⟨rfl, -⟩ -
    rfl
  text := by
    rintro _ p _ ⟨rfl, -⟩ -
    rfl

/-- A parser takes the same steps as itself. -/
theorem simulation_eq (limit : Option Nat) :
    Simulation Eq limit limit (fun _ (p q : Parser σ) => p = q)
      (fun _ e f p q => e = f ∧ p = q) := by
  have hself := @simulation_self σ _ limit (fun _ => True) (fun _ _ => True)
    (fun p _ _ => by cases Rule.advance p <;> trivial) (fun _ _ _ _ => trivial)
    (fun _ _ => trivial) (fun _ _ => trivial) fun _ _ _ => trivial
  simpa only [and_true] using hself

omit [TokenStream σ] in
theorem eq_of_together {α : Type} {x y : EStateM.Result Diagnostic (Parser σ) α}
    (h : Together (fun a b p q => a = b ∧ p = q) (fun e f p q => e = f ∧ p = q) x y) : x = y := by
  cases x <;> cases y
  · obtain ⟨rfl, rfl⟩ := h
    rfl
  · exact False.elim h
  · exact False.elim h
  · obtain ⟨rfl, rfl⟩ := h
    rfl

/-- The inner rules with all their levels filled in. -/
def Inner.whole (limit : Option Nat) : Inner σ where
  limit := limit
  expression := closed limit Grammar.expression
  sequence := closed limit Grammar.sequence

section

variable [LawfulTokenStream σ]

/-- The inner rules with all their levels filled in are those with any number of levels above
that of the tokens pending. -/
theorem whole_together_levels (limit : Option Nat) (m : Nat) (d : Nat) (p q : Parser σ) (h : p = q)
    (hm : p.pending < m) :
    Inner.Together Eq (fun _ p q => p = q) (fun _ e f p q => e = f ∧ p = q) (Inner.whole limit)
      (Inner.levels limit m) d p q := by
  subst h
  obtain ⟨m, rfl⟩ : ∃ k, m = k + 1 := ⟨m - 1, by omega⟩
  have hlevels := together_levels compositional_eq (simulation_eq (σ := σ) limit) (p.pending + 1)
    (m + 1) d p p rfl (Nat.lt_succ_self _) hm
  exact ⟨hlevels.expression, hlevels.sequence⟩

/-- The inner rules with all their levels filled in run side by side with themselves. -/
theorem Simulation.whole {limit : Option Nat} {R : Nat → Parser σ → Parser σ → Prop}
    {Q : Nat → Diagnostic → Diagnostic → Parser σ → Parser σ → Prop}
    (sim : Simulation Eq limit limit R Q) {d : Nat} {p q : Parser σ} (hrel : R d p q) :
    Inner.Together Eq R Q (Inner.whole limit) (Inner.whole limit) d p q := by
  have hlevels := together_levels compositional_eq sim (p.pending + 1) (q.pending + 1) d p q hrel
    (Nat.lt_succ_self _) (Nat.lt_succ_self _)
  exact ⟨hlevels.expression, hlevels.sequence⟩

/-- Two rules over the inner rules with all their levels filled in run side by side. -/
theorem Alike.simulates_whole {limit : Option Nat} {R : Nat → Parser σ → Parser σ → Prop}
    {Q : Nat → Diagnostic → Diagnostic → Parser σ → Parser σ → Prop} {α β : Type}
    {start : Kind → Prop} {post : α → β → Bool → Prop} {r : Rule σ α} {s : Rule σ β}
    (h : Alike Eq (Inner.whole limit) (Inner.whole limit) false start post r s)
    (sim : Simulation Eq limit limit R Q) {d : Nat} {p q : Parser σ} (hrel : R d p q)
    (hstart : start p.lookahead) :
    Together (Meets R post d p.pending q.pending) (Q d) (r p) (s q) :=
  h.simulates sim (fun _ _ _ hrel' _ _ => sim.whole hrel') d p.pending q.pending p q (Nat.le_refl _)
    (Nat.le_refl _) hrel hstart ⟨Nat.le_refl _, Nat.le_refl _⟩

/-- **The levels need not be counted**: a rule with its levels filled in is the rule over inner
rules that have theirs filled in. -/
theorem closed_eq (limit : Option Nat) {α : Type} {start : Kind → Prop}
    {rule : Inner σ → Rule σ α}
    (h : ∀ i j, Alike Eq i j false start (fun a b _ => a = b) (rule i) (rule j)) {p : Parser σ}
    (hstart : start p.lookahead) : closed limit rule p = rule (Inner.whole limit) p := by
  have hsim : Simulation Eq (Inner.whole limit : Inner σ).limit
      (Inner.levels limit p.pending : Inner σ).limit (fun _ (p q : Parser σ) => p = q)
      (fun _ e f p q => e = f ∧ p = q) := by
    rw [Inner.limit_levels]
    exact simulation_eq limit
  have hrun := (h (Inner.whole limit) (Inner.levels limit p.pending)).simulates hsim
    (M := p.pending) (N := p.pending)
    (fun d p' q' heq _ hn => whole_together_levels limit p.pending d p' q' heq (heq ▸ hn)) 0
    p.pending p.pending p p (Nat.le_refl _) (Nat.le_refl _) rfl hstart
    ⟨Nat.le_refl _, Nat.le_refl _⟩
  -- the parser is the same on both sides, and so what the two runs give is the same
  refine (eq_of_together (hrun.imp ?_ fun _ _ _ _ hfault => hfault)).symm
  intro a b p' q' hmeets
  obtain ⟨heq, _, hab, _⟩ := hmeets
  exact ⟨hab, heq⟩

theorem whole_expression (limit : Option Nat) :
    (Inner.whole limit : Inner σ).expression = Grammar.expression (Inner.whole limit) := by
  have halike (i j : Inner σ) : Alike Eq i j false (fun _ => True) (fun a b _ => a = b)
      (Grammar.expression i) (Grammar.expression j) :=
    alike_expression compositional_eq fun _ _ h => h
  exact funext fun p => closed_eq limit halike trivial

theorem whole_sequence (limit : Option Nat) :
    (Inner.whole limit : Inner σ).sequence = Grammar.sequence (Inner.whole limit) := by
  have halike (i j : Inner σ) : Alike Eq i j false (fun _ => True) (fun a b _ => a = b)
      (Grammar.sequence i) (Grammar.sequence j) :=
    alike_sequence compositional_eq fun _ _ h => eq_of_retained h
  exact funext fun p => closed_eq limit halike trivial

end

/-! ### Rounds of a loop -/

/-- What makes the rounds of a loop few enough: the step does nothing at the end, and consumes a
token if it has a result. -/
structure Loop {α : Type} (step : α → Rule σ (Option α)) : Prop where
  rest (a : α) (p : Parser σ) : p.lookahead = .eof → step a p = .ok none p
  spend {a a' : α} {p p' : Parser σ} : step a p = .ok (some a') p' → p'.pending < p.pending

/-- The number of rounds of a loop does not matter if it is no smaller than that of the tokens
pending. -/
theorem Loop.manyWithin_eq {α : Type} {step : α → Rule σ (Option α)} (h : Loop step) (m : Nat) :
    ∀ (n : Nat) (a : α) (p : Parser σ), p.pending ≤ m → p.pending ≤ n →
      Rule.manyWithin step m a p = Rule.manyWithin step n a p := by
  induction m with
  | zero =>
    intro n a p hm hn
    have hend : p.lookahead = .eof := by
      by_contra hkind
      have := Parser.pending_pos hkind
      omega
    rw [manyWithin_of_end h.rest n a hend]
    rfl
  | succ m ih =>
    intro n a p hm hn
    by_cases hend : p.lookahead = .eof
    · rw [manyWithin_of_end h.rest (m + 1) a hend, manyWithin_of_end h.rest n a hend]
    · have hpos := Parser.pending_pos hend
      obtain ⟨n, rfl⟩ : ∃ k, n = k + 1 := ⟨n - 1, by omega⟩
      simp only [Rule.manyWithin, Bind.bind, EStateM.bind]
      cases hstep : step a p with
      | error e p' => rfl
      | ok found p' =>
        cases found with
        | none => rfl
        | some a' =>
          have := h.spend hstep
          exact ih n a' p' (by omega) (by omega)

/-- **The rounds need not be counted**: a loop is its step, and the loop again if the step has a
result. -/
theorem Loop.many_eq {α : Type} {step : α → Rule σ (Option α)} (h : Loop step) (a : α) :
    Rule.many step a = (do
      match ← step a with
      | none => return a
      | some a' => Rule.many step a') := by
  funext p
  calc
    Rule.many step a p = Rule.manyWithin step (p.pending + 1) a p :=
      h.manyWithin_eq p.pending (p.pending + 1) a p (Nat.le_refl _) (Nat.le_succ _)
    _ = _ := by
      simp only [Rule.manyWithin, Bind.bind, EStateM.bind]
      cases hstep : step a p with
      | error e p' => rfl
      | ok found p' =>
        cases found with
        | none => rfl
        | some a' =>
          have := h.spend hstep
          exact h.manyWithin_eq p.pending p'.pending a' p' (by omega) (Nat.le_refl _)

/-- A repetition is its step, and the repetition again if the step has found something. -/
theorem repeatWhile_eq {step : Rule σ Bool} (hloop : Loop fun _ : Unit => Rule.again step) :
    Rule.repeatWhile step = (do
      if ← step then Rule.repeatWhile step else pure ()) := by
  have hmany := hloop.many_eq ()
  unfold Rule.again at hmany
  rw [bind_assoc] at hmany
  refine hmany.trans (congrArg (step >>= ·) (funext fun found => ?_))
  cases found <;> rfl

/-- The steps of a loop that is related to itself consume a token each. -/
theorem Loop.of_alike [LawfulTokenStream σ] {α : Type} {step : α → Rule σ (Option α)}
    (limit : Option Nat) {keep : α → α → Prop}
    (hrest : ∀ a (p : Parser σ), p.lookahead = .eof → step a p = .ok none p)
    (hstep : ∀ a, Alike Eq (Inner.whole limit) (Inner.whole limit) false (fun _ => True)
      (GoesOn keep) (step a) (step a)) : Loop step where
  rest := hrest
  spend := by
    intro a a' p p' h
    have hrun := (hstep a).simulates_whole (simulation_eq limit) (d := 0) (p := p) rfl trivial
    rw [h] at hrun
    obtain ⟨-, spent, ⟨-, rfl⟩, hspent, -⟩ := hrun
    exact hspent

end ScriptFront
