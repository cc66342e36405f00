import ScriptFront.Proofs.Acceptance
import ScriptFront.Proofs.Failing

/-!
# ScriptFront.Proofs.Limit

**The limit on nesting changes nothing but deep input.** A rule is compared with the same rule to
which no level is refused. `LimitExact` says what the limit does to it, and `limitExact` that it
does so to every rule of the grammar, from every parser that has not gone beyond the limit before.

The two runs are side by side until a level is refused under the limit, and have parted then. That
the token in view there is the one that opens the first level beyond the limit is told by the run
without a limit alone: cut short by a failure in the place of an item, it has gone beyond the limit
if and only if all the items up to that token come before the failure (`peakOf_failingAt`).
-/

namespace ScriptFront

open Grammar

section

variable {σ α : Type} [TokenStream σ]

/-- The greatest number of levels that a rule has come to have open at once, where no level is
refused. -/
def peakOf (rule : Inner σ → Rule σ α) (p : Parser σ) : Nat :=
  (stateAfter (closed none rule p)).peak

end

/-- What the limit does to a rule. -/
structure LimitExact {α : Type} (rule : Inner Playback → Rule Playback α)
    (p : Parser Playback) : Prop where
  /-- The limit changes nothing for input that never has more levels open. -/
  shallow : peakOf rule p ≤ maxDepth → closed (some maxDepth) rule p = closed none rule p
  /-- Otherwise the rule stops behind some tokens with nothing expected, and with the token in view
  that opens the first level beyond the limit: a failure keeps the rule to which no level is refused
  from going beyond the limit if and only if it stands before the end of those tokens. -/
  deep : maxDepth < peakOf rule p → ∃ w p',
    closed (some maxDepth) rule p = .error (p'.unexpected []) p' ∧
      Walk w p.stream p.lookahead p'.stream p'.lookahead ∧ p'.depth = p.depth ∧
        ∀ n, maxDepth < peakOf rule (p.failingAt n) ↔ w.length ≤ n
  /-- Where no item fails, the limit is what was hit if and only if nothing is expected. -/
  refused : Faultless p.stream.unread →
    ((∃ fault p', closed (some maxDepth) rule p = .error fault p' ∧ fault.cause = .unexpected []) ↔
      maxDepth < peakOf rule p)

/-! ### A rule with and without the limit -/

section

variable {σ : Type} [TokenStream σ]

/-- A parser stands where another one comes to with some of its tokens. -/
def Parser.Reaches (start p : Parser σ) : Prop :=
  ∃ w, Walk w start.stream start.lookahead p.stream p.lookahead

/-- The stream fails with a diagnostic behind some of the tokens of a parser. -/
def Parser.Fails (start : Parser σ) (fault : Diagnostic) : Prop :=
  ∃ w s next s', Walk w start.stream start.lookahead s next ∧
    TokenStream.advance s = .error fault s'

/-- A run under a limit and one without are the same until a level is refused. -/
theorem parting_limit (start : Parser σ) (limit : Nat) :
    Parting Eq (some limit) none
      (fun d (p q : Parser σ) => p = q ∧ p.depth = d ∧ p.peak ≤ limit ∧ start.Reaches p)
      (fun _ e f p q => (e = f ∧ p = q) ∧ p.peak ≤ limit ∧
        (e.cause = .unexpected [] → start.Fails e))
      (fun d e p => e = p.unexpected [] ∧ p.depth = d ∧ p.lookahead ≠ .eof ∧ start.Reaches p)
      (fun q => limit < q.peak) where
  lookahead := by
    rintro _ p _ ⟨rfl, -⟩
    rfl
  advance := by
    rintro d p _ ⟨rfl, hdepth, hpeak, w, hwalk⟩ hkind
    left
    cases hadvance : TokenStream.advance p.stream with
    | ok kind s =>
      rw [Rule.advance_of_ok hadvance]
      exact ⟨rfl, hdepth, hpeak, _, hwalk.advance hkind hadvance⟩
    | error fault s =>
      rw [Rule.advance_of_error hadvance]
      exact ⟨⟨rfl, rfl⟩, hpeak, fun _ => ⟨w, _, _, s, hwalk, hadvance⟩⟩
  unexpected := by
    rintro _ p _ expected ⟨rfl, -, hpeak, -⟩ - hne
    exact ⟨⟨rfl, rfl⟩, hpeak, fun hcause => absurd (Cause.unexpected.inj hcause) hne⟩
  refuse := by
    intro _ _ _ _ _ hlimit
    cases hlimit
  part := by
    rintro d p _ ⟨rfl, hdepth, hpeak, hreaches⟩ hkind hlimit -
    refine ⟨⟨rfl, hdepth, hkind, hreaches⟩, ?_⟩
    have hle : limit ≤ p.depth := by simpa using hlimit
    simp only [Parser.enter]
    omega
  enter := by
    rintro d p _ ⟨rfl, hdepth, hpeak, hreaches⟩ hlimit
    have hlt : p.depth < limit := by simpa using hlimit
    refine ⟨rfl, rfl, congrArg (· + 1) hdepth, ?_, hreaches⟩
    simp only [Parser.enter]
    omega
  leave := by
    rintro d p _ ⟨rfl, hdepth, hpeak, hreaches⟩
    refine ⟨rfl, ?_, hpeak, hreaches⟩
    simp only [Parser.leave, hdepth, Nat.add_sub_cancel]
  leave_fault := by
    rintro d e _ p _ ⟨⟨rfl, rfl⟩, hpeak, hfails⟩
    exact ⟨⟨rfl, rfl⟩, hpeak, hfails⟩
  leave_stop := by
    rintro d e p ⟨rfl, hdepth, hkind, hreaches⟩
    refine ⟨rfl, ?_, hkind, hreaches⟩
    simp only [Parser.leave, hdepth, Nat.add_sub_cancel]
  integer := by
    rintro _ p _ ⟨rfl, -⟩ -
    rfl
  identifier := by
    rintro _ p _ ⟨rfl, -⟩ -
    rfl
  text := by
    rintro _ p _ ⟨rfl, -⟩ -
    rfl
  straying :=
    { advance := by
        intro q hq
        cases hadvance : TokenStream.advance q.stream with
        | ok kind s =>
          rw [Rule.advance_of_ok hadvance]
          exact hq
        | error fault s =>
          rw [Rule.advance_of_error hadvance]
          exact hq
      enter := fun hq => Nat.lt_of_lt_of_le hq (Nat.le_max_left _ _)
      leave := id
      related := fun _ b => ⟨b, rfl⟩ }

variable {α : Type} {start : Kind → Prop} {rule : Inner σ → Rule σ α} {p : Parser σ}

/-- **A rule under a limit and the same rule without one**: both come to the same if the limit is
never exceeded, and otherwise the first one stops where a level is refused. -/
theorem closed_limit [LawfulTokenStream σ] (limit : Nat)
    (h : ∀ i j, Alike Eq i j false start (fun a b _ => a = b) (rule i) (rule j))
    (hstart : start p.lookahead) (hpeak : p.peak ≤ limit) :
    (closed (some limit) rule p = closed none rule p ∧ peakOf rule p ≤ limit ∧
        ∀ fault q, closed none rule p = .error fault q → fault.cause = .unexpected [] →
          p.Fails fault) ∨
      (∃ p', closed (some limit) rule p = .error (p'.unexpected []) p' ∧ p'.depth = p.depth ∧
        p'.lookahead ≠ .eof ∧ p.Reaches p') ∧ limit < peakOf rule p := by
  have hparts := parts_closed compositional_eq (parting_limit p limit) h (p := p) (d := p.depth)
    ⟨rfl, rfl, hpeak, [], rfl, rfl⟩ hstart
  unfold peakOf
  rcases hparts with htogether | ⟨hstop, hstrays⟩
  · left
    cases hp : closed (some limit) rule p <;> cases hq : closed none rule p <;>
      rw [hp, hq] at htogether
    · obtain ⟨⟨rfl, -, hle, -⟩, _, rfl, -⟩ := htogether
      exact ⟨rfl, hle, nofun⟩
    · exact htogether.elim
    · exact htogether.elim
    · obtain ⟨⟨rfl, rfl⟩, hle, hfails⟩ := htogether
      refine ⟨rfl, hle, ?_⟩
      intro fault q heq
      cases heq
      exact hfails
  · right
    constructor
    · cases hp : closed (some limit) rule p <;> rw [hp] at hstop
      · exact hstop.elim
      · obtain ⟨rfl, hdepth, hkind, hreaches⟩ := hstop
        exact ⟨_, rfl, hdepth, hkind, hreaches⟩
    · exact Lands.stateAfter hstrays

end

/-! ### Where the limit is exceeded -/

section

variable {α : Type} {start : Kind → Prop} {rule : Inner Playback → Rule Playback α}
  {p : Parser Playback} {n : Nat}

/-- What a list fails with is one of its items. -/
theorem Playback.not_faultless_of_fails {fault : Diagnostic} (h : p.Fails fault) :
    ¬ Faultless p.stream.unread := by
  intro hfaultless
  obtain ⟨w, s, next, s', hwalk, hadvance⟩ := h
  have hrest : Faultless s.unread := by
    rw [(Playback.unread_of_walk hwalk).1]
    exact fun item hitem => hfaultless item (List.mem_of_mem_drop hitem)
  have hok := Playback.advance_eq s.current s.stop hrest.head
  rw [show (⟨s.current, s.unread, s.stop⟩ : Playback) = s from rfl, hadvance] at hok
  cases hok

/-- A failure that is not what a rule stops at does not change how many levels the rule opens. -/
theorem peakOf_of_unread
    (h : ∀ i j, Alike Eq i j false start (fun a b _ => a = b) (rule i) (rule j))
    (hstart : start p.lookahead) (hn : n < p.stream.unread.length) {fault : Diagnostic}
    {q : Parser Playback} (hrun : closed none rule (p.failingAt n) = .error fault q)
    (hcause : fault.cause ≠ .unrecognised) : peakOf rule (p.failingAt n) = peakOf rule p := by
  rcases closed_failingAt none h hstart hn with hsame | ⟨⟨_, _, hrun', hcause'⟩, -⟩
  · exact (hsame.imp (fun _ _ _ _ h => h.1) fun _ _ _ _ h => h.2.1).stateAfter
  · rw [hrun] at hrun'
    cases hrun'
    exact absurd hcause' hcause

/-- A failure keeps the rule without a limit from going beyond the limit if and only if it stands
before the end of the items that the rule under the limit has read. -/
theorem peakOf_failingAt
    (h : ∀ i j, Alike Eq i j false start (fun a b _ => a = b) (rule i) (rule j))
    (hstart : start p.lookahead) (hpeak : p.peak ≤ maxDepth) {p' : Parser Playback} {w : List Kind}
    (hdeep : maxDepth < peakOf rule p)
    (hrun : closed (some maxDepth) rule p = .error (p'.unexpected []) p')
    (hwalk : Walk w p.stream p.lookahead p'.stream p'.lookahead) (hkind : p'.lookahead ≠ .eof) :
    maxDepth < peakOf rule (p.failingAt n) ↔ w.length ≤ n := by
  obtain ⟨hunread, hle⟩ := Playback.unread_of_walk hwalk
  have hread : p'.stream.unread.length + w.length = p.stream.unread.length := by
    have := hle hkind
    rw [hunread, List.length_drop]
    omega
  rcases Nat.lt_or_ge n p.stream.unread.length with hn | hn
  · have hlimited := closed_failingAt (some maxDepth) h hstart hn
    rw [hrun] at hlimited
    rcases closed_limit maxDepth h (p := p.failingAt n) hstart hpeak with
      ⟨heq, hshallow, -⟩ | ⟨⟨q, hq, -⟩, hbeyond⟩
    · refine iff_of_false (Nat.not_lt.mpr hshallow) fun hwn => ?_
      rcases hlimited with hsame | ⟨-, hlength⟩
      · -- under the limit the failure has not been read, and so it has not been without it either
        cases hq : closed (some maxDepth) rule (p.failingAt n) <;> rw [hq] at hsame heq
        · exact hsame.elim
        · obtain ⟨rfl, -⟩ := hsame
          have hpeaks := peakOf_of_unread h hstart hn heq.symm nofun
          omega
      · have : p'.stream.unread.length + n < p.stream.unread.length := hlength
        omega
    · refine iff_of_true hbeyond ?_
      rw [hq] at hlimited
      rcases hlimited with ⟨-, -, hlength⟩ | ⟨⟨fault, _, hfault, hcause⟩, -⟩
      · omega
      · cases hfault
        cases hcause
  · rw [Parser.failingAt_of_le hn]
    exact iff_of_true hdeep (by omega)

/-- **What the limit does to a rule** that takes the same steps as itself. -/
theorem limitExact_of_alike
    (h : ∀ i j, Alike Eq i j false start (fun a b _ => a = b) (rule i) (rule j))
    (hstart : start p.lookahead) (hpeak : p.peak ≤ maxDepth) : LimitExact rule p := by
  rcases closed_limit maxDepth h hstart hpeak with
    ⟨heq, hshallow, hfails⟩ | ⟨⟨p', hrun, hdepth, hkind, w, hwalk⟩, hdeep⟩
  · refine ⟨fun _ => heq, fun hdeep => absurd hdeep (Nat.not_lt.mpr hshallow), fun hfaultless => ?_⟩
    refine iff_of_false ?_ (Nat.not_lt.mpr hshallow)
    rintro ⟨fault, p', hrun, hcause⟩
    rw [heq] at hrun
    exact Playback.not_faultless_of_fails (hfails fault p' hrun hcause) hfaultless
  · refine ⟨fun hshallow => absurd hdeep (Nat.not_lt.mpr hshallow), fun _ => ?_, fun _ => ?_⟩
    · exact ⟨w, p', hrun, hwalk, hdepth, fun n =>
        peakOf_failingAt h hstart hpeak hdeep hrun hwalk hkind⟩
    · exact iff_of_true ⟨_, p', hrun, rfl⟩ hdeep

end

/-! ### The rules of the grammar -/

/-- Whether an action is to apply a rule of the grammar. -/
def Action.isRule : Action → Bool
  | advance | consume | expect _ | fail _ | nothing => false
  | expression | arithmetic | term | primary | statement | sequence | printing | loop | condition
  | functionDeclaration | variableDeclaration | assignmentOrCall => true

section

variable {σ τ : Type} [TokenStream σ] [TokenStream τ] {i : Inner σ} {j : Inner τ}
  {start : Kind → Prop}

/-- Two rules, with the same function applied to their results. -/
theorem Alike.map {α β : Type} {post : β → β → Bool → Prop} {r : Rule σ α} {s : Rule τ α}
    (f : α → β)
    (h : Alike Eq i j false start (fun a b spent => post (f a) (f b) spent) r s) :
    Alike Eq i j false start post (f <$> r) (f <$> s) := by
  rw [map_eq_pure_bind, map_eq_pure_bind]
  exact .bind _ h fun _ _ _ hab => .pure hab

theorem Statement.eq_of_value {s t : Statement} (h : s.value = t.value) : s = t := by
  cases s
  cases t
  exact congrArg Statement.write h

/-- A rule takes the same steps as itself and has the same result. It has surely spent a token then,
unless it is a sequence, or a statement where none begins. -/
theorem alike_action_post {action : Action} {post : Answer → Answer → Bool → Prop}
    (hrule : action.isRule = true)
    (hstart : action = .condition → ∀ kind, start kind → kind ≠ .eof)
    (hpost : ∀ answer, post answer answer true)
    (hidle : action = .statement → ∀ kind, start kind → kind.startsStatement = false →
      post .done .done false)
    (hsequence : action = .sequence → ∀ answer, post answer answer false) :
    Alike Eq i j false start post (action.rule i) (action.rule j) := by
  have hsame {α : Type} (f : α → Answer) (a b : α) (h : a = b) : post (f a) (f b) true := by
    rw [h]
    exact hpost _
  cases action with
  | advance => cases hrule
  | consume => cases hrule
  | expect kind => cases hrule
  | fail expected => cases hrule
  | nothing => cases hrule
  | expression => exact .map _ (alike_expression compositional_eq (hsame _))
  | arithmetic => exact .map _ (alike_arithmetic compositional_eq (hsame _))
  | term => exact .map _ (alike_term compositional_eq (hsame _))
  | primary => exact .map _ (alike_primary (hsame _))
  | statement =>
    refine .map _ (alike_statement compositional_eq (hidle rfl) fun s t hst => ?_)
    refine hsame (fun found : Option Statement => found.elim Answer.done .statement) s t ?_
    cases hst with
    | none => rfl
    | some hvalue => exact congrArg some (Statement.eq_of_value hvalue)
  | sequence =>
    refine .map _ (alike_sequence compositional_eq fun l m hlm => ?_)
    rw [eq_of_retained hlm]
    exact hsequence rfl _
  | printing =>
    exact .map _ (alike_printing compositional_eq fun s t h =>
      hsame _ s t (Statement.eq_of_value h))
  | loop => exact .map _ (alike_loop compositional_eq (hpost _))
  | condition => exact .map _ (alike_condition (hstart rfl) (hpost _))
  | functionDeclaration =>
    exact .map _ (alike_functionDeclaration compositional_eq (hpost _))
  | variableDeclaration =>
    exact .map _ (alike_variableDeclaration compositional_eq (hpost _))
  | assignmentOrCall => exact .map _ (alike_assignmentOrCall compositional_eq (hpost _))

theorem alike_action {action : Action} (hrule : action.isRule = true)
    (hstart : action = .condition → ∀ kind, start kind → kind ≠ .eof) :
    Alike Eq i j false start (fun a b _ => a = b) (action.rule i) (action.rule j) :=
  alike_action_post hrule hstart (fun _ => rfl) (fun _ _ _ _ => rfl) fun _ _ => rfl

/-- A rule takes the same steps as itself whatever kind is in view, but for a condition at the
end. -/
theorem alike_action_of_kind {action : Action} (hrule : action.isRule = true) {kind : Kind}
    (hend : ¬(action = .condition ∧ kind = .eof)) :
    Alike Eq i j false (· = kind) (fun a b _ => a = b) (action.rule i) (action.rule j) := by
  refine alike_action hrule ?_
  rintro hcondition _ rfl hkind
  exact hend ⟨hcondition, hkind⟩

/-- At the end there is no condition. -/
theorem branches_of_end (inner : Inner σ) {p : Parser σ} (hend : p.lookahead = .eof) :
    branches inner p = .error (p.unexpected [.ifWord]) p := by
  have hexpect : Rule.expect .ifWord p = .error (p.unexpected [.ifWord]) p := by
    have hkind : p.lookahead ≠ .ifWord := by
      rw [hend]
      decide
    unfold Rule.expect
    rw [lookahead_bind, if_neg hkind]
    rfl
  simp only [branches, Bind.bind, EStateM.bind, hexpect]

/-- A condition opens its level before it looks at the token in view, so at the end as well. -/
theorem condition_of_end {p : Parser σ} (hend : p.lookahead = .eof) (limit : Option Nat) :
    closed limit Action.condition.rule p =
      if limit.any (· ≤ p.depth) then .error (p.unexpected []) p
      else .error (p.unexpected [.ifWord]) p.enter.leave := by
  have hbranches (inner : Inner σ) :
      branches inner p.enter = .error (p.unexpected [.ifWord]) p.enter :=
    branches_of_end inner hend
  simp only [closed, Action.rule, condition, map_eq_pure_bind, Bind.bind, EStateM.bind, Rule.nested,
    Inner.limit_levels, hbranches]
  cases hlimit : limit.any (· ≤ p.depth) <;> rfl

end

/-- What the limit does to a condition at the end, where the level that it opens is its only one. -/
theorem limitExact_condition_of_end {p : Parser Playback} (hend : p.lookahead = .eof)
    (hpeak : p.peak ≤ maxDepth) : LimitExact Action.condition.rule p := by
  have hpeakOf (q : Parser Playback) (hq : q.lookahead = .eof) :
      peakOf Action.condition.rule q = max q.peak (q.depth + 1) := by
    unfold peakOf
    rw [condition_of_end hq]
    rfl
  have hlimited := condition_of_end hend (some maxDepth)
  rcases Nat.lt_or_ge p.depth maxDepth with hopen | hclosed
  · have hlimit : (some maxDepth).any (· ≤ p.depth) = false := by simpa using hopen
    have hshallow : peakOf Action.condition.rule p ≤ maxDepth := by
      rw [hpeakOf p hend]
      omega
    rw [if_neg (by rw [hlimit]; exact Bool.false_ne_true)] at hlimited
    refine ⟨fun _ => ?_, fun hdeep => absurd hdeep (Nat.not_lt.mpr hshallow), fun _ => ?_⟩
    · rw [hlimited, condition_of_end hend]
      rfl
    · refine iff_of_false ?_ (Nat.not_lt.mpr hshallow)
      rintro ⟨fault, p', hrun, hcause⟩
      rw [hlimited] at hrun
      cases hrun
      cases hcause
  · have hlimit : (some maxDepth).any (· ≤ p.depth) = true := by simpa using hclosed
    have hdeep (q : Parser Playback) (hq : q.lookahead = .eof) (hdepth : q.depth = p.depth) :
        maxDepth < peakOf Action.condition.rule q := by
      rw [hpeakOf q hq]
      omega
    rw [if_pos hlimit] at hlimited
    refine ⟨fun hshallow => absurd (hdeep p hend rfl) (Nat.not_lt.mpr hshallow), fun _ => ?_,
      fun _ => ?_⟩
    · refine ⟨[], p, hlimited, ⟨rfl, rfl⟩, rfl, fun n => ?_⟩
      exact iff_of_true (hdeep (p.failingAt n) hend rfl) (Nat.zero_le n)
    · exact iff_of_true ⟨_, p, hlimited, rfl⟩ (hdeep p hend rfl)

/-- **The limit changes nothing but deep input**, for every rule of the grammar, from every token in
view, and with any number of levels open that the limit allows. -/
theorem limitExact {action : Action} (hrule : action.isRule = true) {p : Parser Playback}
    (hpeak : p.peak ≤ maxDepth) : LimitExact action.rule p := by
  by_cases hend : action = .condition ∧ p.lookahead = .eof
  · obtain ⟨rfl, hend⟩ := hend
    exact limitExact_condition_of_end hend hpeak
  · have halike (i j : Inner Playback) : Alike Eq i j false (· = p.lookahead) (fun a b _ => a = b)
        (action.rule i) (action.rule j) := by
      refine alike_action hrule ?_
      rintro hcondition _ rfl hkind
      exact hend ⟨hcondition, hkind⟩
    exact limitExact_of_alike halike rfl hpeak

/-- An integer in two pairs of parentheses, where one more level may be opened. -/
def Parser.twoParentheses : Parser Playback where
  stream := Playback.reading
    ([.openParen, .openParen, .number, .closeParen, .closeParen].map Item.bare) Position.nowhere
  lookahead := .openParen
  depth := maxDepth - 1
  peak := maxDepth - 1

/-- The first parenthesis is consumed, and the second one is refused. -/
theorem second_parenthesis_refused :
    Action.primary.isRule = true ∧ Parser.twoParentheses.peak ≤ maxDepth ∧
      ∃ w p', closed (some maxDepth) Action.primary.rule .twoParentheses =
          .error (p'.unexpected []) p' ∧
        Walk w Parser.twoParentheses.stream .openParen p'.stream p'.lookahead ∧
          p'.depth = maxDepth - 1 ∧ w.length = 1 := by
  have hdeep : maxDepth < peakOf Action.primary.rule .twoParentheses := by decide
  have hopened : ¬ maxDepth < peakOf Action.primary.rule (Parser.twoParentheses.failingAt 0) := by
    decide
  have hrefused : maxDepth < peakOf Action.primary.rule (Parser.twoParentheses.failingAt 1) := by
    decide
  have hlimit : LimitExact Action.primary.rule .twoParentheses := limitExact rfl (by decide)
  obtain ⟨w, p', hrun, hwalk, hdepth, hfailing⟩ := hlimit.deep hdeep
  refine ⟨rfl, by decide, w, p', hrun, hwalk, hdepth, ?_⟩
  have hle := (hfailing 1).mp hrefused
  have hlt := mt (hfailing 0).mpr hopened
  omega

end ScriptFront
