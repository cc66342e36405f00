import ScriptFront.Proofs.Conformity.Expression
import ScriptFront.Proofs.Conformity.List

/-!
# ScriptFront.Proofs.Conformity.Statement

**Every rule of a statement accords with its phrase of the syntax**, if the rules one level
further in do.
-/

namespace ScriptFront.Grammar

open Syntax
open scoped Computability

variable {σ ι : Type} [TokenStream σ] {limit d : Nat} {within : Within} {next : Kind}
  {w x : List Kind}

/-! ### Printing and declaring variables -/

/-- An expression begins with a primary. -/
theorem begins_expression (within : Within) :
    Begins (· ∈ primaryStarts) (Syntax.expression within) := by
  have hprimary : Begins (· ∈ primaryStarts) (Syntax.primary within) :=
    ((begins_token (by decide)).add (begins_token (by decide))).add
      (begins_token (by decide)).mul.mul
  exact hprimary.mul.mul.mul

section

variable [LawfulTokenStream σ]

theorem accords_value (h : InnerAccords σ limit d within) :
    Accords d (Syntax.value within) EndsExpression Any
      fun _ : ι => value (Inner.whole (some limit) : Inner σ) where
  reads {w next} hw hnext i := by
    rcases hw with hw | hw
    · obtain rfl : w = [.string] := hw
      exact Reads.look (Reads.leaf fun _ => trivial)
    · have hstart := (begins_expression within).headD hw next
      have hstring : w.headD next ≠ .string := by
        intro heq
        rw [heq] at hstart
        exact absurd hstart (by decide)
      refine Reads.look ?_
      rw [if_neg hstring]
      exact (accords_expression h).reads hw hnext i
  decides x hx := by
    by_cases hhead : x.headD .eof = .string
    · obtain ⟨z, rfl⟩ := exists_of_headD hhead (by decide)
      exact .reads [.string] z rfl (.inl rfl) fun _ => Reads.look (Reads.leaf fun _ => trivial)
    · refine Decides.look ?_ fun _ hdeep => ?_
      · simp only [if_neg hhead]
        exact ((accords_expression h).decides x hx).mono fun w hw => .inr hw
      · rw [if_neg hhead] at hdeep
        exact hdeep
  possible := ⟨[.string], .inl rfl⟩

theorem accords_printing (h : InnerAccords σ limit d within) :
    Accords d (Syntax.printing within) Any Any
      fun _ : ι => printing (Inner.whole (some limit) : Inner σ) := by
  have hshape : Syntax.printing within = token .printWord * (token .openParen *
      (Syntax.value within * (token .closeParen * token .semicolon))) := by
    simp only [Syntax.printing, mul_assoc]
  rw [hshape]
  refine .expect_then (by decide) (.expect_then (by decide) ?_)
  refine (accords_value h).bind ?_ rfl (follow_token rfl)
  refine .expect_then (by decide) ?_
  exact (Accords.expect (by decide)).bind_pure fun _ _ _ => trivial

theorem accords_variableDeclaration (h : InnerAccords σ limit d within) :
    Accords d (Syntax.variableDeclaration within) Any Any
      fun _ : ι => variableDeclaration (Inner.whole (some limit) : Inner σ) := by
  have hshape : Syntax.variableDeclaration within = token .varWord * (token .identifier *
      (token .assignment * (Syntax.expression within * token .semicolon))) := by
    simp only [Syntax.variableDeclaration, mul_assoc]
  rw [hshape]
  refine .expect_then (by decide) (.expect_then (by decide) (.expect_then (by decide) ?_))
  exact (accords_expression h).then_expect (by decide) rfl

/-! ### Assignments and calls -/

theorem accords_assignmentOrCallTail (h : InnerAccords σ limit d within) :
    Accords d (token .assignment * Syntax.expression within +
        token .openParen * (arguments * token .closeParen)) EndsExpression Any
      fun _ : ι => assignmentOrCallTail (Inner.whole (some limit) : Inner σ) := by
  have hvalue : Accords d (Syntax.expression within) EndsExpression Any fun _ : ι => (do
      let _ ← expression (Inner.whole (some limit))
      return () : Rule σ Unit) :=
    (accords_expression h).bind_pure fun _ _ _ => trivial
  have hcall : Accords d (arguments * token .closeParen) Any Any fun _ : ι => (do
      items isArgument
      Rule.expect .closeParen : Rule σ Unit) :=
    accords_arguments.then_expect (by decide) rfl
  have hshape : token .assignment * Syntax.expression within +
      token .openParen * (arguments * token .closeParen) =
        choice [.assignment, .openParen] fun kind => if kind = .assignment then
          Syntax.expression within else arguments * token .closeParen := by
    rw [choice_cons, choice_cons, choice_nil, add_zero]
    rfl
  rw [hshape]
  -- the token in view tells which of the two it is, so what follows is a function of its kind
  refine Accords.choice (g := fun kind _ _ => if kind = .assignment then (do
      let _ ← expression (Inner.whole (some limit))
      return ()) else (do
      items isArgument
      Rule.expect .closeParen)) (by decide) ?_ ?_ (fun kind hkind _ => ?_) (List.cons_ne_nil _ _)
  · refine List.forall_mem_cons.mpr ⟨hvalue, List.forall_mem_singleton.mpr ?_⟩
    exact hcall.follow fun _ _ => trivial
  · exact List.forall_mem_cons.mpr ⟨fun _ => rfl, List.forall_mem_singleton.mpr fun _ => rfl⟩
  · split
    · exact absurd (by decide) hkind
    · exact absurd (by decide) hkind
    · rfl

theorem accords_assignmentOrCall (h : InnerAccords σ limit d within) :
    Accords d (Syntax.assignmentOrCall within) Any Any
      fun _ : ι => assignmentOrCall (Inner.whole (some limit) : Inner σ) := by
  have hshape : Syntax.assignmentOrCall within = token .identifier *
      ((token .assignment * Syntax.expression within +
        token .openParen * (arguments * token .closeParen)) * token .semicolon) := by
    simp only [Syntax.assignmentOrCall, mul_assoc]
  rw [hshape]
  refine .expect_then (by decide) ?_
  exact (accords_assignmentOrCallTail h).then_expect (by decide) rfl

theorem accords_incrementTail (h : InnerAccords σ limit d within) :
    Accords d (token .plusPlus + token .minusMinus + token .assignment * Syntax.expression within)
      EndsExpression Any fun _ : ι => incrementTail (Inner.whole (some limit) : Inner σ) := by
  have hvalue : Accords d (Syntax.expression within) EndsExpression Any fun _ : ι => (do
      let _ ← expression (Inner.whole (some limit))
      return () : Rule σ Unit) :=
    (accords_expression h).bind_pure fun _ _ _ => trivial
  have hnothing : Accords d 1 EndsExpression Any fun _ : ι => (return () : Rule σ Unit) :=
    (Accords.pure fun _ => trivial).follow fun _ _ => trivial
  have hshape : token .plusPlus + token .minusMinus +
      token .assignment * Syntax.expression within =
        choice [.plusPlus, .minusMinus, .assignment] fun kind => if kind = .assignment then
          Syntax.expression within else 1 := by
    rw [choice_cons, choice_cons, choice_cons, choice_nil, add_zero, ← add_assoc]
    simp
  rw [hshape]
  refine Accords.choice (g := fun kind _ _ => if kind = .assignment then (do
      let _ ← expression (Inner.whole (some limit))
      return ()) else return ()) (by decide) ?_ ?_ (fun kind hkind _ => ?_) (List.cons_ne_nil _ _)
  · exact List.forall_mem_cons.mpr ⟨hnothing, List.forall_mem_cons.mpr ⟨hnothing,
      List.forall_mem_singleton.mpr hvalue⟩⟩
  · have hunit : (Rule.consume : Rule σ Unit) = Rule.consume >>= fun _ => return () :=
      bind_pure_unit.symm
    exact List.forall_mem_cons.mpr ⟨fun _ => hunit, List.forall_mem_cons.mpr ⟨fun _ => hunit,
      List.forall_mem_singleton.mpr fun _ => rfl⟩⟩
  · split
    · exact absurd (by decide) hkind
    · exact absurd (by decide) hkind
    · exact absurd (by decide) hkind
    · rfl

theorem accords_increment (h : InnerAccords σ limit d within) :
    Accords d (Syntax.increment within) EndsExpression Any
      fun _ : ι => increment (Inner.whole (some limit) : Inner σ) :=
  .expect_then (by decide) (accords_incrementTail h)

end

/-! ### Conditions -/

theorem accords_elseBranch (h : InnerAccords σ limit d within) (hd : d < limit) :
    Accords (d + 1) (1 + token .elseWord * block within.sequence) EndsCondition Any
      fun _ : ι => elseBranch (Inner.whole (some limit) : Inner σ) := by
  have hblock : Accords (d + 1) (block within.sequence) Any Any fun _ : ι => (do
      Rule.expect .openCurly
      let _ ← (Inner.whole (some limit) : Inner σ).sequence
      Rule.expect .closeCurly) := by
    rw [block, mul_assoc]
    refine .expect_then (by decide) ?_
    exact ((h.sequence hd).comap fun _ => ()).then_expect (by decide) ⟨rfl, by decide⟩
  have hoptional : Accords (d + 1) (1 + token .elseWord * block within.sequence)
      (fun next => next ≠ .elseWord ∧ True) Any
      fun _ : ι => elseBranch (Inner.whole (some limit) : Inner σ) :=
    .optional_token (by decide) hblock fun _ => trivial
  exact hoptional.follow fun _ hnext => ⟨hnext, trivial⟩

theorem accords_branches (h : InnerAccords σ limit d within) (hd : d < limit) :
    Accords (d + 1) (Syntax.condition within) EndsCondition Any
      fun _ : ι => branches (Inner.whole (some limit) : Inner σ) := by
  have hshape : Syntax.condition within = token .ifWord * (token .openParen *
      (within.expression * token .closeParen * (token .openCurly *
        (within.sequence * token .closeCurly *
          (1 + token .elseWord * block within.sequence))))) := by
    simp only [Syntax.condition, block, mul_assoc]
  rw [hshape]
  refine .expect_then (by decide) (.expect_then (by decide) ?_)
  refine ((h.expression hd).comap fun _ => ()).then_expect_then (by decide) rfl ?_
  refine .expect_then (by decide) ?_
  exact ((h.sequence hd).comap fun _ => ()).then_expect_then (by decide) ⟨rfl, by decide⟩
    (accords_elseBranch h hd)

theorem reads_condition (h : InnerAccords σ limit d within) (hw : w ∈ Syntax.condition within)
    (hnext : EndsCondition next) :
    Reads (condition (Inner.whole (some limit) : Inner σ)) d w next Any := by
  rcases Nat.lt_or_ge d limit with hd | hd
  · exact ((accords_branches h hd).reads hw hnext ()).nested hd
  · simp only [Syntax.condition, h.refused hd, mul_zero, zero_mul] at hw
    exact absurd hw (Language.notMem_zero w)

/-- A branch for a condition. Where no level can be opened the condition is refused. -/
theorem decides_condition {β : Type} {post : β → Prop} {f : Kind → Rule σ β} {b : β} {L : Phrase}
    (h : InnerAccords σ limit d within) {z : List Kind} (hx : .eof ∉ .ifWord :: z)
    (hbranch : f .ifWord = condition (Inner.whole (some limit)) >>= fun _ => pure b)
    (hpost : post b) (hle : ∀ w ∈ Syntax.condition within, w ∈ L) (hpossible : ∃ w, w ∈ L) :
    Decides d L post (fun _ : ι => Rule.lookahead >>= f) (.ifWord :: z) := by
  rcases Nat.lt_or_ge d limit with hd | hd
  · have hcondition : Accords d (Syntax.condition within) EndsCondition Any
        fun _ : ι => condition (Inner.whole (some limit) : Inner σ) :=
      ⟨fun hw hnext _ => reads_condition h hw hnext,
        fun x hx => ((accords_branches h hd).decides x hx).nested hd,
        (accords_branches (ι := ι) h hd).possible⟩
    exact hcondition.alternative hx hbranch
      (Stops.nested hd (Stops.expect (by decide)).bind_left) (fun _ => hpost) hle
  · refine .stops [] _ [] rfl (fun _ => Stops.look ?_) hpossible
      fun _ hkind => False.elim (List.not_mem_nil hkind)
    rw [List.headD_nil, List.headD_cons, hbranch]
    exact (Stops.refused hd).bind_left

/-! ### Bodies -/

/-- The kinds that begin a statement in the body of a loop or a function. -/
def startsBodyStatement : Kind → Bool
  | .printWord | .ifWord | .varWord | .identifier => true
  | _ => false

/-- What may stand behind the body of a loop or a function. -/
abbrev EndsBody (kind : Kind) : Prop :=
  startsBodyStatement kind = false ∧ EndsCondition kind

theorem begins_condition (within : Within) :
    Begins (· = .ifWord) (Syntax.condition within) :=
  begins_kind.mul.mul.mul.mul.mul

theorem begins_printing (within : Within) :
    Begins (· = .printWord) (Syntax.printing within) :=
  begins_kind.mul.mul.mul.mul

theorem begins_variableDeclaration (within : Within) :
    Begins (· = .varWord) (Syntax.variableDeclaration within) :=
  begins_kind.mul.mul.mul.mul

theorem begins_assignmentOrCall (within : Within) :
    Begins (· = .identifier) (Syntax.assignmentOrCall within) :=
  begins_kind.mul.mul

theorem begins_loop (within : Within) : Begins (· = .forWord) (Syntax.loop within) :=
  begins_kind.mul.mul.mul.mul.mul.mul.mul

theorem begins_functionDeclaration (within : Within) :
    Begins (· = .funWord) (Syntax.functionDeclaration within) :=
  begins_kind.mul.mul.mul.mul.mul

/-- Where no statement of a body is in view, nothing is read. -/
theorem reads_noBodyStatement (hnext : startsBodyStatement next = false) :
    Reads (bodyStatement (Inner.whole (some limit) : Inner σ)) d [] next (· = false) := by
  refine Reads.look ?_
  rw [List.headD_nil]
  cases next with
  | printWord | ifWord | varWord | identifier => exact absurd hnext.symm Bool.false_ne_true
  | _ => exact Reads.pure rfl

variable [LawfulTokenStream σ]

theorem reads_bodyStatement (h : InnerAccords σ limit d within)
    (hw : w ∈ Syntax.bodyStatement within) (hnext : EndsCondition next) :
    Reads (bodyStatement (Inner.whole (some limit) : Inner σ)) d w next (· = true) := by
  refine Reads.look ?_
  rcases hw with ((hw | hw) | hw) | hw
  · rw [(begins_printing within).headD hw next]
    exact Reads.bind_pure ((accords_printing h).reads hw trivial ()) fun _ _ => rfl
  · rw [(begins_condition within).headD hw next]
    exact Reads.bind_pure (reads_condition h hw hnext) fun _ _ => rfl
  · rw [(begins_variableDeclaration within).headD hw next]
    exact Reads.bind_pure ((accords_variableDeclaration h).reads hw trivial ()) fun _ _ => rfl
  · rw [(begins_assignmentOrCall within).headD hw next]
    exact Reads.bind_pure ((accords_assignmentOrCall h).reads hw trivial ()) fun _ _ => rfl

/-- A statement that is in view in a body. -/
theorem decides_bodyStatement (h : InnerAccords σ limit d within) (hx : .eof ∉ x)
    (hguard : startsBodyStatement (x.headD .eof) = true) :
    Decides d (Syntax.bodyStatement within) (· = true)
      (fun _ : ι => bodyStatement (Inner.whole (some limit) : Inner σ)) x := by
  cases x with
  | nil => exact absurd hguard Bool.false_ne_true
  | cons kind z =>
    rw [List.headD_cons] at hguard
    cases kind with
    | printWord =>
      exact (accords_printing h).alternative hx rfl (Stops.expect (by decide)).bind_left
        (fun _ => rfl) fun w hw => .inl (.inl (.inl hw))
    | ifWord =>
      -- a condition that is refused leaves no trace, so there has to be some other statement
      obtain ⟨w, hw⟩ := (accords_printing (ι := ι) h).possible
      exact decides_condition h hx rfl rfl (fun w hw => .inl (.inl (.inr hw)))
        ⟨w, .inl (.inl (.inl hw))⟩
    | varWord =>
      exact (accords_variableDeclaration h).alternative hx rfl
        (Stops.expect (by decide)).bind_left (fun _ => rfl) fun w hw => .inl (.inr hw)
    | identifier =>
      exact (accords_assignmentOrCall h).alternative hx rfl
        (Stops.expect (by decide)).bind_left (fun _ => rfl) fun w hw => .inr hw
    | _ => exact absurd hguard Bool.false_ne_true

theorem begins_bodyStatement (within : Within) :
    Begins (fun kind => startsBodyStatement kind = true) (Syntax.bodyStatement within) := by
  refine Begins.add (Begins.add (Begins.add ?_ ?_) ?_) ?_
  · exact (begins_printing within).imp fun _ hkind => hkind ▸ rfl
  · exact (begins_condition within).imp fun _ hkind => hkind ▸ rfl
  · exact (begins_variableDeclaration within).imp fun _ hkind => hkind ▸ rfl
  · exact (begins_assignmentOrCall within).imp fun _ hkind => hkind ▸ rfl

theorem loop_bodyStatement :
    Loop fun _ : Unit => Rule.again (bodyStatement (Inner.whole (some limit) : Inner σ)) :=
  .of_alike (some limit) (again_of_end bodyStatement_of_end)
    fun _ => alike_again (alike_bodyStatement compositional_eq)

theorem round_bodyStatement (h : InnerAccords σ limit d within) :
    Round d (Syntax.bodyStatement within) EndsCondition startsBodyStatement
      fun _ : Unit => Rule.again (bodyStatement (Inner.whole (some limit) : Inner σ)) where
  loop := loop_bodyStatement
  idle _ _ hnext := (reads_noBodyStatement hnext).again_done
  reads hw hnext _ := (reads_bodyStatement h hw hnext).again
  decides hx hguard := (decides_bodyStatement h hx hguard).again
  head := begins_bodyStatement within
  follow {kind} hkind := by
    intro heq
    rw [heq] at hkind
    exact Bool.false_ne_true hkind
  paren := by decide

theorem accords_body (h : InnerAccords σ limit d within) :
    Accords d (Syntax.bodyStatement within)∗ EndsBody Any
      fun _ : ι => body (Inner.whole (some limit) : Inner σ) :=
  (round_bodyStatement h).accords.comap fun _ => ()

/-! ### Loops and functions -/

theorem accords_loop (h : InnerAccords σ limit d within) :
    Accords d (Syntax.loop within) Any Any
      fun _ : ι => loop (Inner.whole (some limit) : Inner σ) := by
  have hshape : Syntax.loop within = token .forWord * (token .openParen *
      (Syntax.variableDeclaration within * (Syntax.expression within * token .semicolon *
        (Syntax.increment within * token .closeParen * (token .openCurly *
          ((Syntax.bodyStatement within)∗ * token .closeCurly)))))) := by
    simp only [Syntax.loop, block, mul_assoc]
  rw [hshape]
  refine .expect_then (by decide) (.expect_then (by decide) ?_)
  refine (accords_variableDeclaration h).then ?_ trivial fun _ _ _ _ => trivial
  refine (accords_expression h).then_expect_then (by decide) rfl ?_
  refine (accords_increment h).then_expect_then (by decide) rfl ?_
  exact .expect_then (by decide) ((accords_body h).then_expect (by decide) ⟨rfl, by decide⟩)

theorem accords_returning (h : InnerAccords σ limit d within) :
    Accords d (1 + Syntax.returning within) (· ≠ .returnWord) Any
      fun _ : ι => returning (Inner.whole (some limit) : Inner σ) := by
  have hvalue : Accords d (Syntax.value within * token .semicolon) Any Any fun _ : ι => (do
      let _ ← value (Inner.whole (some limit) : Inner σ)
      Rule.expect .semicolon) :=
    (accords_value h).then_expect (by decide) rfl
  have hoptional : Accords d (1 + token .returnWord * (Syntax.value within * token .semicolon))
      (fun next => next ≠ .returnWord ∧ True) Any
      fun _ : ι => returning (Inner.whole (some limit) : Inner σ) :=
    .optional_token (by decide) hvalue fun _ => trivial
  rw [Syntax.returning, mul_assoc]
  exact hoptional.follow fun _ hnext => ⟨hnext, trivial⟩

theorem accords_functionDeclaration (h : InnerAccords σ limit d within) :
    Accords d (Syntax.functionDeclaration within) Any Any
      fun _ : ι => functionDeclaration (Inner.whole (some limit) : Inner σ) := by
  have hshape : Syntax.functionDeclaration within = token .funWord * (token .identifier *
      (token .openParen * (parameters * token .closeParen * (token .openCurly *
        ((Syntax.bodyStatement within)∗ * ((1 + Syntax.returning within) *
          token .closeCurly)))))) := by
    simp only [Syntax.functionDeclaration, block, mul_assoc]
  rw [hshape]
  refine .expect_then (by decide) (.expect_then (by decide) (.expect_then (by decide) ?_))
  refine accords_parameters.then_expect_then (by decide) rfl (.expect_then (by decide) ?_)
  refine (accords_body h).then ?_ ⟨rfl, by decide⟩ ?_
  · exact (accords_returning h).then_expect (by decide) (by decide)
  · -- behind the body comes either a return or the curly bracket
    intro w hw next _
    obtain ⟨w₁, hw₁, w₂, hw₂, rfl⟩ := Language.mem_mul.mp hw
    obtain rfl : w₂ = [.closeCurly] := hw₂
    rcases hw₁ with hw₁ | hw₁
    · obtain rfl : w₁ = [] := hw₁
      show EndsBody .closeCurly
      decide
    · have hreturn : Begins (· = .returnWord) (Syntax.returning within) := begins_kind.mul.mul
      rw [headD_append, hreturn.headD hw₁]
      decide

/-! ### Statements -/

theorem reads_statement (h : InnerAccords σ limit d within) (hw : w ∈ Syntax.statement within)
    (hnext : EndsCondition next) :
    Reads (statement (Inner.whole (some limit) : Inner σ)) d w next Any := by
  refine Reads.look ?_
  rcases hw with ((((hw | hw) | hw) | hw) | hw) | hw
  · rw [(begins_printing within).headD hw next]
    show Reads (some <$> printing (Inner.whole (some limit))) _ _ _ _
    rw [map_eq_pure_bind]
    exact Reads.bind_pure ((accords_printing h).reads hw trivial ()) fun _ _ => trivial
  · rw [(begins_loop within).headD hw next]
    exact Reads.bind_pure ((accords_loop h).reads hw trivial ()) fun _ _ => trivial
  · rw [(begins_condition within).headD hw next]
    exact Reads.bind_pure (reads_condition h hw hnext) fun _ _ => trivial
  · rw [(begins_functionDeclaration within).headD hw next]
    exact Reads.bind_pure ((accords_functionDeclaration h).reads hw trivial ()) fun _ _ => trivial
  · rw [(begins_variableDeclaration within).headD hw next]
    exact Reads.bind_pure ((accords_variableDeclaration h).reads hw trivial ()) fun _ _ => trivial
  · rw [(begins_assignmentOrCall within).headD hw next]
    exact Reads.bind_pure ((accords_assignmentOrCall h).reads hw trivial ()) fun _ _ => trivial

theorem decides_statement (h : InnerAccords σ limit d within) (hx : .eof ∉ x)
    (hguard : (x.headD .eof).startsStatement = true) :
    Decides d (Syntax.statement within) Any
      (fun _ : ι => statement (Inner.whole (some limit) : Inner σ)) x := by
  have hprinting : ∀ w ∈ Syntax.printing within, w ∈ Syntax.statement within :=
    fun w hw => .inl (.inl (.inl (.inl (.inl hw))))
  cases x with
  | nil => exact absurd hguard Bool.false_ne_true
  | cons kind z =>
    rw [List.headD_cons] at hguard
    cases kind with
    | printWord =>
      exact (accords_printing h).alternative hx (map_eq_pure_bind _ _)
        (Stops.expect (by decide)).bind_left (fun _ => trivial) hprinting
    | forWord =>
      exact (accords_loop h).alternative hx rfl (Stops.expect (by decide)).bind_left
        (fun _ => trivial) fun w hw => .inl (.inl (.inl (.inl (.inr hw))))
    | ifWord =>
      obtain ⟨w, hw⟩ := (accords_printing (ι := ι) h).possible
      exact decides_condition h hx rfl trivial (fun w hw => .inl (.inl (.inl (.inr hw))))
        ⟨w, hprinting w hw⟩
    | funWord =>
      exact (accords_functionDeclaration h).alternative hx rfl
        (Stops.expect (by decide)).bind_left (fun _ => trivial) fun w hw => .inl (.inl (.inr hw))
    | varWord =>
      exact (accords_variableDeclaration h).alternative hx rfl
        (Stops.expect (by decide)).bind_left (fun _ => trivial) fun w hw => .inl (.inr hw)
    | identifier =>
      exact (accords_assignmentOrCall h).alternative hx rfl
        (Stops.expect (by decide)).bind_left (fun _ => trivial) fun w hw => .inr hw
    | _ => exact absurd hguard Bool.false_ne_true

/-! ### Sequences of statements -/

theorem begins_statement (within : Within) :
    Begins (fun kind => kind.startsStatement = true) (Syntax.statement within) := by
  refine Begins.add (Begins.add (Begins.add (Begins.add (Begins.add ?_ ?_) ?_) ?_) ?_) ?_
  · exact (begins_printing within).imp fun _ hkind => hkind ▸ rfl
  · exact (begins_loop within).imp fun _ hkind => hkind ▸ rfl
  · exact (begins_condition within).imp fun _ hkind => hkind ▸ rfl
  · exact (begins_functionDeclaration within).imp fun _ hkind => hkind ▸ rfl
  · exact (begins_variableDeclaration within).imp fun _ hkind => hkind ▸ rfl
  · exact (begins_assignmentOrCall within).imp fun _ hkind => hkind ▸ rfl

theorem loop_sequenceStep : Loop (sequenceStep (Inner.whole (some limit) : Inner σ)) :=
  .of_alike (some limit) sequenceStep_of_end fun _ =>
    alike_sequenceStep compositional_eq (List.forall₂_same.mpr fun _ _ => rfl)

theorem round_sequenceStep (h : InnerAccords σ limit d within) :
    Round d (Syntax.statement within) EndsCondition Kind.startsStatement
      (sequenceStep (Inner.whole (some limit) : Inner σ)) where
  loop := loop_sequenceStep
  idle retained next hnext := by
    refine Reads.look ?_
    rw [List.headD_nil, hnext]
    exact Reads.pure rfl
  reads {w next} hw hnext retained := by
    refine Reads.look ?_
    rw [(begins_statement within).headD hw next]
    exact Reads.bind_pure (reads_statement h hw hnext) fun _ _ => rfl
  decides {x} hx hguard := by
    have hstatement : Decides d _ (fun found => found.isSome = true)
        (fun retained : List Statement => (do
          let next ← statement (Inner.whole (some limit) : Inner σ)
          return some (retained ++ next.toList))) x :=
      (decides_statement h hx hguard).bind_pure fun _ _ _ => rfl
    refine Decides.look ?_ fun retained hdeep => ?_
    · rw [hguard]
      exact hstatement
    · -- no statement begins with a parenthesis, so a statement that is asked for there is none
      rw [hguard] at hdeep
      have hread : Reads (statement (Inner.whole (some limit) : Inner σ)) d [] .openParen Any :=
        Reads.look (Reads.pure trivial)
      have hnext : ∀ next : Option Statement, Any next →
          Any (some (retained ++ next.toList)) := fun _ _ => trivial
      exact (hread.bind_pure hnext).absurd_stops hdeep
  head := begins_statement within
  follow {kind} hkind := by
    intro heq
    rw [heq] at hkind
    exact Bool.false_ne_true hkind
  paren := by decide

theorem accords_sequence (h : InnerAccords σ limit d within) :
    Accords d (Syntax.sequence within) EndsSequence Any
      fun _ : ι => sequence (Inner.whole (some limit) : Inner σ) :=
  (round_sequenceStep h).accords.comap fun _ => []

/-! ### Levels of nesting -/

/-- The rules further in accord with the phrases for as many levels as can still be opened. By
induction on these. -/
theorem innerAccords (levels : Nat) :
    ∀ d, d + levels = limit → InnerAccords σ limit d (Syntax.within levels) := by
  induction levels with
  | zero =>
    intro d hd
    exact ⟨fun _ => rfl, fun hlt => by omega, fun hlt => by omega⟩
  | succ levels ih =>
    intro d hd
    have h := ih (d + 1) (by omega)
    refine ⟨fun hlt => by omega, fun _ => ?_, fun _ => ?_⟩
    · rw [whole_expression]
      exact accords_expression h
    · rw [whole_sequence]
      exact accords_sequence h

end ScriptFront.Grammar
