import ScriptFront.Proofs.Accord

/-!
# ScriptFront.Proofs.Conformity.Expression

**Every rule of an expression accords with its phrase of the syntax**, if the rules one level
further in do.
-/

namespace ScriptFront.Grammar

open Syntax
open scoped Computability

variable {σ ι : Type} [TokenStream σ] {limit d : Nat} {within : Within} {next : Kind}

/-- Nothing is asked of a result, or of a kind. -/
abbrev Any {α : Type} : α → Prop := fun _ => True

/-- What may stand behind an expression: anything that does not carry it on. -/
abbrev EndsExpression (kind : Kind) : Prop :=
  BinaryOp.ofKind? kind = none

/-- What may stand behind a condition: anything that does not carry it on. -/
abbrev EndsCondition (kind : Kind) : Prop :=
  kind ≠ .elseWord

/-- What may stand behind a sequence of statements. -/
abbrev EndsSequence (kind : Kind) : Prop :=
  kind.startsStatement = false ∧ EndsCondition kind

/-- The rules one level further in accord with what may stand there. Where no level can be opened
any more, nothing may. -/
structure InnerAccords (σ : Type) [TokenStream σ] (limit d : Nat) (within : Within) : Prop where
  refused : limit ≤ d → within.expression = 0
  expression : d < limit → Accords (d + 1) within.expression EndsExpression Any
    fun _ : Unit => (Inner.whole (some limit) : Inner σ).expression
  sequence : d < limit → Accords (d + 1) within.sequence EndsSequence Any
    fun _ : Unit => (Inner.whole (some limit) : Inner σ).sequence

/-! ### Expressions -/

/-- An expression in parentheses, once a level has been opened for it. -/
theorem accords_parenthesised_tail (h : InnerAccords σ limit d within) (hd : d < limit) :
    Accords (d + 1) (within.expression * token .closeParen) Any Any fun _ : ι => (do
      let value ← (Inner.whole (some limit) : Inner σ).expression
      Rule.expect .closeParen
      return value) := by
  have hclose : Accords (d + 1) (token .closeParen) Any Any fun ia : ι × Expr => (do
      Rule.expect .closeParen
      return ia.2 : Rule σ Expr) :=
    (Accords.expect (by decide)).bind_pure fun _ _ _ => trivial
  exact ((h.expression hd).comap fun _ => ()).bind hclose rfl (Begins.follow (begins_token rfl))

/-- What an expression in parentheses is read by. -/
theorem reads_parenthesised (h : InnerAccords σ limit d within) {v : List Kind}
    (hv : v ∈ within.expression * token .closeParen) :
    Reads (Rule.nested (some limit) (parenthesised (Inner.whole (some limit) : Inner σ))) d
      (.openParen :: v) next Any := by
  rcases Nat.lt_or_ge d limit with hd | hd
  · have hread : Reads _ (d + 1) v next Any :=
      (accords_parenthesised_tail h hd).reads hv trivial ()
    exact hread.consume_then.nested hd
  · rw [h.refused hd, zero_mul] at hv
    exact absurd hv (Language.notMem_zero v)

/-- A missing primary. An opening parenthesis is offered in vain where no level can be opened. -/
theorem offers_primary (h : InnerAccords σ limit d within) :
    Offers d (Syntax.primary within)
      (fun _ : ι => primary (Inner.whole (some limit) : Inner σ)) [] primaryStarts := by
  intro kind hkind
  simp only [primaryStarts, List.mem_cons, List.not_mem_nil, or_false] at hkind
  rcases hkind with rfl | rfl | rfl
  · exact .inl ⟨[], .inl (.inl rfl)⟩
  · exact .inl ⟨[], .inl (.inr rfl)⟩
  · -- the one kind that is not always to be had
    rcases Nat.lt_or_ge d limit with hd | hd
    · obtain ⟨v, hv⟩ := (accords_parenthesised_tail (ι := Unit) h hd).possible
      refine .inl ⟨v, .inr ?_⟩
      rw [mul_assoc]
      exact mem_token_mul.mpr ⟨v, hv, rfl⟩
    · exact .inr ⟨rfl, rfl, fun _ => Stops.look (Stops.refused hd)⟩

theorem decides_primary (h : InnerAccords σ limit d within) {x : List Kind} (hx : .eof ∉ x) :
    Decides d (Syntax.primary within) Any
      (fun _ : ι => primary (Inner.whole (some limit) : Inner σ)) x := by
  have hpossible : ∃ w, w ∈ Syntax.primary within := ⟨[.number], .inl (.inl rfl)⟩
  cases x with
  | nil => exact .look_fail (fun _ => rfl) hpossible (offers_primary h)
  | cons kind z =>
    by_cases hnumber : kind = .number
    · rw [hnumber]
      exact .reads [.number] z rfl (.inl (.inl rfl))
        fun _ => Reads.look (Reads.leaf fun _ => trivial)
    by_cases hidentifier : kind = .identifier
    · rw [hidentifier]
      exact .reads [.identifier] z rfl (.inl (.inr rfl))
        fun _ => Reads.look (Reads.leaf fun _ => trivial)
    by_cases hparen : kind = .openParen
    · rw [hparen] at hx ⊢
      have hz := List.not_mem_of_not_mem_cons hx
      refine Decides.look ?_ fun _ hdeep => hdeep
      -- the parenthesis is consumed only once its level has been opened
      rcases Nat.lt_or_ge d limit with hd | hd
      · have htail : Decides (d + 1) _ Any (fun _ : ι => parenthesised (Inner.whole (some limit)))
            (.openParen :: z) :=
          .consume_then ((accords_parenthesised_tail h hd).decides z hz)
        refine (htail.nested hd).mono fun w hw => .inr ?_
        rw [mul_assoc]
        exact hw
      · exact Decides.refused hd hpossible
    · refine .look_fail (fun _ => ?_) hpossible (offers_primary h)
      rw [List.headD_cons]
      split
      · exact absurd rfl hnumber
      · exact absurd rfl hidentifier
      · exact absurd rfl hparen
      · rfl

theorem accords_primary (h : InnerAccords σ limit d within) :
    Accords d (Syntax.primary within) Any Any
      fun _ : ι => primary (Inner.whole (some limit) : Inner σ) where
  reads {w next} hw _ _ := by
    rcases hw with (hw | hw) | hw
    · obtain rfl : w = [.number] := hw
      exact Reads.look (Reads.leaf fun _ => trivial)
    · obtain rfl : w = [.identifier] := hw
      exact Reads.look (Reads.leaf fun _ => trivial)
    · rw [mul_assoc] at hw
      obtain ⟨v, hv, rfl⟩ := mem_token_mul.mp hw
      exact Reads.look (reads_parenthesised h hv)
  decides _ hx := decides_primary h hx
  possible := ⟨[.number], .inl (.inl rfl)⟩

/-! ### Operators and operands -/

/-- The kinds that stand for an operator of a class. -/
def isOperator (among : BinaryOp → Bool) (kind : Kind) : Bool :=
  ((BinaryOp.ofKind? kind).filter among).isSome

theorem isOperator_eq_false {among : BinaryOp → Bool} {kind : Kind} :
    isOperator among kind = false ↔ (BinaryOp.ofKind? kind).filter among = none := by
  unfold isOperator
  rw [Option.isSome_eq_false_iff, Option.isNone_iff_eq_none]

theorem EndsExpression.not_isOperator {kind : Kind} (h : EndsExpression kind)
    (among : BinaryOp → Bool) : isOperator among kind = false := by
  rw [isOperator_eq_false, h]
  rfl

section Operator

variable {β : Type} {among : BinaryOp → Bool} {operators : List Kind} {operand : Rule σ Expr}
  {L : Phrase} {F : Kind → Prop} {post : β → Prop}

/-- An operator and the operand behind it. -/
theorem reads_operator (hoperand : Accords d L F Any fun _ : Unit => operand)
    (hamong : ∀ kind, kind ∈ operators ↔ isOperator among kind = true)
    {f : Kind → Rule σ β} (make : BinaryOp → Expr → β)
    (hbranch : ∀ kind op, (BinaryOp.ofKind? kind).filter among = some op →
      f kind = Rule.consume >>= fun _ => operand >>= fun right => pure (make op right))
    (hpost : ∀ op right, post (make op right)) {w : List Kind} (hw : w ∈ oneOf operators * L)
    (hnext : F next) : Reads (Rule.lookahead >>= f) d w next post := by
  obtain ⟨kind, hkind, v, hv, rfl⟩ := mem_oneOf_mul.mp hw
  obtain ⟨op, hop⟩ := Option.isSome_iff_exists.mp ((hamong kind).mp hkind)
  have hright := hoperand.bind_pure fun (_ : Unit) a _ => hpost op a
  exact Reads.look_consume (hbranch kind op hop) (hright.reads hv hnext ())

theorem decides_operator (hoperand : Accords d L F Any fun _ : Unit => operand)
    (hamong : ∀ kind, kind ∈ operators ↔ isOperator among kind = true)
    {f : ι → Kind → Rule σ β} (make : ι → BinaryOp → Expr → β)
    (hbranch : ∀ i kind op, (BinaryOp.ofKind? kind).filter among = some op →
      f i kind = Rule.consume >>= fun _ => operand >>= fun right => pure (make i op right))
    (hpost : ∀ i op right, post (make i op right)) {x : List Kind} (hx : .eof ∉ x)
    (hguard : isOperator among (x.headD .eof) = true) :
    Decides d (oneOf operators * L) post (fun i => Rule.lookahead >>= f i) x := by
  cases x with
  | nil => exact absurd hguard Bool.false_ne_true
  | cons kind z =>
    obtain ⟨op, hop⟩ := Option.isSome_iff_exists.mp hguard
    have hright := (hoperand.comap fun _ : ι => ()).bind_pure fun i a _ => hpost i op a
    refine (Decides.look_consume (fun i => hbranch i kind op hop)
      (hright.decides z (List.not_mem_of_not_mem_cons hx))).mono fun w hw => ?_
    obtain ⟨v, hv, rfl⟩ := mem_token_mul.mp hw
    exact mem_oneOf_mul.mpr ⟨kind, (hamong kind).mpr hguard, v, hv, rfl⟩

theorem round_chainStep (hoperand : Accords d L F Any fun _ : Unit => operand)
    (hparen : F .openParen) (hamong : ∀ kind, kind ∈ operators ↔ isOperator among kind = true)
    (hfollow : ∀ kind ∈ operators, F kind) (hloop : Loop (chainStep among operand)) :
    Round d (oneOf operators * L) F (isOperator among) (chainStep among operand) where
  loop := hloop
  idle left next hnext := by
    refine Reads.look ?_
    rw [List.headD_nil, isOperator_eq_false.mp hnext]
    exact Reads.pure rfl
  reads hw hnext left := by
    refine reads_operator hoperand hamong (fun op right => some (.binary op left right))
      (fun kind op hop => ?_) (fun _ _ => rfl) hw hnext
    rw [hop]
  decides hx hguard := by
    refine decides_operator hoperand hamong
      (fun left op right => some (.binary op left right)) (fun left kind op hop => ?_)
      (fun _ _ _ => rfl) hx hguard
    rw [hop]
  head := (begins_oneOf fun kind => (hamong kind).mp).mul
  follow hkind := hfollow _ ((hamong _).mpr hkind)
  paren := hparen

theorem accords_chain (hoperand : Accords d L F Any fun _ : Unit => operand)
    (hparen : F .openParen) (hamong : ∀ kind, kind ∈ operators ↔ isOperator among kind = true)
    (hfollow : ∀ kind ∈ operators, F kind) (hloop : Loop (chainStep among operand)) :
    Accords d (Syntax.chain operators L) (fun kind => isOperator among kind = false ∧ F kind) Any
      fun _ : ι => chain among operand := by
  have hround := round_chainStep hoperand hparen hamong hfollow hloop
  refine (hoperand.comap fun _ => ()).bind (hround.accords.comap fun ia : ι × Expr => ia.2) hparen
    fun w hw next hnext => ?_
  exact hround.headD hw hnext.2

end Operator

variable [LawfulTokenStream σ]

theorem loop_chainStep {among : BinaryOp → Bool} {operand : Rule σ Expr}
    (hoperand : AlikeOperand Eq (Inner.whole (some limit)) (Inner.whole (some limit)) operand
      operand) : Loop (chainStep among operand) :=
  .of_alike (some limit) chainStep_of_end fun _ => alike_chainStep compositional_eq hoperand rfl

theorem accords_term (h : InnerAccords σ limit d within) :
    Accords d (Syntax.term within) (fun kind => isOperator BinaryOp.isMultiplicative kind = false)
      Any fun _ : ι => term (Inner.whole (some limit) : Inner σ) := by
  have hloop : Loop (chainStep BinaryOp.isMultiplicative
      (primary (Inner.whole (some limit) : Inner σ))) := loop_chainStep fun _ _ _ => alike_primary
  refine (accords_chain (accords_primary h) trivial ?_ (fun _ _ => trivial) hloop).follow
    fun _ hkind => ⟨hkind, trivial⟩
  intro kind
  cases kind <;> decide

theorem accords_arithmetic (h : InnerAccords σ limit d within) :
    Accords d (Syntax.arithmetic within)
      (fun kind => isOperator BinaryOp.isAdditive kind = false ∧
        isOperator BinaryOp.isMultiplicative kind = false)
      Any fun _ : ι => arithmetic (Inner.whole (some limit) : Inner σ) := by
  have hloop : Loop (chainStep BinaryOp.isAdditive
      (term (Inner.whole (some limit) : Inner σ))) :=
    loop_chainStep fun _ _ _ => alike_term compositional_eq
  refine accords_chain (accords_term h) rfl ?_ ?_ hloop
  · intro kind
    cases kind <;> decide
  · decide

/-- The comparison that an expression may end in. -/
theorem accords_comparison (h : InnerAccords σ limit d within) :
    Accords d (1 + oneOf relational * Syntax.arithmetic within) EndsExpression Any
      fun left : Expr => (do
        match (BinaryOp.ofKind? (← Rule.lookahead)).filter BinaryOp.isRelational with
        | none => return left
        | some op => do
          Rule.consume
          let right ← arithmetic (Inner.whole (some limit) : Inner σ)
          return .binary op left right) := by
  have hamong : ∀ kind, kind ∈ relational ↔ isOperator BinaryOp.isRelational kind = true := by
    intro kind
    cases kind <;> decide
  have harithmetic := (accords_arithmetic (ι := Unit) h).follow fun kind
    (hkind : EndsExpression kind) => ⟨hkind.not_isOperator _, hkind.not_isOperator _⟩
  refine (Accords.optional (G := EndsExpression) (b := id) (fun left kind hkind => ?_)
    (fun _ => trivial) (fun w hw next hnext left => ?_) fun x hx hguard => ?_).follow
    fun _ hkind => ⟨hkind.not_isOperator BinaryOp.isRelational, hkind⟩
  · rw [isOperator_eq_false.mp hkind]
    rfl
  · refine reads_operator harithmetic hamong (fun op right => .binary op left right)
      (fun kind op hop => ?_) (fun _ _ => trivial) hw hnext
    rw [hop]
  · refine decides_operator harithmetic hamong (fun left op right => .binary op left right)
      (fun left kind op hop => ?_) (fun _ _ _ => trivial) hx hguard
    rw [hop]

theorem accords_expression (h : InnerAccords σ limit d within) :
    Accords d (Syntax.expression within) EndsExpression Any
      fun _ : ι => expression (Inner.whole (some limit) : Inner σ) := by
  refine (accords_arithmetic h).bind ((accords_comparison h).comap fun ia : ι × Expr => ia.2)
    ⟨rfl, rfl⟩ fun w hw next hnext => ?_
  -- neither what ends an expression nor a relational operator carries on its first operand
  rcases hw with hw | hw
  · obtain rfl : w = [] := hw
    exact ⟨hnext.not_isOperator _, hnext.not_isOperator _⟩
  · have hrelational : ∀ kind ∈ relational, isOperator BinaryOp.isAdditive kind = false ∧
        isOperator BinaryOp.isMultiplicative kind = false := by decide
    exact (begins_oneOf hrelational).mul.headD hw next

end ScriptFront.Grammar
