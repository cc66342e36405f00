import ScriptFront.Proofs.Alike

/-!
# ScriptFront.Proofs.Rules

Every rule of the grammar **takes the same steps over any two token streams** (`Alike`), if the
rules one level further in are related.
-/

namespace ScriptFront.Grammar

variable {σ τ : Type} [TokenStream σ] [TokenStream τ]
variable {E : Expr → Expr → Prop} {i : Inner σ} {j : Inner τ} {spent : Bool}
  {start : Kind → Prop}

/-- A relation between expressions that operators keep. -/
def Compositional (E : Expr → Expr → Prop) : Prop :=
  ∀ op l l' r r', E l l' → E r r' → E (.binary op l r) (.binary op l' r')

/-! ### Single tokens -/

/-- A kind in view that is refused is not one of those that are named as expected. -/
theorem Alike.refuse {α β : Type} {post : α → β → Bool → Prop} {kind : Kind} {expected : List Kind}
    (h : kind ∉ expected) (hne : expected ≠ []) :
    Alike E i j spent (· = kind) post (Rule.fail expected) (Rule.fail expected) := by
  refine .fail (fun seen hseen => ?_) hne
  have heq : seen = kind := hseen
  rw [heq]
  exact h

/-- A token before the end is consumed. -/
theorem Alike.spend {post : Unit → Unit → Bool → Prop} {kind : Kind} (hkind : kind ≠ .eof)
    (hpost : post () () true) :
    Alike E i j spent (· = kind) post Rule.consume Rule.consume := by
  refine .consume (fun seen hseen => ?_) hpost
  have heq : seen = kind := hseen
  rw [heq]
  exact hkind

theorem alike_expect {post : Unit → Unit → Bool → Prop} {kind : Kind} (hkind : kind ≠ .eof)
    (hpost : post () () true) :
    Alike E i j spent start post (Rule.expect kind) (Rule.expect kind) := by
  refine .look fun seen _ => ?_
  by_cases hseen : seen = kind
  · rw [if_pos hseen, if_pos hseen]
    exact Alike.spend (hseen ▸ hkind) hpost
  · rw [if_neg hseen, if_neg hseen]
    refine Alike.refuse ?_ (List.cons_ne_nil _ _)
    rw [List.mem_singleton]
    exact hseen

/-- A rule that surely consumes a token, with related results, and what follows. -/
theorem Alike.related_then {α β γ δ : Type} {rel : α → β → Prop} {post : γ → δ → Bool → Prop}
    {r : Rule σ α} {s : Rule τ β} {f : α → Rule σ γ} {g : β → Rule τ δ}
    (h : Alike E i j spent start (fun a b spent => rel a b ∧ spent = true) r s)
    (hnext : ∀ a b, rel a b → Alike E i j true (fun _ => True) post (f a) (g b)) :
    Alike E i j spent start post (r >>= f) (s >>= g) := by
  refine .bind _ h fun a b spent hmid => ?_
  obtain ⟨hrel, rfl⟩ := hmid
  exact hnext a b hrel

/-- A rule that surely consumes a token, with a result that does not matter, and what follows. -/
theorem Alike.spend_then {α β γ δ : Type} {post : γ → δ → Bool → Prop} {r : Rule σ α}
    {s : Rule τ β} {f : α → Rule σ γ} {g : β → Rule τ δ}
    (h : Alike E i j spent start (fun _ _ spent => spent = true) r s)
    (hnext : ∀ a b, Alike E i j true (fun _ => True) post (f a) (g b)) :
    Alike E i j spent start post (r >>= f) (s >>= g) := by
  refine .bind _ h fun a b spent hspent => ?_
  rw [hspent]
  exact hnext a b

/-- A token that is expected, and what follows it. -/
theorem Alike.expect_then {α β : Type} {post : α → β → Bool → Prop} {kind : Kind}
    {f : Unit → Rule σ α} {g : Unit → Rule τ β} (hkind : kind ≠ .eof)
    (h : Alike E i j true (fun _ => True) post (f ()) (g ())) :
    Alike E i j spent start post (Rule.expect kind >>= f) (Rule.expect kind >>= g) :=
  Alike.spend_then (alike_expect hkind rfl) fun _ _ => h

/-- A token before the end that is consumed, and what follows it. -/
theorem Alike.consume_then {α β : Type} {post : α → β → Bool → Prop} {kind : Kind}
    {f : Unit → Rule σ α} {g : Unit → Rule τ β} (hkind : kind ≠ .eof)
    (h : Alike E i j true (fun _ => True) post (f ()) (g ())) :
    Alike E i j spent (· = kind) post (Rule.consume >>= f) (Rule.consume >>= g) :=
  Alike.spend_then (Alike.spend hkind rfl) fun _ _ => h

/-! ### Expressions -/

theorem alike_primary {post : Expr → Expr → Bool → Prop} (hpost : ∀ a b, E a b → post a b true) :
    Alike E i j spent start post (primary i) (primary j) := by
  refine .look fun kind _ => ?_
  split
  · exact .integer (fun _ h => h) hpost
  · exact .identifier (fun _ h => h) hpost
  · -- the level is opened before the token is consumed, but the expression is asked for behind it
    refine .nested (fun _ h => by rw [h]; decide) (Alike.consume_then (by decide) ?_)
    refine .bind (fun a b _ => E a b) (.innerExpression fun _ _ h => h) ?_
    intro a b _ hab
    exact Alike.expect_then (by decide) (.pure (hpost a b hab))
  · next hnumber hidentifier hparen =>
    refine Alike.refuse ?_ (List.cons_ne_nil _ _)
    simp only [List.mem_cons, List.not_mem_nil, or_false, not_or]
    exact ⟨hnumber, hidentifier, hparen⟩

/-- The end stands for no operator. -/
theorem ne_eof_of_operator {among : BinaryOp → Bool} {kind : Kind} {op : BinaryOp}
    (h : (BinaryOp.ofKind? kind).filter among = some op) : kind ≠ .eof := by
  rintro rfl
  simp [BinaryOp.ofKind?] at h

omit [TokenStream σ] in
/-- At the kind in view a rule goes on as it does for that kind. -/
theorem lookahead_bind {α : Type} (f : Kind → Rule σ α) (p : Parser σ) :
    (Rule.lookahead >>= f) p = f p.lookahead p := rfl

theorem chainStep_of_end {among : BinaryOp → Bool} {operand : Rule σ Expr} (left : Expr)
    (p : Parser σ) (hend : p.lookahead = .eof) : chainStep among operand left p = .ok none p := by
  unfold chainStep
  rw [lookahead_bind, hend]
  rfl

/-- The operands of a chain are related at any start. -/
def AlikeOperand (E : Expr → Expr → Prop) (i : Inner σ) (j : Inner τ) (operand : Rule σ Expr)
    (operand' : Rule τ Expr) : Prop :=
  ∀ (spent : Bool) (start : Kind → Prop) (post : Expr → Expr → Bool → Prop),
    (∀ a b, E a b → post a b true) → Alike E i j spent start post operand operand'

theorem alike_chainStep (hE : Compositional E) {among : BinaryOp → Bool} {operand : Rule σ Expr}
    {operand' : Rule τ Expr} (hoperand : AlikeOperand E i j operand operand') {l l' : Expr}
    (hl : E l l') :
    Alike E i j spent start (GoesOn E) (chainStep among operand l)
      (chainStep among operand' l') := by
  refine .look fun kind _ => ?_
  cases hop : (BinaryOp.ofKind? kind).filter among with
  | none => exact .pure trivial
  | some op =>
    refine Alike.consume_then (ne_eof_of_operator hop) ?_
    refine Alike.related_then (hoperand _ _ _ fun _ _ h => ⟨h, rfl⟩) fun r r' hr => ?_
    exact .pure ⟨hE op l l' r r' hl hr, rfl⟩

theorem alike_chain (hE : Compositional E) {among : BinaryOp → Bool} {operand : Rule σ Expr}
    {operand' : Rule τ Expr} {post : Expr → Expr → Bool → Prop}
    (hoperand : AlikeOperand E i j operand operand') (hpost : ∀ a b, E a b → post a b true) :
    Alike E i j spent start post (chain among operand) (chain among operand') := by
  refine Alike.related_then (hoperand _ _ _ fun _ _ h => ⟨h, rfl⟩) fun a b hab => ?_
  exact .many E chainStep_of_end chainStep_of_end
    (fun _ _ h => alike_chainStep hE hoperand h) hab hpost

theorem alike_term (hE : Compositional E) {post : Expr → Expr → Bool → Prop}
    (hpost : ∀ a b, E a b → post a b true) :
    Alike E i j spent start post (term i) (term j) :=
  alike_chain hE (fun _ _ _ => alike_primary) hpost

theorem alike_arithmetic (hE : Compositional E) {post : Expr → Expr → Bool → Prop}
    (hpost : ∀ a b, E a b → post a b true) :
    Alike E i j spent start post (arithmetic i) (arithmetic j) :=
  alike_chain hE (fun _ _ _ => alike_term hE) hpost

theorem alike_expression (hE : Compositional E) {post : Expr → Expr → Bool → Prop}
    (hpost : ∀ a b, E a b → post a b true) :
    Alike E i j spent start post (expression i) (expression j) := by
  refine Alike.related_then (alike_arithmetic hE fun _ _ h => ⟨h, rfl⟩) fun l l' hl => ?_
  refine .look fun kind _ => ?_
  cases hop : (BinaryOp.ofKind? kind).filter BinaryOp.isRelational with
  | none => exact .pure (hpost l l' hl)
  | some op =>
    refine Alike.consume_then (ne_eof_of_operator hop) ?_
    refine Alike.related_then (alike_arithmetic hE fun _ _ h => ⟨h, rfl⟩) fun r r' hr => ?_
    exact .pure (hpost _ _ (hE op l l' r r' hl hr))

/-! ### Statements -/

theorem alike_value (hE : Compositional E) {post : Expr → Expr → Bool → Prop}
    (hpost : ∀ a b, E a b → post a b true) :
    Alike E i j spent start post (value i) (value j) := by
  refine .look fun kind _ => ?_
  by_cases hkind : kind = .string
  · rw [if_pos hkind, if_pos hkind]
    exact .text (fun _ h => h.trans hkind) hpost
  · rw [if_neg hkind, if_neg hkind]
    exact alike_expression hE hpost

theorem alike_printing (hE : Compositional E) {post : Statement → Statement → Bool → Prop}
    (hpost : ∀ s t, E s.value t.value → post s t true) :
    Alike E i j spent start post (printing i) (printing j) := by
  refine Alike.expect_then (by decide) (Alike.expect_then (by decide) ?_)
  refine .bind (fun a b _ => E a b) (alike_value hE fun _ _ h => h) ?_
  intro a b _ hab
  refine Alike.expect_then (by decide) (Alike.expect_then (by decide) ?_)
  exact .pure (hpost (.write a) (.write b) hab)

theorem alike_variableDeclaration (hE : Compositional E) {post : Unit → Unit → Bool → Prop}
    (hpost : post () () true) :
    Alike E i j spent start post (variableDeclaration i) (variableDeclaration j) := by
  refine Alike.expect_then (by decide) (Alike.expect_then (by decide)
    (Alike.expect_then (by decide) ?_))
  refine Alike.spend_then (alike_expression hE fun _ _ _ => rfl) fun _ _ => ?_
  exact alike_expect (by decide) hpost

theorem alike_separator {post : Unit → Unit → Bool → Prop} (hpost : post () () true) :
    Alike E i j true start post (separator : Rule σ Unit) (separator : Rule τ Unit) := by
  refine .look fun kind _ => ?_
  by_cases hkind : kind = .closeParen
  · rw [if_pos hkind, if_pos hkind]
    exact .pure hpost
  · rw [if_neg hkind, if_neg hkind]
    exact alike_expect (by decide) hpost

omit [TokenStream σ] in
theorem again_of_end {step : Rule σ Bool}
    (hrest : ∀ p : Parser σ, p.lookahead = .eof → step p = .ok false p) (_ : Unit) (p : Parser σ)
    (hend : p.lookahead = .eof) : Rule.again step p = .ok none p := by
  simp only [Rule.again, Bind.bind, EStateM.bind, hrest p hend]
  rfl

/-- A step that is repeated as long as it finds something to do consumes a token if it does. -/
def Finds (a b : Bool) (spent : Bool) : Prop :=
  a = b ∧ (a = true → spent = true)

theorem alike_again {step : Rule σ Bool} {step' : Rule τ Bool}
    (hstep : Alike E i j spent start Finds step step') :
    Alike E i j spent start (GoesOn fun _ _ => True) (Rule.again step) (Rule.again step') := by
  refine .bind Finds hstep ?_
  rintro (_ | _) _ spent' ⟨rfl, hspent⟩
  · exact .pure trivial
  · exact .pure ⟨trivial, hspent rfl⟩

/-- A loop that repeats a step for as long as it finds something to do. -/
theorem alike_repeatWhile {step : Rule σ Bool} {step' : Rule τ Bool}
    {post : Unit → Unit → Bool → Prop}
    (hrest : ∀ p : Parser σ, p.lookahead = .eof → step p = .ok false p)
    (hrest' : ∀ q : Parser τ, q.lookahead = .eof → step' q = .ok false q)
    (hstep : Alike E i j false (fun _ => True) Finds step step') (hpost : post () () spent) :
    Alike E i j spent start post (Rule.repeatWhile step) (Rule.repeatWhile step') :=
  .many (fun _ _ => True) (again_of_end hrest) (again_of_end hrest')
    (fun _ _ _ => alike_again hstep) trivial fun _ _ _ => hpost

theorem item_of_end {admits : Kind → Bool} (hadmits : admits .eof = false) (p : Parser σ)
    (hend : p.lookahead = .eof) : item admits p = .ok false p := by
  unfold item
  rw [lookahead_bind, hend, hadmits]
  rfl

theorem alike_item {admits : Kind → Bool} (hadmits : admits .eof = false) :
    Alike E i j spent start Finds (item admits : Rule σ Bool) (item admits : Rule τ Bool) := by
  refine .look fun kind _ => ?_
  cases hkind : admits kind with
  | false => exact .pure ⟨rfl, fun h => absurd h Bool.false_ne_true⟩
  | true =>
    have hend : kind ≠ .eof := by
      rintro rfl
      rw [hadmits] at hkind
      exact Bool.false_ne_true hkind
    refine Alike.consume_then hend (Alike.spend_then (alike_separator rfl) fun _ _ => ?_)
    exact .pure ⟨rfl, fun _ => rfl⟩

theorem alike_items {admits : Kind → Bool} {post : Unit → Unit → Bool → Prop}
    (hadmits : admits .eof = false) (hpost : post () () spent) :
    Alike E i j spent start post (items admits : Rule σ Unit) (items admits : Rule τ Unit) :=
  alike_repeatWhile (item_of_end hadmits) (item_of_end hadmits) (alike_item hadmits) hpost

theorem alike_assignmentOrCallTail (hE : Compositional E) {post : Unit → Unit → Bool → Prop}
    (hpost : post () () true) :
    Alike E i j spent start post (assignmentOrCallTail i) (assignmentOrCallTail j) := by
  refine .look fun kind _ => ?_
  split
  · refine Alike.consume_then (by decide) ?_
    exact Alike.spend_then (alike_expression hE fun _ _ _ => rfl) fun _ _ => .pure hpost
  · refine Alike.consume_then (by decide) (Alike.spend_then (alike_items rfl rfl) fun _ _ => ?_)
    exact alike_expect (by decide) hpost
  · next hassignment hparen =>
    refine Alike.refuse ?_ (List.cons_ne_nil _ _)
    simp only [List.mem_cons, List.not_mem_nil, or_false, not_or]
    exact ⟨hassignment, hparen⟩

theorem alike_assignmentOrCall (hE : Compositional E) {post : Unit → Unit → Bool → Prop}
    (hpost : post () () true) :
    Alike E i j spent start post (assignmentOrCall i) (assignmentOrCall j) := by
  refine Alike.expect_then (by decide)
    (Alike.spend_then (alike_assignmentOrCallTail hE rfl) fun _ _ => ?_)
  exact alike_expect (by decide) hpost

theorem alike_elseBranch {post : Unit → Unit → Bool → Prop} (hpost : post () () true) :
    Alike E i j true start post (elseBranch i) (elseBranch j) := by
  refine .look fun kind _ => ?_
  by_cases hkind : kind = .elseWord
  · rw [if_pos hkind, if_pos hkind]
    refine Alike.consume_then (by rw [hkind]; decide) (Alike.expect_then (by decide) ?_)
    refine Alike.spend_then (.innerSequence fun _ _ _ => rfl) fun _ _ => ?_
    exact alike_expect (by decide) hpost
  · rw [if_neg hkind, if_neg hkind]
    exact .pure hpost

theorem alike_condition {post : Unit → Unit → Bool → Prop}
    (hstart : ∀ kind, start kind → kind ≠ .eof) (hpost : post () () true) :
    Alike E i j spent start post (condition i) (condition j) := by
  refine .nested hstart (Alike.expect_then (by decide) (Alike.expect_then (by decide) ?_))
  refine Alike.spend_then (.innerExpression fun _ _ _ => rfl) fun _ _ => ?_
  refine Alike.expect_then (by decide) (Alike.expect_then (by decide) ?_)
  refine Alike.spend_then (.innerSequence fun _ _ _ => rfl) fun _ _ => ?_
  exact Alike.expect_then (by decide) (alike_elseBranch hpost)

theorem bodyStatement_of_end {inner : Inner σ} (p : Parser σ) (hend : p.lookahead = .eof) :
    bodyStatement inner p = .ok false p := by
  unfold bodyStatement
  rw [lookahead_bind, hend]
  rfl

/-- A statement in a body that has been read. -/
theorem alike_found {α β : Type} {r : Rule σ α} {s : Rule τ β}
    (h : Alike E i j spent start (fun _ _ spent => spent = true) r s) :
    Alike E i j spent start Finds (do let _ ← r; return true) (do let _ ← s; return true) :=
  Alike.spend_then h fun _ _ => .pure ⟨rfl, fun _ => rfl⟩

theorem alike_bodyStatement (hE : Compositional E) :
    Alike E i j spent start Finds (bodyStatement i) (bodyStatement j) := by
  refine .look fun kind _ => ?_
  split
  · exact alike_found (alike_printing hE fun _ _ _ => rfl)
  · exact alike_found (alike_condition (fun _ h => by rw [h]; decide) rfl)
  · exact alike_found (alike_variableDeclaration hE rfl)
  · exact alike_found (alike_assignmentOrCall hE rfl)
  · exact .pure ⟨rfl, fun h => absurd h Bool.false_ne_true⟩

theorem alike_body (hE : Compositional E) {post : Unit → Unit → Bool → Prop}
    (hpost : post () () spent) :
    Alike E i j spent start post (body i) (body j) :=
  alike_repeatWhile bodyStatement_of_end bodyStatement_of_end (alike_bodyStatement hE) hpost

theorem alike_incrementTail (hE : Compositional E) {post : Unit → Unit → Bool → Prop}
    (hpost : post () () true) :
    Alike E i j spent start post (incrementTail i) (incrementTail j) := by
  refine .look fun kind _ => ?_
  split
  · exact Alike.spend (by decide) hpost
  · exact Alike.spend (by decide) hpost
  · refine Alike.consume_then (by decide) ?_
    exact Alike.spend_then (alike_expression hE fun _ _ _ => rfl) fun _ _ => .pure hpost
  · next hplus hminus hassignment =>
    refine Alike.refuse ?_ (List.cons_ne_nil _ _)
    simp only [List.mem_cons, List.not_mem_nil, or_false, not_or]
    exact ⟨hplus, hminus, hassignment⟩

theorem alike_increment (hE : Compositional E) {post : Unit → Unit → Bool → Prop}
    (hpost : post () () true) :
    Alike E i j spent start post (increment i) (increment j) :=
  Alike.expect_then (by decide) (alike_incrementTail hE hpost)

theorem alike_loop (hE : Compositional E) {post : Unit → Unit → Bool → Prop}
    (hpost : post () () true) :
    Alike E i j spent start post (loop i) (loop j) := by
  refine Alike.expect_then (by decide) (Alike.expect_then (by decide) ?_)
  refine Alike.spend_then (alike_variableDeclaration hE rfl) fun _ _ => ?_
  refine Alike.spend_then (alike_expression hE fun _ _ _ => rfl) fun _ _ => ?_
  refine Alike.expect_then (by decide) (Alike.spend_then (alike_increment hE rfl) fun _ _ => ?_)
  refine Alike.expect_then (by decide) (Alike.expect_then (by decide) ?_)
  refine Alike.spend_then (alike_body hE rfl) fun _ _ => ?_
  exact alike_expect (by decide) hpost

theorem alike_returning (hE : Compositional E) {post : Unit → Unit → Bool → Prop}
    (hpost : post () () true) :
    Alike E i j true start post (returning i) (returning j) := by
  refine .look fun kind _ => ?_
  by_cases hkind : kind = .returnWord
  · rw [if_pos hkind, if_pos hkind]
    refine Alike.consume_then (by rw [hkind]; decide) ?_
    refine Alike.spend_then (alike_value hE fun _ _ _ => rfl) fun _ _ => ?_
    exact alike_expect (by decide) hpost
  · rw [if_neg hkind, if_neg hkind]
    exact .pure hpost

theorem alike_functionDeclaration (hE : Compositional E) {post : Unit → Unit → Bool → Prop}
    (hpost : post () () true) :
    Alike E i j spent start post (functionDeclaration i) (functionDeclaration j) := by
  refine Alike.expect_then (by decide) (Alike.expect_then (by decide)
    (Alike.expect_then (by decide) ?_))
  refine Alike.spend_then (alike_items rfl rfl) fun _ _ => ?_
  refine Alike.expect_then (by decide) (Alike.expect_then (by decide) ?_)
  refine Alike.spend_then (alike_body hE rfl) fun _ _ => ?_
  refine Alike.spend_then (alike_returning hE rfl) fun _ _ => ?_
  exact alike_expect (by decide) hpost

/-- A statement that is not retained. -/
theorem alike_dropped {post : Option Statement → Option Statement → Bool → Prop} {r : Rule σ Unit}
    {s : Rule τ Unit} (h : Alike E i j spent start (fun _ _ spent => spent = true) r s)
    (hpost : post none none true) :
    Alike E i j spent start post (do r; return none) (do s; return none) :=
  Alike.spend_then h fun _ _ => .pure hpost

/-- The statement that a statement rule retains, if any, on both sides. -/
def RetainedOption (E : Expr → Expr → Prop) : Option Statement → Option Statement → Prop :=
  Option.Rel fun s t => E s.value t.value

theorem alike_statement (hE : Compositional E)
    {post : Option Statement → Option Statement → Bool → Prop}
    (hrest : ∀ kind, start kind → kind.startsStatement = false → post none none spent)
    (hpost : ∀ s t, RetainedOption E s t → post s t true) :
    Alike E i j spent start post (statement i) (statement j) := by
  have hdropped := hpost none none .none
  refine .look fun kind hkind => ?_
  split
  · rw [map_eq_pure_bind, map_eq_pure_bind]
    refine Alike.related_then (alike_printing hE fun _ _ h => ⟨h, rfl⟩) fun s t hst => ?_
    exact .pure (hpost (some s) (some t) (.some hst))
  · exact alike_dropped (alike_loop hE rfl) hdropped
  · exact alike_dropped (alike_condition (fun _ h => by rw [h]; decide) rfl) hdropped
  · exact alike_dropped (alike_functionDeclaration hE rfl) hdropped
  · exact alike_dropped (alike_variableDeclaration hE rfl) hdropped
  · exact alike_dropped (alike_assignmentOrCall hE rfl) hdropped
  · -- a kind that begins no statement
    next hprint hfor hif hfun hvar hidentifier =>
    refine .pure (hrest _ hkind ?_)
    unfold Kind.startsStatement
    split <;> first | rfl | contradiction

theorem sequenceStep_of_end {inner : Inner σ} (retained : List Statement) (p : Parser σ)
    (hend : p.lookahead = .eof) : sequenceStep inner retained p = .ok none p := by
  unfold sequenceStep
  rw [lookahead_bind, hend]
  rfl

theorem alike_sequenceStep (hE : Compositional E) {l m : List Statement} (hlm : Retained E l m) :
    Alike E i j spent start (GoesOn (Retained E)) (sequenceStep i l) (sequenceStep j m) := by
  refine .look fun kind _ => ?_
  cases hkind : kind.startsStatement with
  | false => exact .pure trivial
  | true =>
    have hrest (seen : Kind) (hseen : seen = kind) (hnone : seen.startsStatement = false) :
        RetainedOption E none none ∧ spent = true := by
      rw [hseen, hkind] at hnone
      cases hnone
    refine Alike.related_then (alike_statement hE hrest fun _ _ h => ⟨h, rfl⟩) fun s t hst => ?_
    refine .pure ⟨List.rel_append hlm ?_, rfl⟩
    cases hst with
    | none => exact .nil
    | some h => exact .cons h .nil

theorem alike_sequence (hE : Compositional E)
    {post : List Statement → List Statement → Bool → Prop}
    (hpost : ∀ l m, Retained E l m → post l m spent) :
    Alike E i j spent start post (sequence i) (sequence j) :=
  .many (Retained E) sequenceStep_of_end sequenceStep_of_end
    (fun _ _ h => alike_sequenceStep hE h) .nil hpost

end ScriptFront.Grammar
