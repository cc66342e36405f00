import ScriptFront.Proofs.Retained

/-!
# ScriptFront.Proofs.Renaming

**Renaming the identifiers of symbols renames those of the statements that they spell.** The grammar
carries ordinals from the leaves to the tree and never looks at them, so whatever is put in their
place arrives there instead (`Sequence.renamed`), and no ordinal arrives there that is not one of a
leaf (`Sequence.ordinals_subset`).
-/

namespace ScriptFront

namespace Expr

/-- The ordinals of the identifiers, from left to right. -/
def ordinals : Expr → List UInt32
  | const _ => []
  | id ordinal => [ordinal]
  | str _ => []
  | binary _ left right => left.ordinals ++ right.ordinals

/-- The expression with every ordinal replaced. -/
def renamed (f : UInt32 → UInt32) : Expr → Expr
  | const value => const value
  | id ordinal => id (f ordinal)
  | str text => str text
  | binary op left right => binary op (left.renamed f) (right.renamed f)

@[simp] theorem renamed_self (e : Expr) : e.renamed (fun ordinal => ordinal) = e := by
  induction e with
  | const | id | str => rfl
  | binary op left right ihl ihr => rw [renamed, ihl, ihr]

/-- Only the ordinals that stand in an expression matter. -/
theorem renamed_congr {f g : UInt32 → UInt32} {e : Expr}
    (h : ∀ ordinal ∈ e.ordinals, f ordinal = g ordinal) : e.renamed f = e.renamed g := by
  induction e with
  | const | str => rfl
  | id ordinal => exact congrArg id (h ordinal List.mem_cons_self)
  | binary op left right ihl ihr =>
    rw [renamed, renamed, ihl fun ordinal hmem => h ordinal (List.mem_append_left _ hmem),
      ihr fun ordinal hmem => h ordinal (List.mem_append_right _ hmem)]

end Expr

/-- The statement with every ordinal replaced. -/
def Statement.renamed (f : UInt32 → UInt32) : Statement → Statement
  | .write value => .write (value.renamed f)

namespace Symbol

/-- The symbol with the ordinal of its leaf replaced. -/
def renamed (f : UInt32 → UInt32) (symbol : Symbol) : Symbol :=
  ⟨symbol.kind, symbol.leaf.renamed f⟩

@[simp] theorem kind_renamed (f : UInt32 → UInt32) (symbol : Symbol) :
    (symbol.renamed f).kind = symbol.kind := rfl

@[simp] theorem renamed_self (symbol : Symbol) :
    symbol.renamed (fun ordinal => ordinal) = symbol := by
  simp [renamed]

@[simp] theorem kinds_map_renamed (f : UInt32 → UInt32) (w : List Symbol) :
    kinds (w.map (renamed f)) = kinds w := by
  simp [kinds, Function.comp_def]

/-- The ordinals of the leaves of some symbols. -/
def ordinals (w : List Symbol) : List UInt32 :=
  w.flatMap fun symbol => symbol.leaf.ordinals

@[simp] theorem ordinals_cons (symbol : Symbol) (w : List Symbol) :
    ordinals (symbol :: w) = symbol.leaf.ordinals ++ ordinals w := rfl

@[simp] theorem ordinals_append (w v : List Symbol) :
    ordinals (w ++ v) = ordinals w ++ ordinals v :=
  List.flatMap_append

end Symbol

namespace Spelling

variable {f : UInt32 → UInt32} {inside operand : Spelling} {w v : List Symbol} {e l r : Expr}

/-- Trees that are spelled have the ordinals of their leaves, whatever these are. -/
structure Uniform (f : UInt32 → UInt32) (spelling : Spelling) : Prop where
  renamed {w : List Symbol} {e : Expr} :
    spelling w e → spelling (w.map (Symbol.renamed f)) (e.renamed f)
  ordinals_subset {w : List Symbol} {e : Expr} :
    spelling w e → e.ordinals ⊆ Symbol.ordinals w

/-- The ordinals of two operands are those of the symbols on the two sides of an operator. -/
theorem ordinals_binary_subset (op : BinaryOp) (symbol : Symbol)
    (hleft : l.ordinals ⊆ Symbol.ordinals w) (hright : r.ordinals ⊆ Symbol.ordinals v) :
    (Expr.binary op l r).ordinals ⊆ Symbol.ordinals (w ++ symbol :: v) := by
  rw [Symbol.ordinals_append, Symbol.ordinals_cons, ← List.append_assoc]
  intro n hn
  rcases List.mem_append.mp hn with hn | hn
  · exact List.mem_append_left _ (List.mem_append_left _ (hleft hn))
  · exact List.mem_append_right _ (hright hn)

theorem Uniform.primary (h : Uniform f inside) : Uniform f (Primary inside) where
  renamed hspells := by
    cases hspells with
    | leaf hkind => exact .leaf hkind
    | parenthesised hopening hinside hclosing =>
      rw [List.map_cons, List.map_append]
      exact .parenthesised hopening (h.renamed hinside) hclosing
  ordinals_subset hspells := by
    cases hspells with
    | leaf => simp [Symbol.ordinals]
    | parenthesised _ hinside _ =>
      intro n hn
      have hmem := h.ordinals_subset hinside hn
      simp [hmem]

theorem Uniform.chain (h : Uniform f operand) (among : BinaryOp → Bool) :
    Uniform f (Chain among operand) where
  renamed hspells := by
    induction hspells with
    | single hsingle => exact .single (h.renamed hsingle)
    | more _ hop hamong hright ih =>
      rw [List.map_append, List.map_cons]
      exact .more ih hop hamong (h.renamed hright)
  ordinals_subset hspells := by
    induction hspells with
    | single hsingle => exact h.ordinals_subset hsingle
    | more _ _ _ hright ih => exact ordinals_binary_subset _ _ ih (h.ordinals_subset hright)

theorem Uniform.expression (h : Uniform f inside) : Uniform f (Expression inside) := by
  have harithmetic : Uniform f (Arithmetic inside) := (h.primary.chain _).chain _
  constructor
  · intro w e hspells
    cases hspells with
    | single hsingle => exact .single (harithmetic.renamed hsingle)
    | comparison hleft hop hrelational hright =>
      rw [List.map_append, List.map_cons]
      exact .comparison (harithmetic.renamed hleft) hop hrelational (harithmetic.renamed hright)
  · intro w e hspells
    cases hspells with
    | single hsingle => exact harithmetic.ordinals_subset hsingle
    | comparison hleft _ _ hright =>
      exact ordinals_binary_subset _ _ (harithmetic.ordinals_subset hleft)
        (harithmetic.ordinals_subset hright)

/-- By induction on the levels. -/
theorem uniform_inside (f : UInt32 → UInt32) (levels : Nat) :
    Uniform f (Spelling.inside levels) := by
  induction levels with
  | zero => exact ⟨fun hfalse => hfalse.elim, fun hfalse => hfalse.elim⟩
  | succ levels ih => exact ih.expression

theorem uniform_value (f : UInt32 → UInt32) (levels : Nat) :
    Uniform f (Value (Spelling.inside levels)) := by
  have hexpression := (uniform_inside f levels).expression
  constructor
  · intro w e hspells
    cases hspells with
    | text hkind => exact .text hkind
    | expression h => exact .expression (hexpression.renamed h)
  · intro w e hspells
    cases hspells with
    | text => simp [Symbol.ordinals]
    | expression h => exact hexpression.ordinals_subset h

variable {levels : Nat} {found : Option Statement} {statements : List Statement}

theorem Single.renamed (f : UInt32 → UInt32) (h : Single levels w found) :
    Single levels (w.map (Symbol.renamed f)) (found.map (Statement.renamed f)) := by
  cases h with
  | printing hword hopening hvalue hclosing hsemicolon =>
    rw [List.map_cons, List.map_cons, List.map_append]
    exact .printing hword hopening ((uniform_value f levels).renamed hvalue) hclosing hsemicolon
  | dropped hdropped =>
    refine .dropped ?_
    rw [Symbol.kinds_map_renamed]
    exact hdropped

/-- **Symbols with other ordinals spell the statements with these.** -/
theorem Sequence.renamed (f : UInt32 → UInt32) (h : Sequence levels w statements) :
    Sequence levels (w.map (Symbol.renamed f)) (statements.map (Statement.renamed f)) := by
  induction h with
  | nil => exact .nil
  | @cons w v found statements hfirst _ ih =>
    have hfound : (found.toList ++ statements).map (Statement.renamed f) =
        (found.map (Statement.renamed f)).toList ++ statements.map (Statement.renamed f) := by
      cases found <;> rfl
    rw [List.map_append, hfound]
    exact .cons (hfirst.renamed f) ih

/-- **The ordinals of statements are ordinals of the symbols that spell them.** -/
theorem Sequence.ordinals_subset (h : Sequence levels w statements) :
    ∀ statement ∈ statements, statement.value.ordinals ⊆ Symbol.ordinals w := by
  induction h with
  | nil => simp
  | @cons w v found statements hfirst _ ih =>
    intro statement hmem n hn
    rw [Symbol.ordinals_append]
    rcases List.mem_append.mp hmem with hmem | hmem
    · cases hfirst with
      | dropped => simp at hmem
      | printing _ _ hvalue =>
        obtain rfl : statement = .write _ := by simpa using hmem
        have hsubset := (uniform_value id levels).ordinals_subset hvalue hn
        simp [hsubset]
    · exact List.mem_append_right _ (ih statement hmem hn)

end Spelling

end ScriptFront
