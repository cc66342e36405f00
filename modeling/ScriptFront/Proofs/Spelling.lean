import ScriptFront.Proofs.Conformity.Statement
import ScriptFront.Proofs.Trail

/-!
# ScriptFront.Proofs.Spelling

**Which symbols spell which tree.** The constructions are those of the syntax, one for each rule of
an expression, and beside the symbols they have the tree that is made of them. What may stand in
parentheses is a parameter again; `inside n` is what may stand there if at most `n` levels are open
at once.

* A rule returns the tree that the symbols spell (`yields_value`).
* Symbols of a phrase of the syntax spell some tree (`exists_value`).
* What each construction keeps, a whole value has (`Bracketed.value`).
-/

namespace ScriptFront

open Grammar

/-- A relation between symbols and the trees that they spell. -/
abbrev Spelling := List Symbol → Expr → Prop

namespace Spelling

/-- An integer, an identifier, or what is spelled in parentheses. -/
inductive Primary (inside : Spelling) : Spelling
  | leaf {symbol : Symbol} (hkind : symbol.kind = .number ∨ symbol.kind = .identifier) :
      Primary inside [symbol] symbol.leaf
  | parenthesised {opening closing : Symbol} {w : List Symbol} {e : Expr}
      (hopening : opening.kind = .openParen) (hinside : inside w e)
      (hclosing : closing.kind = .closeParen) : Primary inside (opening :: (w ++ [closing])) e

/-- Operands with operators of one class between them, grouped from the left. -/
inductive Chain (among : BinaryOp → Bool) (operand : Spelling) : Spelling
  | single {w : List Symbol} {e : Expr} (h : operand w e) : Chain among operand w e
  | more {w v : List Symbol} {symbol : Symbol} {op : BinaryOp} {l r : Expr}
      (hleft : Chain among operand w l) (hop : op.kind = symbol.kind) (hamong : among op = true)
      (hright : operand v r) : Chain among operand (w ++ symbol :: v) (.binary op l r)

def Term (inside : Spelling) : Spelling :=
  Chain BinaryOp.isMultiplicative (Primary inside)

def Arithmetic (inside : Spelling) : Spelling :=
  Chain BinaryOp.isAdditive (Term inside)

/-- A sum, or a comparison of two. -/
inductive Expression (inside : Spelling) : Spelling
  | single {w : List Symbol} {e : Expr} (h : Arithmetic inside w e) : Expression inside w e
  | comparison {w v : List Symbol} {symbol : Symbol} {op : BinaryOp} {l r : Expr}
      (hleft : Arithmetic inside w l) (hop : op.kind = symbol.kind)
      (hrelational : op.isRelational = true) (hright : Arithmetic inside v r) :
      Expression inside (w ++ symbol :: v) (.binary op l r)

/-- What may stand in parentheses if so many levels may be open at once. -/
def inside : Nat → Spelling
  | 0 => fun _ _ => False
  | levels + 1 => Expression (inside levels)

/-- What is printed or returned: a text, or an expression. -/
inductive Value (inside : Spelling) : Spelling
  | text {symbol : Symbol} (hkind : symbol.kind = .string) : Value inside [symbol] symbol.leaf
  | expression {w : List Symbol} {e : Expr} (h : Expression inside w e) : Value inside w e

/-! ### First symbols -/

section Head

variable {inside : Spelling} {w : List Symbol} {e : Expr}

/-- Whatever is spelled begins with something other than a text. -/
def Headed (spelling : Spelling) : Prop :=
  ∀ w e, spelling w e → ∃ symbol v, w = symbol :: v ∧ symbol.kind ≠ .string

theorem headed_primary : Headed (Primary inside) := by
  intro w e h
  cases h with
  | @leaf symbol hkind =>
    refine ⟨symbol, [], rfl, ?_⟩
    rcases hkind with hkind | hkind <;> simp [hkind]
  | @parenthesised opening closing w e hopening => exact ⟨opening, _, rfl, by simp [hopening]⟩

theorem Headed.chain {among : BinaryOp → Bool} {operand : Spelling} (h : Headed operand) :
    Headed (Chain among operand) := by
  intro w e hchain
  induction hchain with
  | single hoperand => exact h _ _ hoperand
  | more _ _ _ _ ih =>
    obtain ⟨first, v, rfl, hkind⟩ := ih
    exact ⟨first, _, rfl, hkind⟩

theorem headed_expression : Headed (Expression inside) := by
  have harithmetic : Headed (Arithmetic inside) := headed_primary.chain.chain
  intro w e h
  cases h with
  | single h => exact harithmetic w e h
  | comparison hleft =>
    obtain ⟨first, v, rfl, hkind⟩ := harithmetic _ _ hleft
    exact ⟨first, _, rfl, hkind⟩

theorem Expression.head_ne_string (h : Expression inside w e) (next : Kind) :
    (Symbol.kinds w).headD next ≠ .string := by
  obtain ⟨symbol, v, rfl, hkind⟩ := headed_expression w e h
  exact hkind

end Head

/-! ### What constructions keep -/

/-- A property of sequences of kinds that every construction of an expression keeps. -/
structure Bracketed (Q : List Kind → Prop) : Prop where
  append {x y : List Kind} : Q x → Q y → Q (x ++ y)
  leaf {kind : Kind} : kind = .number ∨ kind = .identifier ∨ kind = .string → Q [kind]
  operator (op : BinaryOp) : Q [op.kind]
  parenthesised {x : List Kind} : Q x → Q (.openParen :: (x ++ [.closeParen]))

namespace Bracketed

variable {Q : List Kind → Prop} {inside : Spelling} {w v : List Symbol} {symbol : Symbol}
  {e : Expr}

/-- What stands on the two sides of an operator has the property together. -/
theorem binary (h : Bracketed Q) {op : BinaryOp} (hleft : Q (Symbol.kinds w))
    (hop : op.kind = symbol.kind) (hright : Q (Symbol.kinds v)) :
    Q (Symbol.kinds (w ++ symbol :: v)) := by
  have hoperator : Q [symbol.kind] := hop ▸ h.operator op
  simpa using h.append hleft (h.append hoperator hright)

theorem primary (h : Bracketed Q) (hinside : ∀ w e, inside w e → Q (Symbol.kinds w))
    (hspells : Primary inside w e) : Q (Symbol.kinds w) := by
  cases hspells with
  | leaf hkind =>
    refine h.leaf ?_
    tauto
  | parenthesised hopening hinner hclosing =>
    simpa [hopening, hclosing] using h.parenthesised (hinside _ _ hinner)

theorem chain (h : Bracketed Q) {among : BinaryOp → Bool} {operand : Spelling}
    (hoperand : ∀ w e, operand w e → Q (Symbol.kinds w)) (hspells : Chain among operand w e) :
    Q (Symbol.kinds w) := by
  induction hspells with
  | single hsingle => exact hoperand _ _ hsingle
  | more _ hop _ hright ih => exact h.binary ih hop (hoperand _ _ hright)

theorem expression (h : Bracketed Q) (hinside : ∀ w e, inside w e → Q (Symbol.kinds w))
    (hspells : Expression inside w e) : Q (Symbol.kinds w) := by
  have harithmetic : ∀ w e, Arithmetic inside w e → Q (Symbol.kinds w) := fun w e =>
    h.chain fun w e => h.chain fun w e => h.primary hinside
  cases hspells with
  | single hsingle => exact harithmetic _ _ hsingle
  | comparison hleft hop _ hright =>
    exact h.binary (harithmetic _ _ hleft) hop (harithmetic _ _ hright)

/-- By induction on the levels. -/
theorem further (h : Bracketed Q) (levels : Nat) :
    ∀ w e, Spelling.inside levels w e → Q (Symbol.kinds w) := by
  induction levels with
  | zero => exact fun _ _ hfalse => hfalse.elim
  | succ levels ih => exact fun w e => h.expression ih

theorem value (h : Bracketed Q) {levels : Nat} (hspells : Value (Spelling.inside levels) w e) :
    Q (Symbol.kinds w) := by
  cases hspells with
  | text hkind => exact h.leaf (.inr (.inr hkind))
  | expression hexpression => exact h.expression (h.further levels) hexpression

end Bracketed

/-! ### What is spelled is returned -/

section Yields

variable {σ : Type} [TokenStream σ] {limit d : Nat} {inside : Spelling} {w : List Symbol}
  {e : Expr} {next : Kind}

/-- The rules one level further in return what is spelled there. Where no level can be opened any
more, nothing is. -/
structure InnerYields (σ : Type) [TokenStream σ] (limit d : Nat) (inside : Spelling) : Prop where
  refused : limit ≤ d → ∀ w e, ¬ inside w e
  expression : d < limit → ∀ w e next, inside w e → EndsExpression next →
    Yields (Inner.whole (some limit) : Inner σ).expression e (d + 1) w next

theorem yields_primary (h : InnerYields σ limit d inside) (hspells : Primary inside w e) :
    Yields (primary (Inner.whole (some limit) : Inner σ)) e d w next := by
  apply Leads.look
  cases hspells with
  | @leaf symbol hkind =>
    rw [Symbol.kinds_cons, List.headD_cons]
    rcases hkind with hkind | hkind
    · rw [hkind]
      exact Yields.leaf fun s => by rw [hkind]; rfl
    · rw [hkind]
      exact Yields.leaf fun s => by rw [hkind]; rfl
  | @parenthesised opening closing w e hopening hinside hclosing =>
    rw [Symbol.kinds_cons, List.headD_cons, hopening]
    have hd : d < limit := Nat.lt_of_not_le fun hle => h.refused hle w e hinside
    have hends : EndsExpression ((Symbol.kinds [closing]).headD next) := by
      rw [Symbol.kinds_cons, List.headD_cons, hclosing]
      rfl
    apply Yields.nested hd
    apply Leads.consume
    exact Yields.bind (h.expression hd w e _ hinside hends) (Leads.expect hclosing Leads.refl)

section Chain

variable {among : BinaryOp → Bool} {operand : Rule σ Expr} {spelling : Spelling} {F : Kind → Prop}

/-- One more operator and operand lead a loop from one tree to the next. -/
theorem leads_chainStep (hloop : Loop (chainStep among operand)) {v : List Symbol}
    {symbol : Symbol} {op : BinaryOp} {l r : Expr} (hop : op.kind = symbol.kind)
    (hamong : among op = true) (hright : Yields operand r d v next) :
    Leads (Rule.many (chainStep among operand) l)
      (Rule.many (chainStep among operand) (.binary op l r)) d (symbol :: v) next := by
  have hkind : (BinaryOp.ofKind? symbol.kind).filter among = some op := by
    rw [BinaryOp.ofKind?_eq_some.mpr hop, Option.filter_some, if_pos hamong]
  have hstep : Yields (chainStep among operand l) (some (.binary op l r)) d (symbol :: v) next := by
    apply Leads.look
    rw [Symbol.kinds_cons, List.headD_cons, hkind]
    exact Leads.consume hright.bind_pure
  rw [hloop.many_eq l]
  exact Leads.bind hstep

/-- Where no operator of the class is in view, a loop is done. -/
theorem yields_chainEnd (hloop : Loop (chainStep among operand))
    (hnext : isOperator among next = false) (l : Expr) :
    Yields (Rule.many (chainStep among operand) l) l d [] next := by
  have hstep : Yields (chainStep among operand l) none d [] next := by
    apply Leads.look
    rw [Symbol.kinds_nil, List.headD_nil, isOperator_eq_false.mp hnext]
    exact Leads.refl
  rw [hloop.many_eq l]
  exact Leads.bind hstep

/-- A chain is read from the left, so that its loop comes to the tree of what has been read. -/
theorem leads_chain (hloop : Loop (chainStep among operand))
    (hoperand : ∀ w e next, spelling w e → F next → Yields operand e d w next)
    (hfollow : ∀ op : BinaryOp, among op = true → F op.kind) (hspells : Chain among spelling w e) :
    ∀ next, F next →
      Leads (chain among operand) (Rule.many (chainStep among operand) e) d w next := by
  induction hspells with
  | single h => exact fun next hnext => Leads.bind (hoperand _ _ next h hnext)
  | @more w v symbol op l r _ hop hamong hright ih =>
    intro next hnext
    have hleft := ih symbol.kind (hop ▸ hfollow op hamong)
    exact Leads.trans hleft (leads_chainStep hloop hop hamong (hoperand v r next hright hnext))

theorem yields_chain (hloop : Loop (chainStep among operand))
    (hoperand : ∀ w e next, spelling w e → F next → Yields operand e d w next)
    (hfollow : ∀ op : BinaryOp, among op = true → F op.kind) (hspells : Chain among spelling w e)
    (hnext : F next) (hend : isOperator among next = false) :
    Yields (chain among operand) e d w next := by
  rw [← List.append_nil w]
  exact Leads.trans (leads_chain hloop hoperand hfollow hspells _ hnext)
    (yields_chainEnd hloop hend e)

end Chain

variable [LawfulTokenStream σ]

theorem yields_term (h : InnerYields σ limit d inside) (hspells : Term inside w e)
    (hend : isOperator BinaryOp.isMultiplicative next = false) :
    Yields (term (Inner.whole (some limit) : Inner σ)) e d w next :=
  yields_chain (F := Any) (loop_chainStep fun _ _ _ => alike_primary)
    (fun _ _ _ hprimary _ => yields_primary h hprimary) (fun _ _ => trivial) hspells trivial hend

/-- What may stand behind a sum. -/
def EndsArithmetic (kind : Kind) : Prop :=
  isOperator BinaryOp.isAdditive kind = false ∧ isOperator BinaryOp.isMultiplicative kind = false

theorem yields_arithmetic (h : InnerYields σ limit d inside) (hspells : Arithmetic inside w e)
    (hend : EndsArithmetic next) :
    Yields (arithmetic (Inner.whole (some limit) : Inner σ)) e d w next := by
  have hfollow : ∀ op : BinaryOp, op.isAdditive = true →
      isOperator BinaryOp.isMultiplicative op.kind = false := by
    intro op
    cases op <;> simp [BinaryOp.isAdditive, BinaryOp.kind, isOperator, BinaryOp.ofKind?,
      BinaryOp.isMultiplicative]
  exact yields_chain (loop_chainStep fun _ _ _ => alike_term compositional_eq)
    (fun _ _ _ => yields_term h) hfollow hspells hend.2 hend.1

theorem yields_expression (h : InnerYields σ limit d inside) (hspells : Expression inside w e)
    (hend : EndsExpression next) :
    Yields (expression (Inner.whole (some limit) : Inner σ)) e d w next := by
  have harithmetic : EndsArithmetic next := ⟨hend.not_isOperator _, hend.not_isOperator _⟩
  cases hspells with
  | single hsingle =>
    -- no comparison follows, and so the first operand is all
    have hfirst : Yields (arithmetic (Inner.whole (some limit) : Inner σ)) e d w
        ((Symbol.kinds []).headD next) := yields_arithmetic h hsingle harithmetic
    rw [← List.append_nil w]
    refine Yields.bind hfirst ?_
    apply Leads.look
    rw [Symbol.kinds_nil, List.headD_nil, hend]
    exact Leads.refl
  | @comparison w v symbol op l r hleft hop hrelational hright =>
    have hkind : (BinaryOp.ofKind? symbol.kind).filter BinaryOp.isRelational = some op := by
      rw [BinaryOp.ofKind?_eq_some.mpr hop, Option.filter_some, if_pos hrelational]
    have hleftEnd : EndsArithmetic symbol.kind := by
      rw [← hop]
      cases op <;> first | exact ⟨rfl, rfl⟩ | cases hrelational
    have hfirst : Yields (arithmetic (Inner.whole (some limit) : Inner σ)) l d w
        ((Symbol.kinds (symbol :: v)).headD next) := yields_arithmetic h hleft hleftEnd
    refine Yields.bind hfirst ?_
    apply Leads.look
    rw [Symbol.kinds_cons, List.headD_cons, hkind]
    exact Leads.consume (yields_arithmetic h hright harithmetic).bind_pure

/-- By induction on the levels that can still be opened. -/
theorem innerYields (levels : Nat) :
    ∀ d, d + levels = limit → InnerYields σ limit d (Spelling.inside levels) := by
  induction levels with
  | zero => exact fun d hd => ⟨fun _ _ _ hfalse => hfalse, fun hlt => by omega⟩
  | succ levels ih =>
    intro d hd
    refine ⟨fun hlt => by omega, fun _ w e next hspells hend => ?_⟩
    rw [whole_expression]
    exact yields_expression (ih (d + 1) (by omega)) hspells hend

theorem yields_value (h : InnerYields σ limit d inside) (hspells : Value inside w e)
    (hend : EndsExpression next) :
    Yields (value (Inner.whole (some limit) : Inner σ)) e d w next := by
  apply Leads.look
  cases hspells with
  | @text symbol hkind =>
    rw [Symbol.kinds_cons, List.headD_cons, if_pos hkind]
    exact Yields.leaf fun s => by rw [hkind]; rfl
  | expression hexpression =>
    rw [if_neg (hexpression.head_ne_string next)]
    exact yields_expression h hexpression hend

end Yields

/-! ### What is a phrase is spelled -/

section Phrase

open Syntax
open scoped Computability

variable {within : Within} {inside : Spelling} {w : List Symbol} {kind : Kind} {L M : Phrase}

theorem exists_symbol (h : Symbol.kinds w ∈ token kind) :
    ∃ symbol : Symbol, w = [symbol] ∧ symbol.kind = kind := by
  obtain ⟨symbol, rfl, hkind⟩ := List.map_eq_singleton_iff.mp h
  exact ⟨symbol, rfl, hkind⟩

theorem exists_append (h : Symbol.kinds w ∈ L * M) :
    ∃ w₁ w₂, w = w₁ ++ w₂ ∧ Symbol.kinds w₁ ∈ L ∧ Symbol.kinds w₂ ∈ M := by
  obtain ⟨k₁, h₁, k₂, h₂, heq⟩ := Language.mem_mul.mp h
  obtain ⟨w₁, w₂, rfl, rfl, rfl⟩ := List.map_eq_append_iff.mp heq.symm
  exact ⟨w₁, w₂, rfl, h₁, h₂⟩

theorem exists_cons (h : Symbol.kinds w ∈ token kind * M) :
    ∃ symbol v, w = symbol :: v ∧ symbol.kind = kind ∧ Symbol.kinds v ∈ M := by
  obtain ⟨w₁, v, rfl, h₁, hv⟩ := exists_append h
  obtain ⟨symbol, rfl, hkind⟩ := exists_symbol h₁
  exact ⟨symbol, v, rfl, hkind, hv⟩

theorem exists_oneOf {kinds : List Kind} (h : Symbol.kinds w ∈ oneOf kinds * M) :
    ∃ symbol v, w = symbol :: v ∧ symbol.kind ∈ kinds ∧ Symbol.kinds v ∈ M := by
  obtain ⟨w₁, v, rfl, h₁, hv⟩ := exists_append h
  obtain ⟨kind, hkind, heq⟩ := h₁
  obtain ⟨symbol, rfl, rfl⟩ := List.map_eq_singleton_iff.mp heq
  exact ⟨symbol, v, rfl, hkind, hv⟩

/-- What follows one another is cut as its kinds are. By induction on the parts. -/
theorem exists_flatten (h : Symbol.kinds w ∈ L∗) :
    ∃ parts : List (List Symbol), w = parts.flatten ∧ ∀ part ∈ parts, Symbol.kinds part ∈ L := by
  obtain ⟨words, hflatten, hwords⟩ := Language.mem_kstar.mp h
  induction words generalizing w with
  | nil =>
    have hnil : w = [] := List.map_eq_nil_iff.mp hflatten
    exact ⟨[], hnil, by simp⟩
  | cons word words ih =>
    obtain ⟨hword, hrest⟩ := List.forall_mem_cons.mp hwords
    obtain ⟨first, rest, rfl, rfl, hkinds⟩ := List.map_eq_append_iff.mp hflatten
    have hmem : Symbol.kinds rest ∈ L∗ := Language.mem_kstar.mpr ⟨words, hkinds, hrest⟩
    obtain ⟨parts, rfl, hparts⟩ := ih hmem hkinds hrest
    exact ⟨first :: parts, rfl, List.forall_mem_cons.mpr ⟨hword, hparts⟩⟩

theorem exists_primary (hinside : ∀ w, Symbol.kinds w ∈ within.expression → ∃ e, inside w e)
    (h : Symbol.kinds w ∈ Syntax.primary within) : ∃ e, Primary inside w e := by
  rcases h with (h | h) | h
  · obtain ⟨symbol, rfl, hkind⟩ := exists_symbol h
    exact ⟨symbol.leaf, .leaf (.inl hkind)⟩
  · obtain ⟨symbol, rfl, hkind⟩ := exists_symbol h
    exact ⟨symbol.leaf, .leaf (.inr hkind)⟩
  · rw [mul_assoc] at h
    obtain ⟨opening, v, rfl, hopening, hv⟩ := exists_cons h
    obtain ⟨w, u, rfl, hw, hu⟩ := exists_append hv
    obtain ⟨closing, rfl, hclosing⟩ := exists_symbol hu
    obtain ⟨e, he⟩ := hinside w hw
    exact ⟨e, .parenthesised hopening he hclosing⟩

/-- By induction on the operands behind the first. -/
theorem exists_chain {among : BinaryOp → Bool} {operand : Spelling} {operators : List Kind}
    (hoperators : ∀ kind ∈ operators, isOperator among kind = true)
    (hoperand : ∀ w, Symbol.kinds w ∈ L → ∃ e, operand w e)
    (h : Symbol.kinds w ∈ Syntax.chain operators L) : ∃ e, Chain among operand w e := by
  obtain ⟨first, rest, rfl, hfirst, hrest⟩ := exists_append h
  obtain ⟨parts, rfl, hparts⟩ := exists_flatten hrest
  obtain ⟨e, he⟩ := hoperand first hfirst
  have hchain : Chain among operand first e := .single he
  clear h hfirst hrest he
  induction parts generalizing first e with
  | nil => exact ⟨e, by simpa using hchain⟩
  | cons part parts ih =>
    obtain ⟨symbol, v, rfl, hkind, hv⟩ := exists_oneOf (hparts part List.mem_cons_self)
    obtain ⟨op, hop⟩ := Option.isSome_iff_exists.mp (hoperators _ hkind)
    obtain ⟨hof, hamong⟩ := Option.filter_eq_some_iff.mp hop
    obtain ⟨r, hr⟩ := hoperand v hv
    have hmore := Chain.more hchain (BinaryOp.ofKind?_eq_some.mp hof) hamong hr
    have hlater := ih (first ++ symbol :: v)
      (fun part hpart => hparts part (List.mem_cons_of_mem _ hpart)) _ hmore
    simpa using hlater

theorem exists_arithmetic (hinside : ∀ w, Symbol.kinds w ∈ within.expression → ∃ e, inside w e)
    (h : Symbol.kinds w ∈ Syntax.arithmetic within) : ∃ e, Arithmetic inside w e := by
  have hterm : ∀ w, Symbol.kinds w ∈ Syntax.term within → ∃ e, Term inside w e := fun w hw =>
    exists_chain (by decide) (fun _ hprimary => exists_primary hinside hprimary) hw
  exact exists_chain (by decide) hterm h

theorem exists_expression (hinside : ∀ w, Symbol.kinds w ∈ within.expression → ∃ e, inside w e)
    (h : Symbol.kinds w ∈ Syntax.expression within) : ∃ e, Expression inside w e := by
  obtain ⟨left, rest, rfl, hleft, hrest⟩ := exists_append h
  obtain ⟨l, hl⟩ := exists_arithmetic hinside hleft
  rcases hrest with hrest | hrest
  · have hnil : rest = [] := List.map_eq_nil_iff.mp hrest
    exact ⟨l, .single (by simpa [hnil] using hl)⟩
  · obtain ⟨symbol, v, rfl, hkind, hv⟩ := exists_oneOf hrest
    have hrelational : ∀ kind ∈ relational, isOperator BinaryOp.isRelational kind = true := by
      decide
    obtain ⟨op, hop⟩ := Option.isSome_iff_exists.mp (hrelational _ hkind)
    obtain ⟨hof, hamong⟩ := Option.filter_eq_some_iff.mp hop
    obtain ⟨r, hr⟩ := exists_arithmetic hinside hv
    exact ⟨_, .comparison hl (BinaryOp.ofKind?_eq_some.mp hof) hamong hr⟩

/-- By induction on the levels. -/
theorem exists_inside (levels : Nat) :
    ∀ w, Symbol.kinds w ∈ (Syntax.within levels).expression → ∃ e, Spelling.inside levels w e := by
  induction levels with
  | zero => exact fun w hw => absurd hw (Language.notMem_zero _)
  | succ levels ih => exact fun w hw => exists_expression ih hw

theorem exists_value (levels : Nat) (h : Symbol.kinds w ∈ Syntax.value (Syntax.within levels)) :
    ∃ e, Value (Spelling.inside levels) w e := by
  rcases h with h | h
  · obtain ⟨symbol, rfl, hkind⟩ := exists_symbol h
    exact ⟨symbol.leaf, .text hkind⟩
  · obtain ⟨e, he⟩ := exists_expression (exists_inside levels) h
    exact ⟨e, .expression he⟩

end Phrase

end Spelling

end ScriptFront
