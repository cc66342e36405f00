import ScriptFront.Proofs.Acceptance
import ScriptFront.Proofs.Nesting
import ScriptFront.Proofs.Returning

/-!
# ScriptFront.Proofs.Parenthesised

**Trees and the ways to write them.** `Parenthesised` says how a tree is written with parentheses,
without a word about the grammar: in order, each part in as many pairs as one likes, and some parts
in at least one. Which ones those are is a matter of the operator of a part, the operator whose
operand it is, and the side (`NeedsPair`).

The grammar has a construction for each strength of binding instead. The two agree because an
operand needs a pair exactly if its operator belongs to a layer that the construction does not take
there (`needsPair_iff`). So a rule for expressions reads every way to write a tree, and what it
reads is a way to write the tree that it returns (`expression_inverts`).
-/

namespace ScriptFront

open Grammar

/-- The two sides of an operator. -/
inductive Side
  | left
  | right
  deriving DecidableEq

/-- Whether what the operator `part` makes needs parentheses as an operand of `op` on the side: a
comparison always, a sum to the right of `+` and `-` and on both sides of `*` and `/`, and a product
to the right of `*` and `/`. -/
def BinaryOp.Parts (op : BinaryOp) (side : Side) (part : BinaryOp) : Prop :=
  part.isRelational = true ∨
  part.isAdditive = true ∧ (op.isMultiplicative = true ∨ op.isAdditive = true ∧ side = .right) ∨
  part.isMultiplicative = true ∧ op.isMultiplicative = true ∧ side = .right

/-- Whether a tree needs parentheses as an operand of the operator on the side. -/
def NeedsPair (op : BinaryOp) (side : Side) : Expr → Prop
  | .binary part _ _ => op.Parts side part
  | _ => False

/-- The symbols write the tree, in order, with so many pairs of parentheses around it, and at most
`levels` pairs are open at once. -/
inductive Parenthesised : (pairs levels : Nat) → List Symbol → Expr → Prop
  | const (value : Int64) : Parenthesised 0 0 [⟨.number, .const value⟩] (.const value)
  | id (ordinal : UInt32) : Parenthesised 0 0 [⟨.identifier, .id ordinal⟩] (.id ordinal)
  | binary {pairsLeft pairsRight levelsLeft levelsRight : Nat} {w v : List Symbol}
      {op : BinaryOp} {l r : Expr} (hleft : Parenthesised pairsLeft levelsLeft w l)
      (hright : Parenthesised pairsRight levelsRight v r)
      (hneedsLeft : NeedsPair op .left l → pairsLeft ≠ 0)
      (hneedsRight : NeedsPair op .right r → pairsRight ≠ 0) :
      Parenthesised 0 (max levelsLeft levelsRight) (w ++ .plain op.kind :: v) (.binary op l r)
  | pair {pairs levels : Nat} {w : List Symbol} {e : Expr} (h : Parenthesised pairs levels w e) :
      Parenthesised (pairs + 1) (levels + 1) (.plain .openParen :: (w ++ [.plain .closeParen])) e

/-- The symbols write the tree, and no more than `levels` pairs of parentheses are open at once. -/
def WrittenWithin (levels : Nat) (w : List Symbol) (e : Expr) : Prop :=
  ∃ pairs deepest, Parenthesised pairs deepest w e ∧ deepest ≤ levels

/-! ### The layers of the grammar -/

/-- The layer of the expressions that an operator makes. -/
def BinaryOp.layer (op : BinaryOp) : Nat :=
  if op.isMultiplicative then 1 else if op.isAdditive then 2 else 3

/-- The last layer from which an operator takes its operand on a side. -/
def BinaryOp.operandLayer (op : BinaryOp) (side : Side) : Nat :=
  if op.isRelational then 2 else if side = .left then op.layer else op.layer - 1

/-- The layer of a tree without parentheses around it. -/
def Expr.layer : Expr → Nat
  | .binary op _ _ => op.layer
  | _ => 0

/-- The layer of a tree in so many pairs of parentheses. -/
def Expr.layerIn (e : Expr) (pairs : Nat) : Nat :=
  if pairs = 0 then e.layer else 0

theorem BinaryOp.parts_iff {op : BinaryOp} {side : Side} {part : BinaryOp} :
    op.Parts side part ↔ op.operandLayer side < part.layer := by
  unfold Parts
  cases side <;> cases op <;> cases part <;> decide

/-- **Parentheses are needed where the layer is too late.** -/
theorem needsPair_iff {op : BinaryOp} {side : Side} {e : Expr} :
    NeedsPair op side e ↔ op.operandLayer side < e.layer := by
  cases e with
  | binary => exact BinaryOp.parts_iff
  | _ => exact iff_of_false id (Nat.not_lt_zero _)

/-- An operand that has the pairs that it needs is of a layer that its operator takes. -/
theorem layerIn_le {op : BinaryOp} {side : Side} {e : Expr} {pairs : Nat} :
    e.layerIn pairs ≤ op.operandLayer side ↔ (NeedsPair op side e → pairs ≠ 0) := by
  rw [needsPair_iff]
  unfold Expr.layerIn
  split <;> omega

namespace Spelling

/-- The expressions of a layer, which are those of all the layers before it as well. -/
def layer (inside : Spelling) : Nat → Spelling
  | 0 => Primary inside
  | 1 => Term inside
  | 2 => Arithmetic inside
  | _ => Expression inside

variable {inside : Spelling} {w v : List Symbol} {symbol : Symbol} {e l r : Expr} {op : BinaryOp}
  {n : Nat}

theorem layer_succ (h : layer inside n w e) : layer inside (n + 1) w e :=
  match n, h with
  | 0, h => Chain.single h
  | 1, h => Chain.single h
  | 2, h => Expression.single h
  | _ + 3, h => h

theorem layer_mono {m : Nat} (hle : m ≤ n) (h : layer inside m w e) : layer inside n w e := by
  induction hle with
  | refl => exact h
  | step _ ih => exact layer_succ ih

theorem expression_of_layer (h : layer inside n w e) : Expression inside w e :=
  layer_mono (Nat.le_add_right n 3) h

/-- Two operands of layers that the operator takes make an expression of its own layer. -/
theorem layer_binary (hleft : layer inside (op.operandLayer .left) w l)
    (hop : op.kind = symbol.kind) (hright : layer inside (op.operandLayer .right) v r) :
    layer inside op.layer (w ++ symbol :: v) (.binary op l r) := by
  cases op with
  | add | sub => exact Chain.more (show Arithmetic inside w l from hleft) hop rfl hright
  | mul | div => exact Chain.more (show Term inside w l from hleft) hop rfl hright
  | _ => exact Expression.comparison hleft hop rfl hright

end Spelling

/-! ### What is written is spelled -/

open Spelling

variable {w : List Symbol} {e : Expr} {pairs deepest levels : Nat}

/-- By induction on how the tree is written. -/
theorem Parenthesised.spelled (h : Parenthesised pairs deepest w e) :
    ∀ {levels : Nat}, deepest ≤ levels → layer (inside levels) (e.layerIn pairs) w e := by
  induction h with
  | const value => exact fun _ => Primary.leaf (.inl rfl)
  | id ordinal => exact fun _ => Primary.leaf (.inr rfl)
  | binary hleft hright hneedsLeft hneedsRight ihl ihr =>
    intro levels hle
    have hl := layer_mono (layerIn_le.mpr hneedsLeft) (ihl (show _ ≤ levels by omega))
    have hr := layer_mono (layerIn_le.mpr hneedsRight) (ihr (show _ ≤ levels by omega))
    exact layer_binary hl rfl hr
  | @pair pairs deepest w e h ih =>
    intro levels hle
    obtain ⟨levels, rfl⟩ : ∃ k, levels = k + 1 := ⟨levels - 1, by omega⟩
    have hinside : Expression (inside levels) w e :=
      expression_of_layer (ih (show deepest ≤ levels by omega))
    exact Primary.parenthesised rfl hinside rfl

/-! ### What is spelled is written -/

/-- The symbol is that of some token: its leaf is the one that its kind makes. -/
def Symbol.Proper (symbol : Symbol) : Prop :=
  ∃ integer ordinal text, symbol = .ofValues symbol.kind integer ordinal text

theorem Symbol.proper_ofValues (kind : Kind) (integer : Int64) (ordinal : UInt32)
    (text : String) : (ofValues kind integer ordinal text).Proper :=
  ⟨integer, ordinal, text, by rw [kind_ofValues]⟩

theorem Symbol.Proper.eq_plain {symbol : Symbol} {kind : Kind} (h : symbol.Proper)
    (hkind : symbol.kind = kind) (hplain : kind ≠ .number ∧ kind ≠ .identifier ∧ kind ≠ .string) :
    symbol = .plain kind := by
  obtain ⟨integer, ordinal, text, heq⟩ := h
  rw [hkind] at heq
  rw [heq]
  cases kind <;> first | rfl | simp at hplain

theorem Trail.proper {σ : Type} [TokenStream σ] {s s' : σ} {kind next : Kind}
    (h : Trail w s kind s' next) : ∀ symbol ∈ w, symbol.Proper := by
  induction w generalizing s kind with
  | nil => exact fun _ hmem => absurd hmem List.not_mem_nil
  | cons symbol w ih =>
    obtain ⟨rfl, -, s₁, kind₁, -, hrest⟩ := h
    exact List.forall_mem_cons.mpr ⟨Symbol.proper_ofValues .., ih hrest⟩

/-- The symbols write the tree as an expression of the layer. -/
def WrittenAt (levels layer : Nat) (w : List Symbol) (e : Expr) : Prop :=
  ∃ pairs deepest, Parenthesised pairs deepest w e ∧ deepest ≤ levels ∧ e.layerIn pairs ≤ layer

/-- Whatever is spelled by the symbols of tokens is written so, as an expression of the layer. -/
def IsWritten (levels layer : Nat) (spelling : Spelling) : Prop :=
  ∀ w e, spelling w e → (∀ symbol ∈ w, symbol.Proper) → WrittenAt levels layer w e

/-- Two operands of the layers from which an operator takes them. -/
theorem WrittenAt.binary {op : BinaryOp} {symbol : Symbol} {v : List Symbol} {l r : Expr}
    {m k n : Nat} (hop : op.kind = symbol.kind)
    (hproper : ∀ other ∈ w ++ symbol :: v, other.Proper)
    (hlayers : op.operandLayer .left = m ∧ op.operandLayer .right = k ∧ op.layer = n)
    (hleft : (∀ symbol ∈ w, symbol.Proper) → WrittenAt levels m w l)
    (hright : (∀ symbol ∈ v, symbol.Proper) → WrittenAt levels k v r) :
    WrittenAt levels n (w ++ symbol :: v) (.binary op l r) := by
  obtain ⟨rfl, rfl, rfl⟩ := hlayers
  obtain ⟨hproperLeft, hproperRest⟩ := List.forall_mem_append.mp hproper
  obtain ⟨hproperSymbol, hproperRight⟩ := List.forall_mem_cons.mp hproperRest
  obtain ⟨pairsLeft, deepestLeft, hl, hleLeft, hlayerLeft⟩ := hleft hproperLeft
  obtain ⟨pairsRight, deepestRight, hr, hleRight, hlayerRight⟩ := hright hproperRight
  have hplain : symbol = .plain op.kind :=
    hproperSymbol.eq_plain hop.symm (by cases op <;> decide)
  rw [hplain]
  exact ⟨0, _, .binary hl hr (layerIn_le.mp hlayerLeft) (layerIn_le.mp hlayerRight), by omega,
    Nat.le_refl _⟩

theorem WrittenAt.mono {m n : Nat} (hle : m ≤ n) (h : WrittenAt levels m w e) :
    WrittenAt levels n w e := by
  obtain ⟨pairs, deepest, hwritten, hdeepest, hlayer⟩ := h
  exact ⟨pairs, deepest, hwritten, hdeepest, hlayer.trans hle⟩

/-- What is spelled in parentheses is written with a level to spare. -/
def IsWrittenInside (levels : Nat) (inside : Spelling) : Prop :=
  ∀ w e, inside w e → (∀ symbol ∈ w, symbol.Proper) →
    ∃ pairs deepest, Parenthesised pairs deepest w e ∧ deepest < levels

theorem isWritten_primary {inside : Spelling} (h : IsWrittenInside levels inside) :
    IsWritten levels 0 (Primary inside) := by
  intro w e hspells hproper
  cases hspells with
  | @leaf symbol hkind =>
    obtain ⟨integer, ordinal, text, heq⟩ := hproper symbol List.mem_cons_self
    rcases hkind with hkind | hkind
    · rw [hkind] at heq
      rw [heq]
      exact ⟨0, 0, .const integer, Nat.zero_le _, Nat.le_refl _⟩
    · rw [hkind] at heq
      rw [heq]
      exact ⟨0, 0, .id ordinal, Nat.zero_le _, Nat.le_refl _⟩
  | @parenthesised opening closing w e hopening hinside hclosing =>
    obtain ⟨hproperOpening, hproperRest⟩ := List.forall_mem_cons.mp hproper
    obtain ⟨hproperInside, hproperClosing⟩ := List.forall_mem_append.mp hproperRest
    obtain ⟨pairs, deepest, hwritten, hlt⟩ := h w e hinside hproperInside
    rw [hproperOpening.eq_plain hopening (by decide),
      (hproperClosing closing List.mem_cons_self).eq_plain hclosing (by decide)]
    exact ⟨pairs + 1, deepest + 1, .pair hwritten, hlt, Nat.zero_le _⟩

/-- What is chained is of the layer of its operators. By induction on the operands. -/
theorem isWritten_chain {among : BinaryOp → Bool} {operand : Spelling} {k n : Nat} (hle : k ≤ n)
    (hamong : ∀ op : BinaryOp, among op = true →
      op.operandLayer .left = n ∧ op.operandLayer .right = k ∧ op.layer = n)
    (h : IsWritten levels k operand) : IsWritten levels n (Chain among operand) := by
  intro w e hspells
  induction hspells with
  | single hoperand => exact fun hproper => (h _ _ hoperand hproper).mono hle
  | more hleft hop hclass hright ih =>
    exact fun hproper => WrittenAt.binary hop hproper (hamong _ hclass) ih (h _ _ hright)

theorem isWritten_arithmetic {inside : Spelling} (h : IsWrittenInside levels inside) :
    IsWritten levels 2 (Arithmetic inside) := by
  have hterm : IsWritten levels 1 (Term inside) :=
    isWritten_chain (by decide) (by intro op; cases op <;> decide) (isWritten_primary h)
  exact isWritten_chain (by decide) (by intro op; cases op <;> decide) hterm

theorem isWritten_expression {inside : Spelling} (h : IsWrittenInside levels inside) :
    IsWritten levels 3 (Expression inside) := by
  intro w e hspells hproper
  cases hspells with
  | single hsingle => exact (isWritten_arithmetic h w e hsingle hproper).mono (by decide)
  | @comparison w v symbol op l r hleft hop hrelational hright =>
    have hlayers : op.operandLayer .left = 2 ∧ op.operandLayer .right = 2 ∧ op.layer = 3 := by
      revert hrelational
      cases op <;> decide
    exact WrittenAt.binary hop hproper hlayers (isWritten_arithmetic h w l hleft)
      (isWritten_arithmetic h v r hright)

/-- By induction on the levels. -/
theorem isWrittenInside (levels : Nat) : IsWrittenInside levels (inside levels) := by
  induction levels with
  | zero => exact fun _ _ hfalse => hfalse.elim
  | succ levels ih =>
    intro w e hspells hproper
    obtain ⟨pairs, deepest, hwritten, hle, -⟩ := isWritten_expression ih w e hspells hproper
    exact ⟨pairs, deepest, hwritten, Nat.lt_succ_of_le hle⟩

theorem writtenWithin_of_expression (h : Expression (inside levels) w e)
    (hproper : ∀ symbol ∈ w, symbol.Proper) : WrittenWithin levels w e := by
  obtain ⟨pairs, deepest, hwritten, hle, -⟩ :=
    isWritten_expression (isWrittenInside levels) w e h hproper
  exact ⟨pairs, deepest, hwritten, hle⟩

/-! ### The rule for expressions -/

section

variable {σ : Type} [TokenStream σ] [LawfulTokenStream σ]

/-- At any number of open levels, those that can still be opened are the ones left of the limit. -/
theorem innerYields_left (limit d : Nat) : InnerYields σ limit d (inside (limit - d)) := by
  rcases Nat.le_total d limit with hle | hle
  · exact innerYields (limit - d) d (by omega)
  · rw [Nat.sub_eq_zero_of_le hle]
    exact ⟨fun _ _ _ hfalse => hfalse, fun hlt => absurd hlt (Nat.not_lt.mpr hle)⟩

/-- **The rule for expressions inverts the ways to write a tree.** From any state of a parser over
any tokens, if the tokens ahead write a tree with no more pairs of parentheses open at once than may
still be opened, and none that could continue an expression comes behind them, then they are
consumed and the tree is returned. And whenever a tree is returned, the tokens consumed write it
so. -/
theorem expression_inverts (p : Parser σ) :
    (∀ w e s next, WrittenWithin (256 - p.depth) w e → BinaryOp.ofKind? next = none →
      Trail w p.stream p.lookahead s next →
      ∃ p', closed (some maxDepth) Grammar.expression p = .ok e p' ∧ Ends p.depth s next p') ∧
    (∀ e p', closed (some maxDepth) Grammar.expression p = .ok e p' →
      ∃ w, Trail w p.stream p.lookahead p'.stream p'.lookahead ∧ p'.depth = p.depth ∧
        WrittenWithin (256 - p.depth) w e) := by
  have hrule : closed (some maxDepth) Grammar.expression =
      (Grammar.expression (Inner.whole (some maxDepth)) : Rule σ Expr) := whole_expression _
  rw [hrule]
  constructor
  · rintro w e s next ⟨pairs, deepest, hwritten, hle⟩ hend htrail
    have hspells : Expression (inside (maxDepth - p.depth)) w e :=
      expression_of_layer (hwritten.spelled hle)
    exact yields_expression (innerYields_left maxDepth p.depth) hspells hend p s rfl htrail
  · intro e p' hrun
    have hinside : InnerReturns σ maxDepth p.depth (inside (maxDepth - p.depth)) :=
      fun hlt => innerReturns _ p.depth (by omega) hlt
    obtain ⟨w, htrail, hdepth, hspells⟩ := returns_expression hinside p p' e trivial rfl hrun
    exact ⟨w, htrail, hdepth, writtenWithin_of_expression hspells htrail.proper⟩

end

/-- The tokens of `0 - (0 - 0);`, where one more level may be opened. -/
def Parser.subtrahend : Parser Playback where
  stream := Playback.reading
    ([.number, .dash, .openParen, .number, .dash, .number, .closeParen, .semicolon].map Item.bare)
    Position.nowhere
  lookahead := .number
  depth := 255

/-- The pair around the subtrahend is one that is needed, and that may still be opened. -/
theorem subtrahend_read :
    ∃ w s, Trail w Parser.subtrahend.stream .number s .semicolon ∧
      WrittenWithin 1 w (.binary .sub (.const 0) (.binary .sub (.const 0) (.const 0))) ∧
      ∃ p', closed (some maxDepth) Grammar.expression Parser.subtrahend =
        .ok (.binary .sub (.const 0) (.binary .sub (.const 0) (.const 0))) p' ∧
        Ends 255 s .semicolon p' := by
  have hdifference : Parenthesised 0 0 _ (.binary .sub (.const 0) (.const 0)) :=
    .binary (.const 0) (.const 0) nofun nofun
  have hwritten :
      WrittenWithin 1 _ (.binary .sub (.const 0) (.binary .sub (.const 0) (.const 0))) :=
    ⟨0, 1, .binary (.const 0) hdifference.pair nofun nofun, Nat.le_refl _⟩
  have htrail : Trail
      [⟨.number, .const 0⟩, .plain .dash, .plain .openParen, ⟨.number, .const 0⟩, .plain .dash,
        ⟨.number, .const 0⟩, .plain .closeParen] Parser.subtrahend.stream .number
      (Playback.reading [Item.bare .semicolon] Position.nowhere) .semicolon := by
    repeat' (first | exact ⟨rfl, rfl⟩ | refine ⟨rfl, by decide, _, _, rfl, ?_⟩)
  exact ⟨_, _, htrail, hwritten, (expression_inverts .subtrahend).1 _ _ _ _ hwritten rfl htrail⟩

end ScriptFront
