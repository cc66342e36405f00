import ScriptFront.Expr.Printer
import ScriptFront.Proofs.Cutting
import ScriptFront.Proofs.Renaming

/-!
# ScriptFront.Proofs.Printed

**The printed form of an expression, as the lexer sees it.** Names are put into the place of the
ordinals (`fillIn_display`), and what comes out is cut into the lexemes of the tree
(`Expr.Printable.cut`): a number or a name for each leaf, and two parentheses around the operands
of each operator.
-/

namespace ScriptFront

/-- Whether a word can be the name of an identifier. -/
def isName (word : String) : Bool :=
  match word.toList with
  | [] => false
  | c :: cs => isWordStart c && cs.all isWordPart && (Kind.ofReserved? word).isNone

/-- A name is a word that is not reserved. -/
theorem isName_iff {word : String} :
    isName word = true ↔ Pattern.isWord word.toList = true ∧ Kind.ofReserved? word = none := by
  unfold isName Pattern.isWord
  cases word.toList <;> simp

namespace Expr

/-- Whether an expression has no texts and no negative integers in it. -/
def isPlain : Expr → Bool
  | const value => 0 ≤ value
  | id _ => true
  | str _ => false
  | binary _ left right => left.isPlain && right.isPlain

/-- The number of operators that lie within one another. -/
def height : Expr → Nat
  | const _ | id _ | str _ => 0
  | binary _ left right => max left.height right.height + 1

/-- An expression that can be read back once its identifiers have the given names. -/
structure Printable (name : UInt32 → String) (e : Expr) : Prop where
  plain : e.isPlain = true
  names : ∀ ordinal ∈ e.ordinals, isName (name ordinal) = true

namespace Printable

variable {name : UInt32 → String} {op : BinaryOp} {l r : Expr}

theorem nonneg {value : Int64} (h : (const value).Printable name) : 0 ≤ value :=
  of_decide_eq_true h.plain

theorem isName {ordinal : UInt32} (h : (id ordinal).Printable name) :
    isName (name ordinal) = true :=
  h.names ordinal List.mem_cons_self

theorem left (h : (binary op l r).Printable name) : l.Printable name :=
  ⟨(Bool.and_eq_true_iff.mp h.plain).1, fun ordinal hmem =>
    h.names ordinal (List.mem_append_left _ hmem)⟩

theorem right (h : (binary op l r).Printable name) : r.Printable name :=
  ⟨(Bool.and_eq_true_iff.mp h.plain).2, fun ordinal hmem =>
    h.names ordinal (List.mem_append_right _ hmem)⟩

end Printable

end Expr

/-! ### Decimal digits -/

theorem decimalValue_toDigits (n : Nat) : decimalValue (Nat.toDigits 10 n) = n :=
  Nat.ofDigitChars_ten_toDigits

theorem isDigit_toDigits (n : Nat) : ∀ c ∈ Nat.toDigits 10 n, c.isDigit = true :=
  fun _ hc => Nat.isDigit_of_mem_toDigits (by decide) (by decide) hc

theorem toList_decimal {value : Int64} (h : 0 ≤ value) :
    (decimal value).toList = Nat.toDigits 10 value.toNatClampNeg := by
  have hnonneg : 0 ≤ value.toInt := Int64.le_iff_toInt_le.mp h
  unfold decimal
  rw [Int.repr_eq_if, if_pos hnonneg, Int64.toNat_toInt, Nat.toList_repr]

/-! ### Names in the place of ordinals -/

/-- One more character in front of a text whose placeholders have been replaced. Digits at its front
are kept apart, since they belong to a placeholder if its mark comes before them. -/
def fillStep (name : UInt32 → String) (c : Char) : List Char × List Char → List Char × List Char
  | (digits, filled) =>
    if c.isDigit then (c :: digits, filled)
    else if c = '#' then ([], (name (decimalValue digits).toUInt32).toList ++ filled)
    else ([], c :: (digits ++ filled))

/-- A text with every placeholder replaced by the name of its ordinal. -/
def fillIn (name : UInt32 → String) (text : String) : String :=
  let (digits, filled) := text.toList.foldr (fillStep name) ([], [])
  String.ofList (digits ++ filled)

section

variable {name : UInt32 → String} {e : Expr}

/-- Digits are kept apart from what stands behind them. -/
theorem foldr_fillStep_digits {digits : List Char} (h : ∀ c ∈ digits, c.isDigit = true)
    (filled : List Char) : digits.foldr (fillStep name) ([], filled) = (digits, filled) := by
  induction digits with
  | nil => rfl
  | cons c digits ih =>
    obtain ⟨hc, hdigits⟩ := List.forall_mem_cons.mp h
    rw [List.foldr_cons, ih hdigits, fillStep, if_pos hc]

/-- Whether a character is no part of a placeholder. -/
def isLiteral (c : Char) : Bool :=
  !c.isDigit && c != '#'

/-- What is no part of a placeholder stays as it is. -/
theorem foldr_fillStep_literal {text : List Char} (h : text.all isLiteral = true)
    (hne : text ≠ []) (state : List Char × List Char) :
    text.foldr (fillStep name) state = ([], text ++ (state.1 ++ state.2)) := by
  induction text with
  | nil => exact absurd rfl hne
  | cons c text ih =>
    rw [List.all_cons, Bool.and_eq_true] at h
    have hstep (digits filled : List Char) :
        fillStep name c (digits, filled) = ([], c :: (digits ++ filled)) := by
      have hc := h.1
      simp only [isLiteral, Bool.and_eq_true, Bool.not_eq_true', bne_iff_ne] at hc
      rw [fillStep, if_neg (by simp [hc.1]), if_neg hc.2]
    cases text with
    | nil => exact hstep _ _
    | cons d text =>
      rw [List.foldr_cons, ih h.2 (List.cons_ne_nil d text), hstep]
      rfl

/-- A placeholder is replaced. -/
theorem foldr_fillStep_placeholder (ordinal : UInt32) (filled : List Char) :
    (Expr.placeholder ordinal).toList.foldr (fillStep name) ([], filled) =
      ([], (name ordinal).toList ++ filled) := by
  have htext : (Expr.placeholder ordinal).toList = '#' :: Nat.toDigits 10 ordinal.toNat := by
    simp [Expr.placeholder, Nat.toList_repr]
  have hmark : '#'.isDigit = false := by decide
  rw [htext, List.foldr_cons, foldr_fillStep_digits (isDigit_toDigits _), fillStep,
    if_neg (by simp [hmark]), if_pos rfl, decimalValue_toDigits]
  simp

/-- The sign of an operator with a blank on both sides. -/
def BinaryOp.spaced (op : BinaryOp) : List Char :=
  ' ' :: (op.symbol.toList ++ [' '])

theorem foldr_fillStep_spaced (op : BinaryOp) (state : List Char × List Char) :
    op.spaced.foldr (fillStep name) state = ([], op.spaced ++ (state.1 ++ state.2)) := by
  have hliteral : op.spaced.all isLiteral = true := by
    cases op <;> decide
  exact foldr_fillStep_literal hliteral (List.cons_ne_nil _ _) state

/-- What is printed for a tree is filled in, whatever stands behind it. By induction on the tree. -/
theorem foldr_fillStep_display (h : e.isPlain = true) :
    ∀ filled, ∃ digits text, e.display.toList.foldr (fillStep name) ([], filled) = (digits, text) ∧
      digits ++ text = (e.displayWith name).toList ++ filled := by
  induction e with
  | const value =>
    intro filled
    have hvalue : 0 ≤ value := of_decide_eq_true h
    refine ⟨_, _, foldr_fillStep_digits ?_ filled, rfl⟩
    show ∀ c ∈ (decimal value).toList, c.isDigit = true
    rw [toList_decimal hvalue]
    exact isDigit_toDigits _
  | id ordinal =>
    intro filled
    exact ⟨_, _, foldr_fillStep_placeholder ordinal filled, rfl⟩
  | str => cases h
  | binary op left right ihl ihr =>
    intro filled
    obtain ⟨hleft, hright⟩ := Bool.and_eq_true_iff.mp h
    -- from the right, as the fold goes: an operand that begins with digits leaves them over
    obtain ⟨dr, tr, hr, htr⟩ := ihr hright (')' :: filled)
    obtain ⟨dl, tl, hl, htl⟩ := ihl hleft (op.spaced ++ (dr ++ tr))
    have htext : (Expr.binary op left right).display.toList =
        ['('] ++ (left.display.toList ++ (op.spaced ++ (right.display.toList ++ [')']))) := by
      simp [Expr.display, Expr.displayWith, BinaryOp.spaced]
    have hclosing : [')'].foldr (fillStep name) ([], filled) = ([], ')' :: filled) :=
      foldr_fillStep_literal (by decide) (by decide) _
    refine ⟨[], '(' :: (dl ++ tl), ?_, ?_⟩
    · rw [htext, List.foldr_append, List.foldr_append, List.foldr_append, List.foldr_append,
        hclosing, hr, foldr_fillStep_spaced, hl]
      exact foldr_fillStep_literal (by decide) (by decide) _
    · rw [htl, htr]
      simp [Expr.displayWith, BinaryOp.spaced]

/-- **The printed form with the placeholders replaced** is the form that is printed with names. -/
theorem fillIn_display (name : UInt32 → String) (h : e.isPlain = true) :
    fillIn name e.display = e.displayWith name := by
  obtain ⟨digits, text, hfold, htext⟩ := @foldr_fillStep_display name e h []
  unfold fillIn
  rw [hfold]
  show String.ofList (digits ++ text) = _
  rw [htext, List.append_nil, String.ofList_toList]

example : fillIn (fun ordinal => if ordinal = 12 then "x" else "y") "(#12 + (7 * #3))" =
    "(x + (7 * y))" := by
  decide

end

/-! ### The lexemes of a tree -/

/-- The lexeme of a sign. -/
def Lexeme.ofSign (spelling : List Char) (kind : Kind) : Lexeme :=
  (.sign spelling kind, spelling)

/-- The lexeme of an operator. -/
def BinaryOp.lexeme (op : BinaryOp) : Lexeme :=
  .ofSign op.symbol.toList op.kind

/-- The lexemes that an expression is printed with, if its identifiers have the given names. -/
def Expr.lexemes (name : UInt32 → String) : Expr → List Lexeme
  | const value => [(.digits, (decimal value).toList)]
  | id ordinal => [(.word, (name ordinal).toList)]
  | str _ => []
  | binary op left right =>
    .ofSign ['('] .openParen ::
      (left.lexemes name ++ op.lexeme :: (right.lexemes name ++ [.ofSign [')'] .closeParen]))

namespace Cut

variable {text rest : List Char} {lexemes : List Lexeme}

/-- Blanks before a text do not matter. -/
theorem blank (h : Cut text lexemes) : Cut (' ' :: text) lexemes := by
  have hblank : Text.isWhiteSpace ' ' = true := by decide
  cases h with
  | finish hgap => exact .finish (.blank hblank hgap)
  | lexeme hgap hclass hword hcomment hrest =>
    rw [← List.cons_append]
    exact .lexeme (.blank hblank hgap) hclass hword hcomment hrest

/-- A lexeme without a gap before it. -/
theorem adjacent {pattern : Pattern}
    (hclass : Pattern.classify? (text ++ rest) = some (pattern, text)) (hblank : pattern ≠ .blank)
    (hcomment : pattern ≠ .comment) (hrest : Cut rest lexemes) :
    Cut (text ++ rest) ((pattern, text) :: lexemes) :=
  @Cut.lexeme [] rest (pattern, text) lexemes .nil hclass hblank hcomment hrest

theorem sign {kind : Kind}
    (hclass : Pattern.classify? (text ++ rest) = some (Lexeme.ofSign text kind))
    (hrest : Cut rest lexemes) : Cut (text ++ rest) (.ofSign text kind :: lexemes) :=
  adjacent hclass nofun nofun hrest

theorem opening (hrest : Cut rest lexemes) :
    Cut ('(' :: rest) (.ofSign ['('] .openParen :: lexemes) := by
  have hclass : Pattern.classify? (['('] ++ rest) = some (Lexeme.ofSign ['('] .openParen) := rfl
  exact sign hclass hrest

theorem closing (hrest : Cut rest lexemes) :
    Cut (')' :: rest) (.ofSign [')'] .closeParen :: lexemes) := by
  have hclass : Pattern.classify? ([')'] ++ rest) = some (Lexeme.ofSign [')'] .closeParen) := rfl
  exact sign hclass hrest

theorem operator (op : BinaryOp) (hrest : Cut rest lexemes) :
    Cut (op.spaced ++ rest) (op.lexeme :: lexemes) := by
  have hclass : Pattern.classify? (op.symbol.toList ++ ' ' :: rest) = some op.lexeme := by
    cases op <;> rfl
  have hcut : Cut (op.symbol.toList ++ ' ' :: rest) (op.lexeme :: lexemes) :=
    sign hclass hrest.blank
  simpa [BinaryOp.spaced] using hcut.blank

theorem digits (n : Nat) (hstop : isWordPart (rest.headD '\n') = false) (hrest : Cut rest lexemes) :
    Cut (Nat.toDigits 10 n ++ rest) ((.digits, Nat.toDigits 10 n) :: lexemes) := by
  have hdigit := isDigit_toDigits n
  obtain ⟨c, cs, htext⟩ := List.exists_cons_of_ne_nil (Nat.toDigits_ne_nil : Nat.toDigits 10 n ≠ [])
  rw [htext] at hdigit ⊢
  obtain ⟨hc, hcs⟩ := List.forall_mem_cons.mp hdigit
  have hclass := Pattern.classify?_of_digits hc hcs (Bool.or_eq_false_iff.mp hstop).2
  exact adjacent hclass nofun nofun hrest

theorem word {word : String} (hword : isName word = true)
    (hstop : isWordPart (rest.headD '\n') = false) (hrest : Cut rest lexemes) :
    Cut (word.toList ++ rest) ((.word, word.toList) :: lexemes) := by
  exact adjacent (Pattern.classify?_of_isWord (isName_iff.mp hword).1 hstop) nofun nofun hrest

end Cut

/-- **The printed form is cut into the lexemes of the tree.** By induction on the tree. -/
theorem Expr.Printable.cut {name : UInt32 → String} {e : Expr} (h : e.Printable name) :
    ∀ {rest : List Char} {lexemes : List Lexeme}, Cut rest lexemes →
      isWordPart (rest.headD '\n') = false →
        Cut ((e.displayWith name).toList ++ rest) (e.lexemes name ++ lexemes) := by
  induction e with
  | const value =>
    intro rest lexemes hrest hstop
    show Cut ((decimal value).toList ++ rest) ((.digits, (decimal value).toList) :: lexemes)
    rw [toList_decimal h.nonneg]
    exact hrest.digits _ hstop
  | id ordinal =>
    intro rest lexemes hrest hstop
    exact hrest.word h.isName hstop
  | str => exact nomatch h.plain
  | binary op left right ihl ihr =>
    intro rest lexemes hrest hstop
    have htext : ((Expr.binary op left right).displayWith name).toList ++ rest =
        '(' :: ((left.displayWith name).toList ++
          (op.spaced ++ ((right.displayWith name).toList ++ ')' :: rest))) := by
      simp [Expr.displayWith, BinaryOp.spaced]
    have hlexemes : (Expr.binary op left right).lexemes name ++ lexemes =
        .ofSign ['('] .openParen :: (left.lexemes name ++
          op.lexeme :: (right.lexemes name ++ .ofSign [')'] .closeParen :: lexemes)) := by
      simp [Expr.lexemes]
    have hclosing : isWordPart ')' = false := by decide
    have hblank : isWordPart ' ' = false := by decide
    have hcutr := ihr h.right hrest.closing hclosing
    have hcutl := ihl h.left (hcutr.operator op) hblank
    rw [htext, hlexemes]
    exact hcutl.opening

end ScriptFront
