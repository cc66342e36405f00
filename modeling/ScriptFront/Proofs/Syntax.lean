import Mathlib.Computability.Language
import ScriptFront.Token.Kind

/-!
# ScriptFront.Proofs.Syntax

The **syntax of the script language**, as sets of sequences of kinds. Each construct is given by
one equation, with `+` between alternatives, `*` for what follows one another, `1 +` before what
may be missing and `∗` after what may be repeated.

An expression in parentheses and a condition open a level of nesting, from their first token to
their last. What may stand further in is a parameter (`Within`), and `within n` is what may stand
there if at most `n` levels are open at once; with no level left nothing may.
-/

namespace ScriptFront.Syntax

open scoped Computability

/-- A set of sequences of kinds. -/
abbrev Phrase := Language Kind

/-- One token of a kind. -/
def token (kind : Kind) : Phrase := {[kind]}

/-- One token of any of some kinds. -/
def oneOf (kinds : List Kind) : Phrase := {w | ∃ kind ∈ kinds, w = [kind]}

/-- What may stand one level of nesting further in. -/
structure Within where
  /-- Expressions. -/
  expression : Phrase
  /-- Sequences of statements. -/
  sequence : Phrase

/-! ### Expressions -/

def primary (within : Within) : Phrase :=
  token .number + token .identifier + token .openParen * within.expression * token .closeParen

/-- Operands with operators of some kinds between them. -/
def chain (operators : List Kind) (operand : Phrase) : Phrase :=
  operand * (oneOf operators * operand)∗

def term (within : Within) : Phrase :=
  chain [.star, .slash] (primary within)

def arithmetic (within : Within) : Phrase :=
  chain [.plus, .dash] (term within)

/-- The kinds that compare. -/
def relational : List Kind :=
  [.equals, .notEquals, .less, .lessEquals, .greater, .greaterEquals]

def expression (within : Within) : Phrase :=
  arithmetic within * (1 + oneOf relational * arithmetic within)

/-! ### Statements -/

/-- What is printed or returned. -/
def value (within : Within) : Phrase :=
  token .string + expression within

def printing (within : Within) : Phrase :=
  token .printWord * token .openParen * value within * token .closeParen * token .semicolon

def variableDeclaration (within : Within) : Phrase :=
  token .varWord * token .identifier * token .assignment * expression within * token .semicolon

/-- Items of some kinds with commas between them, and perhaps a comma after the last; or none. -/
def listOf (items : List Kind) : Phrase :=
  1 + oneOf items * (token .comma * oneOf items)∗ * (1 + token .comma)

def parameters : Phrase :=
  listOf [.identifier]

def arguments : Phrase :=
  listOf [.identifier, .number, .string]

def assignmentOrCall (within : Within) : Phrase :=
  token .identifier *
    (token .assignment * expression within + token .openParen * arguments * token .closeParen) *
    token .semicolon

def block (contents : Phrase) : Phrase :=
  token .openCurly * contents * token .closeCurly

def condition (within : Within) : Phrase :=
  token .ifWord * token .openParen * within.expression * token .closeParen *
    block within.sequence * (1 + token .elseWord * block within.sequence)

/-- What may stand in the body of a loop or a function. -/
def bodyStatement (within : Within) : Phrase :=
  printing within + condition within + variableDeclaration within + assignmentOrCall within

def increment (within : Within) : Phrase :=
  token .identifier *
    (token .plusPlus + token .minusMinus + token .assignment * expression within)

def loop (within : Within) : Phrase :=
  token .forWord * token .openParen * variableDeclaration within * expression within *
    token .semicolon * increment within * token .closeParen * block (bodyStatement within)∗

def returning (within : Within) : Phrase :=
  token .returnWord * value within * token .semicolon

def functionDeclaration (within : Within) : Phrase :=
  token .funWord * token .identifier * token .openParen * parameters * token .closeParen *
    block ((bodyStatement within)∗ * (1 + returning within))

def statement (within : Within) : Phrase :=
  printing within + loop within + condition within + functionDeclaration within +
    variableDeclaration within + assignmentOrCall within

def sequence (within : Within) : Phrase :=
  (statement within)∗

/-- What may stand further in if so many levels may be open at once. -/
def within : Nat → Within
  | 0 => ⟨0, 0⟩
  | levels + 1 => ⟨expression (within levels), sequence (within levels)⟩

/-- The programs that have at most so many levels open at once. -/
def program (levels : Nat) : Phrase :=
  sequence (within levels)

/-! ### The end is no part of a program -/

/-- No sequence of a phrase has the end in it. -/
def Endless (L : Phrase) : Prop :=
  ∀ w ∈ L, .eof ∉ w

section

variable {L M : Phrase}

theorem endless_zero : Endless 0 := by
  intro w hw
  exact absurd hw (Language.notMem_zero w)

@[grind .] theorem endless_one : Endless 1 := by
  intro w hw
  rw [(Language.mem_one w).mp hw]
  exact List.not_mem_nil

@[grind ←] theorem endless_token {kind : Kind} (h : kind ≠ .eof) : Endless (token kind) := by
  intro w hw
  obtain rfl : w = [kind] := hw
  exact fun hend => h (List.mem_singleton.mp hend).symm

@[grind ←] theorem endless_oneOf {kinds : List Kind} (h : .eof ∉ kinds) : Endless (oneOf kinds) := by
  intro w hw
  obtain ⟨kind, hkind, rfl⟩ := hw
  intro hend
  rw [List.mem_singleton.mp hend] at h
  exact h hkind

@[grind ←] theorem Endless.add (hL : Endless L) (hM : Endless M) : Endless (L + M) := by
  intro w hw
  rcases hw with hw | hw
  · exact hL w hw
  · exact hM w hw

@[grind ←] theorem Endless.mul (hL : Endless L) (hM : Endless M) : Endless (L * M) := by
  intro w hw
  obtain ⟨w₁, hw₁, w₂, hw₂, rfl⟩ := Language.mem_mul.mp hw
  rw [List.mem_append, not_or]
  exact ⟨hL w₁ hw₁, hM w₂ hw₂⟩

@[grind ←] theorem Endless.kstar (hL : Endless L) : Endless L∗ := by
  intro w hw
  obtain ⟨parts, rfl, hparts⟩ := Language.mem_kstar.mp hw
  intro hend
  obtain ⟨part, hpart, hmem⟩ := List.mem_flatten.mp hend
  exact hL part (hparts part hpart) hmem

end

theorem endless_chain {operators : List Kind} {operand : Phrase} (hoperators : .eof ∉ operators)
    (h : Endless operand) : Endless (chain operators operand) :=
  h.mul ((endless_oneOf hoperators).mul h).kstar

@[grind ←] theorem endless_block {contents : Phrase} (h : Endless contents) :
    Endless (block contents) := by
  unfold block
  grind

section

variable {within : Within}

theorem endless_expression (h : Endless within.expression) : Endless (expression within) := by
  have hprimary : Endless (primary within) := by
    unfold primary
    grind
  have harithmetic : Endless (arithmetic within) :=
    endless_chain (by decide) (endless_chain (by decide) hprimary)
  exact harithmetic.mul (endless_one.add ((endless_oneOf (by decide)).mul harithmetic))

theorem endless_listOf {items : List Kind} (h : .eof ∉ items) : Endless (listOf items) := by
  unfold listOf
  grind

theorem endless_condition (hexpression : Endless within.expression)
    (hsequence : Endless within.sequence) : Endless (condition within) := by
  have htest : Endless (token .ifWord * token .openParen * within.expression *
      token .closeParen) := by grind
  unfold condition
  grind

theorem endless_variableDeclaration (h : Endless (expression within)) :
    Endless (variableDeclaration within) := by
  unfold variableDeclaration
  grind

theorem endless_bodyStatement (h : Endless (expression within))
    (hcondition : Endless (condition within)) : Endless (bodyStatement within) := by
  have hvariable := endless_variableDeclaration h
  have hprinting : Endless (printing within) := by
    unfold printing value
    grind
  have harguments : Endless arguments := endless_listOf (by decide)
  have hcall : Endless (token .openParen * arguments * token .closeParen) := by grind
  have hassignment : Endless (assignmentOrCall within) := by
    unfold assignmentOrCall
    grind
  unfold bodyStatement
  grind

theorem endless_loop (h : Endless (expression within)) (hbody : Endless (bodyStatement within)) :
    Endless (loop within) := by
  have hvariable := endless_variableDeclaration h
  have hhead : Endless (token .forWord * token .openParen * variableDeclaration within *
      expression within) := by grind
  have hincrement : Endless (increment within) := by
    unfold increment
    grind
  unfold loop
  grind

theorem endless_functionDeclaration (h : Endless (expression within))
    (hbody : Endless (bodyStatement within)) : Endless (functionDeclaration within) := by
  have hparameters : Endless parameters := endless_listOf (by decide)
  have hhead : Endless (token .funWord * token .identifier * token .openParen * parameters) := by
    grind
  have hreturning : Endless (returning within) := by
    unfold returning value
    grind
  unfold functionDeclaration
  grind

theorem endless_sequence (hexpression : Endless within.expression)
    (hsequence : Endless within.sequence) : Endless (sequence within) := by
  have h := endless_expression hexpression
  have hbody := endless_bodyStatement h (endless_condition hexpression hsequence)
  have hloop := endless_loop h hbody
  have hfunction := endless_functionDeclaration h hbody
  have hstatement : statement within =
      bodyStatement within + loop within + functionDeclaration within := by
    unfold statement bodyStatement
    ac_rfl
  unfold sequence
  rw [hstatement]
  exact ((hbody.add hloop).add hfunction).kstar

end

/-- By induction on the levels. -/
theorem endless_within (levels : Nat) :
    Endless (within levels).expression ∧ Endless (within levels).sequence := by
  induction levels with
  | zero => exact ⟨endless_zero, endless_zero⟩
  | succ levels ih => exact ⟨endless_expression ih.1, endless_sequence ih.1 ih.2⟩

theorem endless_program (levels : Nat) : Endless (program levels) :=
  endless_sequence (endless_within levels).1 (endless_within levels).2

end ScriptFront.Syntax
