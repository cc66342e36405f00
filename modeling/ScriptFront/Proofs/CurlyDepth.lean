import Mathlib.Tactic.Ring
import ScriptFront.Proofs.Retained

/-!
# ScriptFront.Proofs.CurlyDepth

**Where print words stand.** A print word is at curly depth zero if as many curly brackets are
closed before it as are opened. `printsFrom` lists what stands behind each of these.

A statement that is not a print statement has no such word in it, if it begins at curly depth zero
itself (`silent_dropped`): whatever it has of statements stands in curly brackets.
-/

namespace ScriptFront

open Grammar
open scoped Computability

/-! ### Curly depth -/

/-- The number of curly brackets that are opened and not closed. -/
def curlyDepth (kinds : List Kind) : Int :=
  (kinds.count .openCurly : Int) - kinds.count .closeCurly

@[simp] theorem curlyDepth_nil : curlyDepth [] = 0 := rfl

@[simp] theorem curlyDepth_append (x y : List Kind) :
    curlyDepth (x ++ y) = curlyDepth x + curlyDepth y := by
  simp only [curlyDepth, List.count_append, Nat.cast_add]
  ring

theorem curlyDepth_cons (kind : Kind) (x : List Kind) :
    curlyDepth (kind :: x) = curlyDepth [kind] + curlyDepth x :=
  curlyDepth_append [kind] x

section Prints

variable {α β : Type} {kindOf : α → Kind}

/-- What stands behind each print word at curly depth zero, in the order of these, if the first
token stands at a given depth. -/
def printsFrom (kindOf : α → Kind) (depth : Int) : List α → List (List α)
  | [] => []
  | token :: rest =>
    let later := printsFrom kindOf (depth + curlyDepth [kindOf token]) rest
    if kindOf token = .printWord ∧ depth = 0 then rest :: later else later

theorem printsFrom_append (x y : List α) : ∀ depth : Int,
    printsFrom kindOf depth (x ++ y) = (printsFrom kindOf depth x).map (· ++ y) ++
      printsFrom kindOf (depth + curlyDepth (x.map kindOf)) y := by
  induction x with
  | nil => simp [printsFrom]
  | cons token x ih =>
    intro depth
    simp only [List.cons_append, printsFrom, ih, List.map_cons, curlyDepth_cons _ (x.map kindOf),
      add_assoc]
    split <;> simp

/-- Only the kinds tell where the print words stand. -/
theorem printsFrom_map (f : α → β) {kindOf : β → Kind} (x : List α) : ∀ depth : Int,
    printsFrom kindOf depth (x.map f) =
      (printsFrom (fun token => kindOf (f token)) depth x).map (List.map f) := by
  induction x with
  | nil => exact fun _ => rfl
  | cons token x ih =>
    intro depth
    simp only [List.map_cons, printsFrom, ih]
    split <;> rfl

end Prints

/-! ### Silent phrases -/

/-- Some kinds close the curly brackets that they open, and have no print word at depth zero where
they begin at the given depth or above. -/
def Quiet (least : Int) (w : List Kind) : Prop :=
  curlyDepth w = 0 ∧ ∀ depth, least ≤ depth → printsFrom id depth w = []

/-- Every sequence of a phrase is quiet. -/
def Silent (least : Int) (L : Syntax.Phrase) : Prop :=
  ∀ w ∈ L, Quiet least w

section Silent

open Syntax

variable {least : Int} {L M : Phrase} {kind : Kind} {within : Within}

theorem quiet_nil : Quiet least [] :=
  ⟨rfl, fun _ _ => rfl⟩

theorem quiet_singleton (hopening : kind ≠ .openCurly) (hclosing : kind ≠ .closeCurly)
    (hprint : kind ≠ .printWord) : Quiet least [kind] := by
  refine ⟨?_, fun depth _ => by simp [printsFrom, hprint]⟩
  simp [curlyDepth, hopening, hclosing]

theorem Quiet.append {x y : List Kind} (hx : Quiet least x) (hy : Quiet least y) :
    Quiet least (x ++ y) := by
  refine ⟨by simp [hx.1, hy.1], fun depth hdepth => ?_⟩
  rw [printsFrom_append, hx.2 depth hdepth, List.map_id, hx.1, add_zero, hy.2 depth hdepth]
  rfl

/-- Only the kinds tell whether there is a print word. -/
theorem Quiet.printsFrom_eq {α : Type} {kindOf : α → Kind} {x : List α}
    (h : Quiet least (x.map kindOf)) {depth : Int} (hdepth : least ≤ depth) :
    printsFrom kindOf depth x = [] := by
  have hnone := h.2 depth hdepth
  rw [printsFrom_map] at hnone
  exact List.map_eq_nil_iff.mp hnone

theorem Silent.mono {more : Int} (hle : least ≤ more) (h : Silent least L) : Silent more L :=
  fun w hw => ⟨(h w hw).1, fun depth hdepth => (h w hw).2 depth (by omega)⟩

theorem silent_zero : Silent least 0 :=
  fun w hw => absurd hw (Language.notMem_zero w)

@[grind .] theorem silent_one : Silent least 1 := by
  intro w hw
  rw [(Language.mem_one w).mp hw]
  exact quiet_nil

@[grind ←] theorem silent_token (hopening : kind ≠ .openCurly) (hclosing : kind ≠ .closeCurly)
    (hprint : kind ≠ .printWord) : Silent least (token kind) := by
  intro w hw
  obtain rfl : w = [kind] := hw
  exact quiet_singleton hopening hclosing hprint

/-- A print word at depth one is no print word at depth zero. -/
@[grind .] theorem silent_printWord : Silent 1 (token .printWord) := by
  intro w hw
  obtain rfl : w = [.printWord] := hw
  refine ⟨rfl, fun depth hdepth => ?_⟩
  have hne : depth ≠ 0 := by omega
  simp [printsFrom, hne]

@[grind ←] theorem silent_oneOf {kinds : List Kind} (hopening : .openCurly ∉ kinds)
    (hclosing : .closeCurly ∉ kinds) (hprint : .printWord ∉ kinds) :
    Silent least (oneOf kinds) := by
  intro w hw
  obtain ⟨kind, hkind, rfl⟩ := hw
  exact quiet_singleton (ne_of_mem_of_not_mem hkind hopening)
    (ne_of_mem_of_not_mem hkind hclosing) (ne_of_mem_of_not_mem hkind hprint)

@[grind ←] theorem Silent.add (hL : Silent least L) (hM : Silent least M) :
    Silent least (L + M) := by
  intro w hw
  rcases hw with hw | hw
  · exact hL w hw
  · exact hM w hw

@[grind ←] theorem Silent.mul (hL : Silent least L) (hM : Silent least M) :
    Silent least (L * M) := by
  intro w hw
  obtain ⟨x, hx, y, hy, rfl⟩ := Language.mem_mul.mp hw
  exact (hL x hx).append (hM y hy)

@[grind ←] theorem Silent.kstar (h : Silent least L) : Silent least L∗ := by
  intro w hw
  obtain ⟨parts, rfl, hparts⟩ := Language.mem_kstar.mp hw
  clear hw
  induction parts with
  | nil => exact quiet_nil
  | cons part parts ih =>
    obtain ⟨hpart, hparts⟩ := List.forall_mem_cons.mp hparts
    exact (h part hpart).append (ih hparts)

/-- What stands in curly brackets stands one level deeper. -/
@[grind ←] theorem Silent.block (h : Silent 1 L) : Silent 0 (block L) := by
  intro w hw
  obtain ⟨x, hx, y, hy, rfl⟩ := Language.mem_mul.mp hw
  obtain rfl : y = [.closeCurly] := hy
  obtain ⟨v, hv, rfl⟩ := mem_token_mul.mp hx
  obtain ⟨hdepth, hprints⟩ := h v hv
  refine ⟨?_, fun depth hle => ?_⟩
  · rw [curlyDepth_append, curlyDepth_cons, hdepth]
    rfl
  · have hinner : printsFrom id (depth + curlyDepth [.openCurly]) v = [] :=
      hprints _ (by simpa [curlyDepth] using hle)
    simp [printsFrom_append, printsFrom, hinner]

/-- There are neither print words nor curly brackets in an expression. -/
theorem bracketed_quiet : Spelling.Bracketed (Quiet least) where
  append := Quiet.append
  leaf := by
    rintro _ (rfl | rfl | rfl) <;> exact quiet_singleton (by decide) (by decide) (by decide)
  operator op := by
    cases op <;> exact quiet_singleton (by decide) (by decide) (by decide)
  parenthesised {x} h := by
    have hopening : Quiet least [.openParen] :=
      quiet_singleton (by decide) (by decide) (by decide)
    have hclosing : Quiet least [.closeParen] :=
      quiet_singleton (by decide) (by decide) (by decide)
    exact hopening.append (h.append hclosing)

theorem silent_value (levels : Nat) : Silent least (value (Syntax.within levels)) := by
  intro w hw
  have hkinds : Symbol.kinds (w.map Symbol.plain) = w := by
    simp [Symbol.kinds, Function.comp_def, Symbol.plain]
  obtain ⟨e, he⟩ := Spelling.exists_value levels (hkinds.symm ▸ hw)
  rw [← hkinds]
  exact bracketed_quiet.value he

theorem silent_expression (levels : Nat) : Silent least (expression (Syntax.within levels)) :=
  fun w hw => silent_value levels w (.inr hw)

/-! ### Silent statements -/

theorem silent_listOf {items : List Kind} (h : Silent least (oneOf items)) :
    Silent least (listOf items) := by
  unfold listOf
  grind

theorem silent_variableDeclaration (h : Silent least (expression within)) :
    Silent least (variableDeclaration within) := by
  unfold Syntax.variableDeclaration
  grind

theorem silent_assignmentOrCall (h : Silent least (expression within)) :
    Silent least (assignmentOrCall within) := by
  have harguments : Silent least arguments := silent_listOf (by grind)
  have hcall : Silent least (token .openParen * arguments * token .closeParen) := by grind
  unfold Syntax.assignmentOrCall
  grind

theorem silent_condition (hexpression : Silent 0 within.expression)
    (hsequence : Silent 1 within.sequence) : Silent 0 (condition within) := by
  have htest : Silent 0 (token .ifWord * token .openParen * within.expression *
      token .closeParen) := by grind
  unfold Syntax.condition
  grind

theorem silent_printing (hvalue : Silent 1 (value within)) : Silent 1 (printing within) := by
  unfold Syntax.printing
  grind

/-- A print statement in a body is one level deeper. -/
theorem silent_bodyStatement (hvalue : Silent 1 (value within)) (h : Silent 1 (expression within))
    (hcondition : Silent 0 (condition within)) : Silent 1 (bodyStatement within) := by
  have hprinting := silent_printing hvalue
  have hcondition' : Silent 1 (condition within) := hcondition.mono (by decide)
  have hvariable := silent_variableDeclaration h
  have hassignment := silent_assignmentOrCall h
  unfold Syntax.bodyStatement
  grind

theorem silent_loop (h : Silent 0 (expression within)) (hbody : Silent 1 (bodyStatement within)) :
    Silent 0 (loop within) := by
  have hvariable := silent_variableDeclaration h
  have hhead : Silent 0 (token .forWord * token .openParen * variableDeclaration within *
      expression within) := by grind
  have hincrement : Silent 0 (increment within) := by
    unfold Syntax.increment
    grind
  unfold Syntax.loop
  grind

theorem silent_functionDeclaration (hvalue : Silent 1 (value within))
    (hbody : Silent 1 (bodyStatement within)) : Silent 0 (functionDeclaration within) := by
  have hparameters : Silent 0 parameters := silent_listOf (by grind)
  have hhead : Silent 0 (token .funWord * token .identifier * token .openParen * parameters) := by
    grind
  have hreturning : Silent 1 (returning within) := by
    unfold Syntax.returning
    grind
  unfold Syntax.functionDeclaration
  grind

/-- A statement that is dropped has no print word at the depth at which it begins, and none of any
kind has one where it begins deeper. -/
theorem silent_statements (levels : Nat)
    (hsequence : Silent 1 (Syntax.within levels).sequence)
    (hexpression : Silent 0 (Syntax.within levels).expression) :
    Silent 0 (dropped (Syntax.within levels)) ∧ Silent 1 (statement (Syntax.within levels)) := by
  have hcondition := silent_condition hexpression hsequence
  have hbody := silent_bodyStatement (silent_value levels) (silent_expression levels) hcondition
  have hloop := silent_loop (silent_expression levels) hbody
  have hfunction := silent_functionDeclaration (silent_value levels) hbody
  have hexpression' : Silent 0 (expression (Syntax.within levels)) := silent_expression levels
  have hvariable := silent_variableDeclaration hexpression'
  have hassignment := silent_assignmentOrCall hexpression'
  have hdropped : Silent 0 (dropped (Syntax.within levels)) := by
    unfold Syntax.dropped
    grind
  refine ⟨hdropped, ?_⟩
  rw [Syntax.statement_eq]
  exact (silent_printing (silent_value levels)).add (hdropped.mono (by decide))

/-- By induction on the levels. -/
theorem silent_within (levels : Nat) :
    Silent 0 (Syntax.within levels).expression ∧ Silent 1 (Syntax.within levels).sequence := by
  induction levels with
  | zero => exact ⟨silent_zero, silent_zero⟩
  | succ levels ih => exact ⟨silent_expression levels, (silent_statements levels ih.2 ih.1).2.kstar⟩

theorem silent_dropped (levels : Nat) : Silent 0 (dropped (Syntax.within levels)) :=
  (silent_statements levels (silent_within levels).2 (silent_within levels).1).1

end Silent

end ScriptFront
