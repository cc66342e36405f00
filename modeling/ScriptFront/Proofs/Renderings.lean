import ScriptFront.Proofs.SelfDelimiting

/-!
# ScriptFront.Proofs.Renderings

**Nothing is lost in a written form** (`renderings_injective`). From what is displayed of an
expression, from the tree of an expression on one line, and from the tree of a program on one line
or many, the expression or the program can be told, although texts are quoted in them that may hold
any sign the form itself is made of.

* `Shape` is what the first character of a written expression tells.
* `Spacing` is what stands between the parts of a tree. Trees on one line and on many differ in
  nothing else, so what is found of their parts is found for both (`Expr.written`).
-/

namespace ScriptFront

/-! ### Operators -/

namespace BinaryOp

theorem isAlpha_name (op : BinaryOp) : ∀ c ∈ op.name.toList, c.isAlpha = true :=
  List.all_eq_true.mp (by cases op <;> decide)

theorem eq_of_name {op other : BinaryOp} (h : op.name.toList = other.name.toList) : op = other := by
  have hfound := ofName?_name op
  rw [String.toList_inj.mp h, ofName?_name] at hfound
  exact (Option.some.inj hfound).symm

theorem ne_blank_symbol (op : BinaryOp) : ∀ c ∈ op.symbol.toList, (c != ' ') = true :=
  List.all_eq_true.mp (by cases op <;> decide)

theorem eq_of_symbol {op other : BinaryOp} (h : op.symbol.toList = other.symbol.toList) :
    op = other := by
  have hall : ∀ op ∈ all, ∀ other ∈ all, op.symbol = other.symbol → op = other := by decide
  exact hall op (mem_all op) other (mem_all other) (String.toList_inj.mp h)

end BinaryOp

/-! ### What is displayed of an expression -/

/-- What an expression is made of at its root. -/
inductive Shape
  | const
  | id
  | str
  | binary
  deriving DecidableEq

/-- The shape that is displayed with a sign in front. -/
def Shape.ofSign (c : Char) : Shape :=
  if c = '#' then .id else if c = '"' then .str else if c = '(' then .binary else .const

theorem Shape.ofSign_of_isFigure {c : Char} (h : isFigure c = true) : ofSign c = const := by
  have hne {sign : Char} (hsign : isFigure sign = false) : c ≠ sign := by
    rintro rfl
    cases h.symm.trans hsign
  rw [ofSign, if_neg (hne (by decide)), if_neg (hne (by decide)), if_neg (hne (by decide))]

/-- The shape whose tree has a letter in front. -/
def Shape.ofInitial (c : Char) : Shape :=
  if c = 'I' then .id else if c = 'S' then .str else if c = 'B' then .binary else .const

namespace Expr

/-- The shape of an expression. -/
def shape : Expr → Shape
  | const _ => .const
  | id _ => .id
  | str _ => .str
  | binary _ _ _ => .binary

theorem toList_display_id (ordinal : UInt32) :
    (id ordinal).display.toList = '#' :: Nat.toDigits 10 ordinal.toNat := by
  simp [display, displayWith, placeholder]

theorem toList_display_binary (op : BinaryOp) (left right : Expr) :
    (binary op left right).display.toList =
      '(' :: (left.display.toList ++ (op.spaced ++ (right.display.toList ++ [')']))) := by
  simp [display, displayWith, BinaryOp.spaced]

theorem exists_sign (e : Expr) : ∃ c cs, e.display.toList = c :: cs ∧ Shape.ofSign c = e.shape := by
  cases e with
  | const value =>
    have hne : (decimal value).toList ≠ [] := by
      rw [toList_decimal_eq]
      split
      · exact Nat.toDigits_ne_nil
      · exact List.cons_ne_nil _ _
    obtain ⟨c, cs, hwritten⟩ := List.exists_cons_of_ne_nil hne
    refine ⟨c, cs, hwritten, Shape.ofSign_of_isFigure (isFigure_decimal value c ?_)⟩
    rw [hwritten]
    exact List.mem_cons_self
  | id ordinal => exact ⟨_, _, toList_display_id ordinal, rfl⟩
  | str text => exact ⟨_, _, String.toList_ofList, rfl⟩
  | binary op left right => exact ⟨_, _, toList_display_binary op left right, rfl⟩

/-- What is displayed tells the shape. -/
theorem shape_eq_of_display {a b : Expr} {r s : List Char}
    (h : a.display.toList ++ r = b.display.toList ++ s) : a.shape = b.shape := by
  obtain ⟨c, cs, hc, hshape⟩ := a.exists_sign
  obtain ⟨d, ds, hd, hshape'⟩ := b.exists_sign
  rw [hc, hd] at h
  rw [← hshape, ← hshape', (List.cons_eq_cons.mp h).1]

/-- **What is displayed of an expression ends where it says itself**, if no figure comes behind it.
By induction on the expression. -/
theorem eq_of_display {a : Expr} : ∀ {b : Expr} {c d : Char} {r s : List Char},
    isFigure c = false → isFigure d = false →
      a.display.toList ++ c :: r = b.display.toList ++ d :: s → a = b ∧ c :: r = d :: s := by
  induction a with
  | const value =>
    intro b c d r s hc hd h
    have hshape := shape_eq_of_display h
    cases b with
    | const other =>
      obtain ⟨hvalue, hrest⟩ :=
        eq_of_runs (isFigure_decimal value) (isFigure_decimal other) hc hd h
      exact ⟨congrArg const (eq_of_decimal hvalue), hrest⟩
    | id | str | binary => cases hshape
  | id ordinal =>
    intro b c d r s hc hd h
    have hshape := shape_eq_of_display h
    cases b with
    | id other =>
      rw [toList_display_id, toList_display_id] at h
      obtain ⟨hordinal, hrest⟩ := eq_of_runs (isFigure_toDigits _) (isFigure_toDigits _) hc hd
        (List.cons_eq_cons.mp h).2
      have hnumber := eq_of_toDigits (by decide) (by decide) _ hordinal
      exact ⟨congrArg id (UInt32.toNat_inj.mp hnumber), hrest⟩
    | const | str | binary => cases hshape
  | str text =>
    intro b c d r s _ _ h
    have hshape := shape_eq_of_display h
    cases b with
    | str other =>
      obtain ⟨htext, hrest⟩ := Text.selfDelimiting_quote h
      exact ⟨congrArg str htext, hrest⟩
    | const | id | binary => cases hshape
  | binary op left right ihl ihr =>
    intro b c d r s _ _ h
    have hshape := shape_eq_of_display h
    cases b with
    | binary op' left' right' =>
      rw [toList_display_binary, toList_display_binary] at h
      have hblank : isFigure ' ' = false := by decide
      have hclosing : isFigure ')' = false := by decide
      have hoperands : left.display.toList ++
            ' ' :: (op.symbol.toList ++ ' ' :: (right.display.toList ++ ')' :: c :: r)) =
          left'.display.toList ++
            ' ' :: (op'.symbol.toList ++ ' ' :: (right'.display.toList ++ ')' :: d :: s)) := by
        simpa [BinaryOp.spaced] using h
      obtain ⟨rfl, hbehind⟩ := ihl hblank hblank hoperands
      obtain ⟨hop, hright⟩ := eq_of_runs op.ne_blank_symbol op'.ne_blank_symbol (by decide)
        (by decide) (List.cons_eq_cons.mp hbehind).2
      obtain ⟨rfl, hrest⟩ := ihr hclosing hclosing (List.cons_eq_cons.mp hright).2
      rw [BinaryOp.eq_of_symbol hop]
      exact ⟨rfl, (List.cons_eq_cons.mp hrest).2⟩
    | const | id | str => cases hshape

theorem display_injective : Function.Injective display := by
  intro a b h
  have hfigure : isFigure '\n' = false := by decide
  exact (eq_of_display hfigure hfigure (congrArg (fun text => text.toList ++ ['\n']) h)).1

end Expr

/-! ### Trees on one line and on many -/

/-- What stands between the parts of a tree, at each of its levels. -/
structure Spacing where
  /-- Between the opening parenthesis and an argument. -/
  beforeArgument : Nat → List Char
  /-- Between an argument and the closing parenthesis. -/
  afterArgument : Nat → List Char
  /-- Between the opening brace and the first field. -/
  beforeFields : Nat → List Char
  /-- Between two fields. -/
  betweenFields : Nat → List Char
  /-- Between the last field and the closing brace. -/
  afterFields : Nat → List Char
  /-- A number ends with its argument. -/
  argument_stops : ∀ level, ∃ c cs, afterArgument level ++ [')'] = c :: cs ∧ isFigure c = false
  /-- A name ends with its field. -/
  field_stops : ∀ level, ∃ c cs, betweenFields level = c :: cs ∧ c.isAlpha = false

namespace Spacing

variable {spacing : Spacing}

/-- All parts stand on one line. -/
def oneLine : Spacing where
  beforeArgument _ := []
  afterArgument _ := []
  beforeFields _ := [' ']
  betweenFields _ := [',', ' ']
  afterFields _ := [' ']
  argument_stops _ := ⟨_, _, rfl, by decide⟩
  field_stops _ := ⟨_, _, rfl, by decide⟩

/-- Each part stands on a line of its own. -/
def manyLines : Spacing where
  beforeArgument level := '\n' :: (indent (level + 1)).toList
  afterArgument level := ',' :: '\n' :: (indent level).toList
  beforeFields level := '\n' :: (indent (level + 1)).toList
  betweenFields level := ',' :: '\n' :: (indent (level + 1)).toList
  afterFields level := ',' :: '\n' :: (indent level).toList
  argument_stops _ := ⟨_, _, rfl, by decide⟩
  field_stops _ := ⟨_, _, rfl, by decide⟩

section

variable (level : Nat)

@[simp] theorem oneLine_beforeArgument : oneLine.beforeArgument level = [] := rfl

@[simp] theorem oneLine_afterArgument : oneLine.afterArgument level = [] := rfl

@[simp] theorem oneLine_beforeFields : oneLine.beforeFields level = [' '] := rfl

@[simp] theorem oneLine_betweenFields : oneLine.betweenFields level = [',', ' '] := rfl

@[simp] theorem oneLine_afterFields : oneLine.afterFields level = [' '] := rfl

@[simp] theorem manyLines_beforeArgument :
    manyLines.beforeArgument level = '\n' :: (indent (level + 1)).toList := rfl

@[simp] theorem manyLines_afterArgument :
    manyLines.afterArgument level = ',' :: '\n' :: (indent level).toList := rfl

@[simp] theorem manyLines_beforeFields :
    manyLines.beforeFields level = '\n' :: (indent (level + 1)).toList := rfl

@[simp] theorem manyLines_betweenFields :
    manyLines.betweenFields level = ',' :: '\n' :: (indent (level + 1)).toList := rfl

@[simp] theorem manyLines_afterFields :
    manyLines.afterFields level = ',' :: '\n' :: (indent level).toList := rfl

end

/-- A named part with one part inside. -/
def call (spacing : Spacing) (level : Nat) (name argument : List Char) : List Char :=
  name ++ '(' :: spacing.beforeArgument level ++
    (argument ++ (spacing.afterArgument level ++ [')']))

variable {α : Type} {write : α → List Char}

theorem selfDelimiting_call {level : Nat}
    (h : SelfDelimiting fun a => write a ++ (spacing.afterArgument level ++ [')']))
    (name : List Char) : SelfDelimiting fun a => spacing.call level name (write a) :=
  h.prepend _

/-- An argument that is a number. -/
theorem selfDelimiting_figures (hinjective : ∀ {a b}, write a = write b → a = b)
    (hall : ∀ a, ∀ c ∈ write a, isFigure c = true) (level : Nat) (name : List Char) :
    SelfDelimiting fun a => spacing.call level name (write a) := by
  obtain ⟨c, cs, hafter, hc⟩ := spacing.argument_stops level
  refine selfDelimiting_call ?_ name
  rw [hafter]
  exact SelfDelimiting.run hinjective hall hc cs

end Spacing

namespace Expr

variable {spacing : Spacing}

/-- The tree of an expression with the given spacing, its own first line standing at the given
level. -/
def written (spacing : Spacing) (level : Nat) : Expr → List Char
  | const value => spacing.call level "Const".toList (decimal value).toList
  | id ordinal => spacing.call level "Id".toList (Nat.toDigits 10 ordinal.toNat)
  | str text => spacing.call level "Str".toList (Text.quote text).toList
  | binary op left right =>
    ("Binary \x7b".toList ++ spacing.beforeFields level ++ "op: ".toList) ++
      (op.name.toList ++ (spacing.betweenFields level ++ ("left: ".toList ++
        (left.written spacing (level + 1) ++ ((spacing.betweenFields level ++ "right: ".toList) ++
          (right.written spacing (level + 1) ++ (spacing.afterFields level ++ ['\x7d'])))))))

/-- The tree on one line. -/
theorem toList_debug (e : Expr) : ∀ level, e.debug.toList = e.written .oneLine level := by
  induction e with
  | const | id | str =>
    intro level
    unfold debug written Spacing.call
    simp
  | binary op left right ihl ihr =>
    intro level
    unfold debug written
    simp [ihl (level + 1), ihr (level + 1)]

/-- The tree on many lines. -/
theorem toList_pretty (e : Expr) :
    ∀ level, (e.pretty level).toList = e.written .manyLines level := by
  induction e with
  | const | id | str =>
    intro level
    unfold pretty prettyCall written Spacing.call
    simp
  | binary op left right ihl ihr =>
    intro level
    unfold pretty prettyRecord written
    simp [ihl (level + 1), ihr (level + 1)]

/-- A tree begins with the initial of its shape. -/
theorem exists_initial (spacing : Spacing) (level : Nat) (e : Expr) :
    ∃ c cs, e.written spacing level = c :: cs ∧ Shape.ofInitial c = e.shape := by
  cases e <;> exact ⟨_, _, rfl, rfl⟩

/-- A tree tells the shape. -/
theorem shape_eq_of_written {a b : Expr} {level : Nat} {r s : List Char}
    (h : a.written spacing level ++ r = b.written spacing level ++ s) : a.shape = b.shape := by
  obtain ⟨c, cs, hc, hshape⟩ := a.exists_initial spacing level
  obtain ⟨d, ds, hd, hshape'⟩ := b.exists_initial spacing level
  rw [hc, hd] at h
  rw [← hshape, ← hshape', (List.cons_eq_cons.mp h).1]

/-- **The tree of an expression ends where it says itself.** By induction on the expression. -/
theorem selfDelimiting_written (spacing : Spacing) :
    ∀ level, SelfDelimiting (written spacing level) := by
  intro level a
  induction a generalizing level with
  | const value =>
    intro b r s h
    have hshape := shape_eq_of_written h
    cases b with
    | const other =>
      have hcall := spacing.selfDelimiting_figures eq_of_decimal isFigure_decimal level
        "Const".toList
      obtain ⟨rfl, hrest⟩ := hcall h
      exact ⟨rfl, hrest⟩
    | id | str | binary => cases hshape
  | id ordinal =>
    intro b r s h
    have hshape := shape_eq_of_written h
    cases b with
    | id other =>
      have hcall := spacing.selfDelimiting_figures (eq_of_toDigits (by decide) (by decide) _)
        isFigure_toDigits level "Id".toList
      obtain ⟨hnumber, hrest⟩ := hcall h
      exact ⟨congrArg id (UInt32.toNat_inj.mp hnumber), hrest⟩
    | const | str | binary => cases hshape
  | str text =>
    intro b r s h
    have hshape := shape_eq_of_written h
    cases b with
    | str other =>
      have hargument := Text.selfDelimiting_quote.append (spacing.afterArgument level ++ [')'])
      have hcall := spacing.selfDelimiting_call hargument "Str".toList
      obtain ⟨rfl, hrest⟩ := hcall h
      exact ⟨rfl, hrest⟩
    | const | id | binary => cases hshape
  | binary op left right ihl ihr =>
    intro b r s h
    have hshape := shape_eq_of_written h
    cases b with
    | binary op' left' right' =>
      obtain ⟨c, cs, hbetween, hc⟩ := spacing.field_stops level
      unfold written at h
      simp only [hbetween, List.append_assoc, List.cons_append, List.append_cancel_left_eq] at h
      -- one part after the other, each followed by what stands between it and the next
      obtain ⟨hop, hleft⟩ := eq_of_runs op.isAlpha_name op'.isAlpha_name hc hc h
      simp only [List.cons.injEq, true_and, List.append_cancel_left_eq] at hleft
      obtain ⟨rfl, hright⟩ := ihl (level + 1) hleft
      simp only [List.cons.injEq, true_and, List.append_cancel_left_eq] at hright
      obtain ⟨rfl, hrest⟩ := ihr (level + 1) hright
      rw [BinaryOp.eq_of_name hop]
      exact ⟨rfl, (List.cons_eq_cons.mp (List.append_cancel_left hrest)).2⟩
    | const | id | str => cases hshape

theorem debug_injective : Function.Injective debug := by
  intro a b h
  replace h := congrArg String.toList h
  rw [toList_debug a 0, toList_debug b 0] at h
  exact (selfDelimiting_written .oneLine 0).eq h

end Expr

/-! ### Programs -/

/-- The tree of a statement with the given spacing. -/
def Statement.written (spacing : Spacing) (level : Nat) : Statement → List Char
  | write value =>
    ("StmtNode \x7b".toList ++ spacing.beforeFields level ++ "kind: ".toList) ++
      (spacing.call (level + 1) "Write".toList (value.written spacing (level + 2)) ++
        (spacing.afterFields level ++ ['\x7d']))

namespace Statement

theorem toList_debug (statement : Statement) :
    statement.debug.toList = statement.written .oneLine 0 := by
  obtain ⟨value⟩ := statement
  unfold debug written Spacing.call
  simp [value.toList_debug 2]

theorem toList_pretty (statement : Statement) (level : Nat) :
    (statement.pretty level).toList = statement.written .manyLines level := by
  obtain ⟨value⟩ := statement
  unfold pretty written prettyRecord prettyCall Spacing.call
  simp [value.toList_pretty (level + 2)]

theorem selfDelimiting_written (spacing : Spacing) (level : Nat) :
    SelfDelimiting (written spacing level) := by
  rintro ⟨value⟩ ⟨other⟩ r s h
  have hargument := (Expr.selfDelimiting_written spacing (level + 2)).append
    (spacing.afterArgument (level + 1) ++ [')'])
  have hcall := spacing.selfDelimiting_call hargument "Write".toList
  have hrecord := (hcall.append (spacing.afterFields level ++ ['\x7d'])).prepend
    ("StmtNode \x7b".toList ++ spacing.beforeFields level ++ "kind: ".toList)
  obtain ⟨rfl, hrest⟩ := hrecord h
  exact ⟨rfl, hrest⟩

theorem exists_written (spacing : Spacing) (level : Nat) (statement : Statement) :
    ∃ cs, statement.written spacing level = 'S' :: cs := by
  obtain ⟨value⟩ := statement
  exact ⟨_, rfl⟩

end Statement

namespace Program

/-- The entries of a list on one line, behind the first. -/
def laterEntry (statement : Statement) : List Char :=
  [',', ' '] ++ statement.written .oneLine 0

/-- An entry of a list on many lines. -/
def lineEntry (statement : Statement) : List Char :=
  (indent 1).toList ++ (statement.written .manyLines 1 ++ [',', '\n'])

theorem toList_debug_cons (statement : Statement) (later : List Statement) :
    (Program.mk (statement :: later)).debug.toList =
      '[' :: (statement.written .oneLine 0 ++ (later.flatMap laterEntry ++ [']'])) := by
  have hlist : (", ".intercalate ((statement :: later).map Statement.debug)).toList =
      statement.written .oneLine 0 ++ later.flatMap laterEntry := by
    induction later generalizing statement with
    | nil => simp [Statement.toList_debug]
    | cons next later ih =>
      rw [List.map_cons, List.map_cons, String.intercalate_cons_cons, ← List.map_cons,
        String.toList_append, String.toList_append, ih, Statement.toList_debug]
      simp [laterEntry]
  unfold debug
  rw [String.toList_append, String.toList_append, hlist]
  simp

theorem toList_pretty_cons (statement : Statement) (later : List Statement) :
    (Program.mk (statement :: later)).pretty.toList =
      '[' :: '\n' :: ((statement :: later).flatMap lineEntry ++ [']']) := by
  have hentry (statement : Statement) :
      (indent 1 ++ statement.pretty 1 ++ ",\n").toList = lineEntry statement := by
    simp [lineEntry, Statement.toList_pretty]
  have hlist : (String.join ((statement :: later).map fun statement =>
      indent 1 ++ statement.pretty 1 ++ ",\n")).toList =
        (statement :: later).flatMap lineEntry := by
    rw [String.toList_join, List.flatMap_map]
    exact congrArg ((statement :: later).flatMap ·) (funext hentry)
  unfold pretty
  rw [if_neg (by simp), String.toList_append, String.toList_append, hlist]
  simp

theorem selfDelimiting_laterEntry : SelfDelimiting laterEntry :=
  (Statement.selfDelimiting_written .oneLine 0).prepend _

theorem selfDelimiting_lineEntry : SelfDelimiting lineEntry :=
  ((Statement.selfDelimiting_written .manyLines 1).append _).prepend _

/-- A list without entries is closed at once. -/
theorem debug_nil_ne (statement : Statement) (later : List Statement) :
    (Program.mk []).debug.toList ≠ (Program.mk (statement :: later)).debug.toList := by
  have hnil : (Program.mk []).debug.toList = ['[', ']'] := rfl
  obtain ⟨cs, hcs⟩ := statement.exists_written .oneLine 0
  rw [hnil, toList_debug_cons, hcs]
  simp

theorem pretty_nil_ne (statement : Statement) (later : List Statement) :
    (Program.mk []).pretty.toList ≠ (Program.mk (statement :: later)).pretty.toList := by
  have hnil : (Program.mk []).pretty.toList = ['[', ']'] := rfl
  rw [hnil, toList_pretty_cons]
  simp

theorem debug_injective : Function.Injective debug := by
  rintro ⟨statements⟩ ⟨statements'⟩ h
  replace h := congrArg String.toList h
  cases statements with
  | nil =>
    cases statements' with
    | nil => rfl
    | cons other later' => exact absurd h (debug_nil_ne other later')
  | cons statement later =>
    cases statements' with
    | nil => exact absurd h.symm (debug_nil_ne statement later)
    | cons other later' =>
      rw [toList_debug_cons, toList_debug_cons] at h
      obtain ⟨rfl, hlater⟩ :=
        Statement.selfDelimiting_written .oneLine 0 (List.cons_eq_cons.mp h).2
      have hentries := selfDelimiting_laterEntry.list ']' fun _ => ⟨_, _, rfl, by decide⟩
      rw [hentries.eq hlater]

theorem pretty_injective : Function.Injective pretty := by
  rintro ⟨statements⟩ ⟨statements'⟩ h
  replace h := congrArg String.toList h
  cases statements with
  | nil =>
    cases statements' with
    | nil => rfl
    | cons other later' => exact absurd h (pretty_nil_ne other later')
  | cons statement later =>
    cases statements' with
    | nil => exact absurd h.symm (pretty_nil_ne statement later)
    | cons other later' =>
      rw [toList_pretty_cons, toList_pretty_cons] at h
      have hentries := selfDelimiting_lineEntry.list ']' fun _ => ⟨' ', _, rfl, by decide⟩
      rw [hentries.eq (List.cons_eq_cons.mp (List.cons_eq_cons.mp h).2).2]

end Program

/-- **Nothing is lost in a written form.** Expressions that are displayed alike are the same, and so
are those with the same tree, and programs with the same tree, on one line or many, have the same
statements. -/
theorem renderings_injective :
    Function.Injective Expr.display ∧ Function.Injective Expr.debug ∧
      ∀ p q : Program, p.debug = q.debug ∨ p.pretty = q.pretty → p.statements = q.statements := by
  refine ⟨Expr.display_injective, Expr.debug_injective, fun p q h => ?_⟩
  rcases h with h | h
  · rw [Program.debug_injective h]
  · rw [Program.pretty_injective h]

end ScriptFront
