import ScriptFront.Proofs.Nesting
import ScriptFront.Proofs.Printed
import ScriptFront.Proofs.Sources

/-!
# ScriptFront.Proofs.RoundTrip

**What is printed is read back.** An expression is printed with parentheses around every operator,
and so the parser makes the same tree of it, in which only the ordinals are others: they are given
in the order in which the names appear. A tree is too high exactly if its parentheses are nested too
deeply.
-/

namespace ScriptFront

open Grammar Spelling

namespace Expr

/-- The expression with its ordinals numbered in the order in which they first appear, from left to
right. -/
def renumbered (e : Expr) : Expr :=
  e.renamed fun ordinal => (e.ordinals.eraseDups.idxOf ordinal).toUInt32

end Expr

/-! ### The symbols of a tree -/

variable {name : UInt32 → String} {table : List String} {e : Expr} {levels : Nat}

/-- The place of a name in a table, as an ordinal. -/
def placeIn (table : List String) (name : UInt32 → String) (ordinal : UInt32) : UInt32 :=
  (table.idxOf (name ordinal)).toUInt32

theorem symbol_decimal {value : Int64} (h : 0 ≤ value) :
    Lexeme.symbol table (.digits, (decimal value).toList) = ⟨.number, .const value⟩ := by
  show (⟨.number, .const (Int64.ofNat (decimalValue (decimal value).toList))⟩ : Symbol) = _
  rw [toList_decimal h, decimalValue_toDigits, Int64.ofNat_toNatClampNeg value h]

theorem readable_decimal {value : Int64} (h : 0 ≤ value) :
    Lexeme.Readable (.digits, (decimal value).toList) := by
  show decimalValue (decimal value).toList < integerBound
  rw [toList_decimal h, decimalValue_toDigits]
  exact value.toNatClampNeg_lt

theorem symbol_name {word : String} (h : isName word = true) :
    Lexeme.symbol table (.word, word.toList) =
      ⟨.identifier, .id (table.idxOf word).toUInt32⟩ := by
  have hreserved := (isName_iff.mp h).2
  simp only [Lexeme.symbol, String.ofList_toList, hreserved]

/-- Two operands with any operator between them. -/
theorem expression_of_operands {inside : Spelling} {w v : List Symbol} {symbol : Symbol}
    {op : BinaryOp} {l r : Expr} (hleft : Primary inside w l) (hop : op.kind = symbol.kind)
    (hright : Primary inside v r) : Expression inside (w ++ symbol :: v) (.binary op l r) := by
  rcases op.class_cases with hclass | hclass | hclass
  · exact .single (.single (.more (.single hleft) hop hclass hright))
  · exact .single (.more (.single (.single hleft)) hop hclass (.single hright))
  · exact .comparison (.single (.single hleft)) hop hclass (.single (.single hright))

/-- The symbols of a tree, by a table of names. -/
def Expr.symbols (table : List String) (name : UInt32 → String) (e : Expr) : List Symbol :=
  (e.lexemes name).map (Lexeme.symbol table)

theorem symbols_binary (op : BinaryOp) (l r : Expr) :
    (Expr.binary op l r).symbols table name =
      .plain .openParen :: ((l.symbols table name ++ .plain op.kind :: r.symbols table name) ++
        [.plain .closeParen]) := by
  simp only [Expr.symbols, Expr.lexemes, List.map_cons, List.map_append, List.map_nil,
    List.append_assoc, List.cons_append]
  rfl

/-- **The symbols of a tree spell it**, if it is not too high. By induction on the tree. -/
theorem primary_symbols (h : e.Printable name) :
    ∀ {levels : Nat}, e.height ≤ levels →
      Primary (inside levels) (e.symbols table name) (e.renamed (placeIn table name)) := by
  induction e with
  | const value =>
    intro levels _
    show Primary _ [Lexeme.symbol table (.digits, (decimal value).toList)] (.const value)
    rw [symbol_decimal h.nonneg]
    exact .leaf (.inl rfl)
  | id ordinal =>
    intro levels _
    show Primary _ [Lexeme.symbol table (.word, (name ordinal).toList)] _
    rw [symbol_name h.isName]
    exact .leaf (.inr rfl)
  | str => exact nomatch h.plain
  | binary op left right ihl ihr =>
    intro levels hheight
    have hmax : max left.height right.height + 1 ≤ levels := hheight
    obtain ⟨levels, rfl⟩ : ∃ k, levels = k + 1 := ⟨levels - 1, by omega⟩
    have hl := ihl h.left (show left.height ≤ levels by omega)
    have hr := ihr h.right (show right.height ≤ levels by omega)
    rw [symbols_binary]
    exact .parenthesised rfl (expression_of_operands hl rfl hr) rfl

/-! ### The names of a tree -/

theorem filterMap_name? (h : e.Printable name) :
    (e.lexemes name).filterMap Lexeme.name? = e.ordinals.map name := by
  induction e with
  | const => rfl
  | id ordinal =>
    have hreserved := (isName_iff.mp h.isName).2
    simp [Expr.lexemes, Lexeme.name?, hreserved, Expr.ordinals]
  | str => rfl
  | binary op left right ihl ihr =>
    rw [Expr.lexemes, List.filterMap_cons_none rfl, List.filterMap_append, ihl h.left,
      List.filterMap_cons_none rfl, List.filterMap_append, ihr h.right,
      List.filterMap_cons_none rfl, List.filterMap_nil, List.append_nil, Expr.ordinals,
      List.map_append]

/-- Different ordinals have different names. -/
abbrev InjectiveOn (ordinals : List UInt32) (name : UInt32 → String) : Prop :=
  ∀ m ∈ ordinals, ∀ n ∈ ordinals, name m = name n → m = n

/-- In the table of its own names a tree is renumbered. -/
theorem renamed_placeIn (hinjective : InjectiveOn e.ordinals name) :
    e.renamed (placeIn (e.ordinals.eraseDups.map name) name) = e.renumbered := by
  refine Expr.renamed_congr fun ordinal hmem => ?_
  unfold placeIn
  rw [idxOf_map_of_injective fun other hother => ?_]
  exact hinjective other (List.mem_eraseDups.mp hother) ordinal hmem

/-! ### The print statement of a tree -/

/-- The lexemes of the print statement of a tree. -/
def Expr.printedLexemes (name : UInt32 → String) (e : Expr) : List Lexeme :=
  (.word, "print".toList) :: .ofSign ['('] .openParen ::
    (e.lexemes name ++ [.ofSign [')'] .closeParen, .ofSign [';'] .semicolon])

/-- The print statement of a tree, with names in the place of its ordinals. -/
def Expr.printed (name : UInt32 → String) (e : Expr) : String :=
  "print(" ++ fillIn name e.display ++ ");"

theorem cut_printed (h : e.Printable name) :
    Cut (e.printed name).toList (e.printedLexemes name) := by
  have htext : (e.printed name).toList =
      "print".toList ++ '(' :: ((e.displayWith name).toList ++ [')', ';']) := by
    simp [Expr.printed, fillIn_display name h.plain]
  have hclass : Pattern.classify? ([';'] ++ []) = some (Lexeme.ofSign [';'] .semicolon) := rfl
  have hsemicolon : Cut [';'] [.ofSign [';'] .semicolon] := Cut.sign hclass (.finish .nil)
  have hclosing : isWordPart ')' = false := by decide
  have hopening : isWordPart '(' = false := by decide
  have hvalue := h.cut hsemicolon.closing hclosing
  have hword (rest : List Char) : Pattern.classify? ("print".toList ++ '(' :: rest) =
      some (.word, "print".toList) :=
    Pattern.classify?_of_isWord (by decide) hopening
  rw [htext]
  exact hvalue.opening.adjacent (hword _) nofun nofun

theorem readable_lexemes (h : e.Printable name) :
    ∀ lexeme ∈ e.lexemes name, lexeme.Readable := by
  induction e with
  | const value =>
    intro lexeme hmem
    obtain rfl := List.mem_singleton.mp hmem
    exact readable_decimal h.nonneg
  | id ordinal =>
    intro lexeme hmem
    obtain rfl := List.mem_singleton.mp hmem
    exact trivial
  | str => exact nomatch h.plain
  | binary op left right ihl ihr =>
    intro lexeme hmem
    simp only [Expr.lexemes, List.mem_cons, List.mem_append, List.not_mem_nil, or_false] at hmem
    rcases hmem with rfl | hmem | rfl | hmem | rfl
    · exact trivial
    · exact ihl h.left lexeme hmem
    · exact trivial
    · exact ihr h.right lexeme hmem
    · exact trivial

theorem readable_printed (h : e.Printable name) :
    ∀ lexeme ∈ e.printedLexemes name, lexeme.Readable := by
  intro lexeme hmem
  simp only [Expr.printedLexemes, List.mem_cons, List.mem_append, List.not_mem_nil,
    or_false] at hmem
  rcases hmem with rfl | rfl | hmem | rfl | rfl
  · exact trivial
  · exact trivial
  · exact readable_lexemes h lexeme hmem
  · exact trivial
  · exact trivial

theorem names_printed (h : e.Printable name) (hinjective : InjectiveOn e.ordinals name) :
    Lexeme.names (e.printedLexemes name) = e.ordinals.eraseDups.map name := by
  have hword : Lexeme.name? (.word, "print".toList) = none := by decide
  have hlexemes : (e.printedLexemes name).filterMap Lexeme.name? = e.ordinals.map name := by
    rw [Expr.printedLexemes, List.filterMap_cons_none hword, List.filterMap_cons_none rfl,
      List.filterMap_append, filterMap_name? h]
    exact List.append_nil _
  rw [← foldl_enter_map hinjective, ← hlexemes]
  rfl

theorem symbols_printed :
    Lexeme.symbols (e.printedLexemes name) = .plain .printWord :: .plain .openParen ::
      (e.symbols (Lexeme.names (e.printedLexemes name)) name ++
        [.plain .closeParen, .plain .semicolon]) := by
  unfold Lexeme.symbols
  rw [Expr.printedLexemes, List.map_cons, List.map_cons, List.map_append]
  rfl

/-- The print statement of a tree that is not too high spells it. -/
theorem sequence_printed (h : e.Printable name) (hinjective : InjectiveOn e.ordinals name)
    (hheight : e.height ≤ levels) :
    Sequence levels (Lexeme.symbols (e.printedLexemes name)) [.write e.renumbered] := by
  have hprimary : Primary (inside levels) (e.symbols (e.ordinals.eraseDups.map name) name)
      (e.renamed (placeIn (e.ordinals.eraseDups.map name) name)) :=
    primary_symbols h hheight
  rw [renamed_placeIn hinjective] at hprimary
  have hvalue : Value (inside levels) _ _ := .expression (.single (.single (.single hprimary)))
  have hsingle : Single levels (.plain .printWord :: .plain .openParen ::
      (e.symbols (e.ordinals.eraseDups.map name) name ++ [.plain .closeParen, .plain .semicolon]))
      (some (.write e.renumbered)) := .printing rfl rfl hvalue rfl rfl
  have hsequence := Sequence.cons hsingle .nil
  rw [List.append_nil] at hsequence
  rw [symbols_printed, names_printed h hinjective]
  exact hsequence

/-! ### Trees that are too high -/

section Halting

variable {σ : Type} [TokenStream σ] [LawfulTokenStream σ] {limit : Nat}

/-- Among the symbols of a tree that is too high, a parenthesis would open a level too many. By
induction on the tree. -/
theorem exists_halts (h : e.Printable name) :
    ∀ {levels d : Nat}, d + levels = limit → levels < e.height →
      ∃ w v, e.symbols table name = w ++ .plain .openParen :: v ∧
        (Symbol.kinds w).headD .openParen = .openParen ∧
        Halts (primary (Inner.whole (some limit) : Inner σ)) d w .openParen := by
  induction e with
  | const => exact fun _ hheight => absurd hheight (Nat.not_lt_zero _)
  | id => exact fun _ hheight => absurd hheight (Nat.not_lt_zero _)
  | str => exact nomatch h.plain
  | binary op left right ihl ihr =>
    intro levels d hd hheight
    have hmax : levels < max left.height right.height + 1 := hheight
    cases levels with
    | zero => exact ⟨[], _, symbols_binary op left right, rfl, halts_primary (by omega)⟩
    | succ levels =>
      -- the first operand that is too high for the levels further in is the one that halts
      by_cases hlow : left.height ≤ levels
      · obtain ⟨w, v, hsymbols, -, hhalts⟩ := ihr h.right
          (show d + 1 + levels = limit by omega) (by omega)
        have hprimary : Primary (inside levels) (left.symbols table name) _ :=
          primary_symbols h.left hlow
        have hop : op.kind = (Symbol.plain op.kind).kind := rfl
        have hexpression := halts_expression (innerYields levels (d + 1) (by omega)) hprimary hop
          hhalts
        refine ⟨.plain .openParen :: (left.symbols table name ++ .plain op.kind :: w),
          v ++ [.plain .closeParen], ?_, rfl, hexpression.parenthesised (by omega) rfl⟩
        rw [symbols_binary, hsymbols]
        simp only [List.cons_append, List.append_assoc]
      · obtain ⟨w, v, hsymbols, -, hhalts⟩ := ihl h.left
          (show d + 1 + levels = limit by omega) (by omega)
        refine ⟨.plain .openParen :: w,
          v ++ (.plain op.kind :: right.symbols table name ++ [.plain .closeParen]), ?_, rfl,
          hhalts.term.arithmetic.expression.parenthesised (by omega) rfl⟩
        rw [symbols_binary, hsymbols]
        simp only [List.cons_append, List.append_assoc]

end Halting

/-- The parser stops in the print statement of a tree that is too high. -/
theorem parse_printed_of_high (h : e.Printable name) (hheight : maxDepth < e.height)
    (file : String) :
    ∃ fault, parse (e.printed name) file = .error fault ∧ fault.cause = .unexpected [] := by
  obtain ⟨kind, start, stop, rest, hfirst, htrail, -⟩ :=
    (cut_printed h).exists_trail (readable_printed h) file
  obtain ⟨w, v, hsymbols, hhead, hhalts⟩ := @exists_halts name
    (Lexeme.names (e.printedLexemes name)) e Lexer _ _ maxDepth h maxDepth 0
    (Nat.zero_add _) hheight
  -- a tree that is too high has an operator, and so a parenthesis stands where a text might stand
  have hprinting := hhalts.term.arithmetic.expression.printing
    (rfl : (Symbol.plain .printWord).kind = _) (rfl : (Symbol.plain .openParen).kind = _)
    (by rw [hhead]; decide)
  have hprogram : Halts (afterFirst : Rule Lexer Program) 0
      (.plain .printWord :: .plain .openParen :: w) .openParen := hprinting.afterFirst rfl
  have hcut : Lexeme.symbols (e.printedLexemes name) =
      (.plain .printWord :: .plain .openParen :: w) ++
        .plain .openParen :: (v ++ [.plain .closeParen, .plain .semicolon]) := by
    rw [symbols_printed, hsymbols]
    simp only [List.cons_append, List.append_assoc]
  rw [hcut] at htrail
  obtain ⟨fault, rest, hparse, hcause⟩ := parse_of_halts hfirst htrail hprogram
  unfold parse
  rw [hparse]
  exact ⟨fault, rfl, hcause⟩

/-- **What is printed is read back**, with the ordinals in the order in which they appear, unless
the tree is too high; then the parser stops with nothing to expect. -/
theorem parse_printed (h : e.isPlain = true)
    (hnames : ∀ ordinal ∈ e.ordinals, isName (name ordinal) = true)
    (hinjective : InjectiveOn e.ordinals name) (file : String) :
    (e.height ≤ 256 →
      parse ("print(" ++ fillIn name e.display ++ ");") file = .ok ⟨[.write e.renumbered]⟩) ∧
    (256 < e.height →
      ∃ fault, parse ("print(" ++ fillIn name e.display ++ ");") file = .error fault ∧
        fault.cause = .unexpected []) := by
  have hprintable : e.Printable name := ⟨h, hnames⟩
  refine ⟨fun hheight => ?_, fun hheight => parse_printed_of_high hprintable hheight file⟩
  exact (cut_printed hprintable).parse_of_sequence (readable_printed hprintable)
    (sequence_printed hprintable hinjective hheight) file

/-- A tree with so many additions within one another. -/
def Expr.tower : Nat → Expr
  | 0 => const 1
  | count + 1 => binary .add (tower count) (const 1)

theorem Expr.ordinals_tower (count : Nat) : (tower count).ordinals = [] := by
  induction count with
  | zero => rfl
  | succ count ih => exact List.append_eq_nil_iff.mpr ⟨ih, rfl⟩

/-- The ordinals of a tree are given anew, and a tower of more than 256 additions is refused. -/
theorem printed_twice :
    parse ("print(" ++ fillIn (fun ordinal => if ordinal = 7 then "x" else "y")
        (Expr.binary .less (.binary .sub (.id 7) (.const 12))
          (.binary .mul (.id 2) (.id 7))).display ++ ");") "shell" =
      .ok ⟨[.write (.binary .less (.binary .sub (.id 0) (.const 12))
        (.binary .mul (.id 1) (.id 0)))]⟩ ∧
    ∃ fault, parse ("print(" ++ fillIn (fun _ => "x") (Expr.tower 257).display ++ ");") "shell" =
      .error fault ∧ fault.cause = .unexpected [] :=
  ⟨(parse_printed (by decide) (List.all_eq_true.mp (by decide))
      (by simp [Expr.ordinals, InjectiveOn]) "shell").1 (by decide),
    (parse_printed (by decide +kernel) (by simp [Expr.ordinals_tower])
      (by simp [Expr.ordinals_tower, InjectiveOn]) "shell").2 (by decide +kernel)⟩

end ScriptFront
