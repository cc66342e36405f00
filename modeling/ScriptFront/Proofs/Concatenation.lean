import ScriptFront.Proofs.Renaming
import ScriptFront.Proofs.Sources

/-!
# ScriptFront.Proofs.Concatenation

**Programs that stand behind one another are one program.** With a newline between them two sources
are cut where each of them is, so that their symbols stand behind one another. Only the ordinals of
the second are others now: its names come behind those of the first, unless they are among these.
-/

namespace ScriptFront

open Grammar Text

/-! ### Tables behind one another -/

/-- The names of a table, and behind them those of another that are not among them. -/
def joinedNames (names more : List String) : List String :=
  names ++ more.filter (· ∉ names)

theorem enter_joinedNames (names more : List String) (name : String) :
    enter (joinedNames names more) name = joinedNames names (enter more name) := by
  unfold enter joinedNames
  by_cases hnames : name ∈ names <;> by_cases hmore : name ∈ more <;> simp [hnames, hmore]

/-- Names that are entered into a table come behind those that are there. By induction on the names,
from the last one backwards. -/
theorem foldl_enter (names table : List String) :
    names.foldl enter table = joinedNames table (names.foldl enter []) := by
  induction names using List.reverseRecOn with
  | nil => simp [joinedNames]
  | append_singleton names name ih =>
    rw [List.foldl_append, List.foldl_append, ih]
    exact enter_joinedNames table _ name

theorem length_foldl_enter_le (names : List String) :
    ∀ table : List String, (names.foldl enter table).length ≤ table.length + names.length := by
  induction names with
  | nil => simp
  | cons name names ih =>
    intro table
    have hfirst := length_enter_le table name
    have hlater := ih (enter table name)
    rw [List.foldl_cons, List.length_cons]
    omega

theorem mem_foldl_enter {names : List String} {name : String} (h : name ∈ names) :
    ∀ table : List String, name ∈ names.foldl enter table := by
  induction names with
  | nil => exact absurd h List.not_mem_nil
  | cons first names ih =>
    intro table
    rcases List.mem_cons.mp h with rfl | h
    · exact (Lexeme.prefix_foldl_enter names _).mem (mem_enter table name)
    · exact ih h _

namespace Lexeme

variable {lexeme : Lexeme} {lexemes more : List Lexeme} {table table' : List String}
  {name : String}

theorem names_append (lexemes more : List Lexeme) :
    names (lexemes ++ more) = joinedNames (names lexemes) (names more) := by
  unfold names
  rw [tableFrom_append]
  exact foldl_enter _ _

theorem mem_names (hmem : lexeme ∈ lexemes) (hname : name? lexeme = some name) :
    name ∈ names lexemes :=
  mem_foldl_enter (List.mem_filterMap.mpr ⟨lexeme, hmem, hname⟩) []

theorem length_names_le (lexemes : List Lexeme) : (names lexemes).length ≤ lexemes.length := by
  have hnames := length_foldl_enter_le (lexemes.filterMap name?) []
  have hfilter := List.length_filterMap_le name? lexemes
  rw [List.length_nil, Nat.zero_add] at hnames
  exact hnames.trans hfilter

/-! ### Symbols by another table -/

/-- The only ordinal of the symbol of a lexeme is that of its name. -/
theorem ordinals_symbol (table : List String) (lexeme : Lexeme) :
    (symbol table lexeme).leaf.ordinals =
      (name? lexeme).toList.map fun name => (table.idxOf name).toUInt32 := by
  obtain ⟨pattern, text⟩ := lexeme
  cases pattern with
  | word => cases h : Kind.ofReserved? (String.ofList text) <;> simp [symbol, name?, h] <;> rfl
  | _ => rfl

/-- A table that gives each name the place that it should have gives the symbol with these. -/
theorem renamed_symbol {f : UInt32 → UInt32}
    (h : ∀ name ∈ name? lexeme, f (table.idxOf name).toUInt32 = (table'.idxOf name).toUInt32) :
    (symbol table lexeme).renamed f = symbol table' lexeme := by
  obtain ⟨pattern, text⟩ := lexeme
  cases pattern with
  | word =>
    cases hreserved : Kind.ofReserved? (String.ofList text) with
    | some kind =>
      simp [symbol, hreserved, Symbol.renamed, Symbol.plain, Symbol.noLeaf, Expr.renamed]
    | none =>
      have hname := h (String.ofList text) (by simp [name?, hreserved])
      simp [symbol, hreserved, Symbol.renamed, Expr.renamed, hname]
  | _ => rfl

end Lexeme

/-- Each lexeme takes at least one character. -/
theorem Cut.length_le {text : List Char} {lexemes : List Lexeme} (hcut : Cut text lexemes) :
    lexemes.length ≤ text.length := by
  induction hcut with
  | finish => exact Nat.zero_le _
  | @lexeme gap rest lexeme lexemes _ hclass _ _ _ ih =>
    have hpos := List.length_pos_iff.mpr (Pattern.ne_nil_of_classify? hclass)
    simp only [List.length_append, List.length_cons]
    omega

/-- A source that is not too long has no more names than ordinals can tell. -/
theorem Cut.length_names_lt {source : String} {lexemes : List Lexeme}
    (hcut : Cut source.toList lexemes) (hsize : source.utf8ByteSize < 2 ^ 32) :
    (Lexeme.names lexemes).length < 2 ^ 32 := by
  have hnames := Lexeme.length_names_le lexemes
  have hcount := hcut.length_le
  have hbytes := length_le_byteSize source.toList
  rw [utf8ByteSize_eq] at hsize
  omega

/-! ### Ordinals behind one another -/

/-- The name that has the first ordinal in the first table has the second ordinal as its place in
the second table. -/
def Reindexes (names names' : List String) (ordinal ordinal' : UInt32) : Prop :=
  ∃ name, names[ordinal.toNat]? = some name ∧ names'.idxOf? name = some ordinal'.toNat

/-- The ordinal in a table of the name that has a given ordinal in another. -/
def reindexed (names names' : List String) (ordinal : UInt32) : UInt32 :=
  (names'.idxOf (names.getD ordinal.toNat "")).toUInt32

section

variable {names names' : List String} {name : String}

theorem reindexed_ordinal (hmem : name ∈ names) (hlength : names.length < 2 ^ 32) :
    reindexed names names' (names.idxOf name).toUInt32 = (names'.idxOf name).toUInt32 := by
  unfold reindexed
  rw [List.getD_eq_getElem?_getD, getElem?_ordinal hmem hlength.le, Option.getD_some]

theorem reindexes_ordinal (hmem : name ∈ names) (hlength : names.length < 2 ^ 32)
    (hmem' : name ∈ names') (hlength' : names'.length < 2 ^ 32) :
    Reindexes names names' (names.idxOf name).toUInt32
      (reindexed names names' (names.idxOf name).toUInt32) := by
  have hplace := List.idxOf_lt_length_of_mem hmem'
  refine ⟨name, getElem?_ordinal hmem hlength.le, ?_⟩
  rw [reindexed_ordinal hmem hlength, toNat_toUInt32 (hplace.trans hlength')]
  exact idxOf?_of_mem hmem'

end

namespace Lexeme

variable {l m : List Lexeme}

/-- Every ordinal of the symbols is that of a name. -/
theorem exists_name_of_ordinal {ordinal : UInt32} (h : ordinal ∈ Symbol.ordinals (symbols m)) :
    ∃ name ∈ names m, ((names m).idxOf name).toUInt32 = ordinal := by
  obtain ⟨symbol, hsymbol, hordinal⟩ := List.mem_flatMap.mp h
  obtain ⟨lexeme, hlexeme, rfl⟩ := List.mem_map.mp hsymbol
  rw [ordinals_symbol] at hordinal
  obtain ⟨name, hname, rfl⟩ := List.mem_map.mp hordinal
  exact ⟨name, mem_names hlexeme (Option.mem_toList.mp hname), rfl⟩

theorem mem_names_append (l : List Lexeme) {name : String} (h : name ∈ names m) :
    name ∈ names (l ++ m) := by
  rw [names_append]
  unfold joinedNames
  by_cases hmem : name ∈ names l <;> simp [h, hmem]

/-- Behind other lexemes the symbols are the same but for the ordinals. -/
theorem symbols_append (l : List Lexeme) (hlength : (names m).length < 2 ^ 32) :
    symbols (l ++ m) =
      symbols l ++ (symbols m).map (Symbol.renamed (reindexed (names m) (names (l ++ m)))) := by
  have hfirst : ∀ lexeme ∈ l, symbol (names (l ++ m)) lexeme = symbol (names l) lexeme := by
    intro lexeme hmem
    rw [← Symbol.renamed_self (symbol (names l) lexeme)]
    refine (renamed_symbol fun name hname => ?_).symm
    rw [names_append, joinedNames, List.idxOf_append_of_mem (mem_names hmem hname)]
  have hsecond : ∀ lexeme ∈ m, symbol (names (l ++ m)) lexeme =
      (symbol (names m) lexeme).renamed (reindexed (names m) (names (l ++ m))) := by
    intro lexeme hmem
    refine (renamed_symbol fun name hname => ?_).symm
    exact reindexed_ordinal (mem_names hmem hname) hlength
  unfold symbols
  rw [List.map_append, List.map_map, List.map_congr_left hfirst, List.map_congr_left hsecond]
  rfl

end Lexeme

/-- **Programs that stand behind one another are one program.** The statements of the first come
first, as they were; then come those of the second, with each identifier at the place of its name
among the names of both. -/
theorem parse_concatenation {a b fileA fileB : String} (file : String) {p q : Program}
    (hsize : (a ++ "\n" ++ b).utf8ByteSize < 2 ^ 32 - 1) (ha : parse a fileA = .ok p)
    (hb : parse b fileB = .ok q) :
    ∃ f : UInt32 → UInt32,
      (∀ statement ∈ q.statements, ∀ ordinal ∈ statement.value.ordinals,
        Reindexes (namesOf b fileB) (joinedNames (namesOf a fileA) (namesOf b fileB)) ordinal
          (f ordinal)) ∧
      parse (a ++ "\n" ++ b) file =
        .ok ⟨p.statements ++ q.statements.map (Statement.renamed f)⟩ ∧
      namesOf (a ++ "\n" ++ b) file = joinedNames (namesOf a fileA) (namesOf b fileB) := by
  have htotal : (a ++ "\n" ++ b).utf8ByteSize = a.utf8ByteSize + 1 + b.utf8ByteSize := by
    rw [String.utf8ByteSize_append, String.utf8ByteSize_append]
    rfl
  obtain ⟨l, hcutA, hreadA⟩ := exists_cut_of_parse (by omega) ha
  obtain ⟨m, hcutB, hreadB⟩ := exists_cut_of_parse (by omega) hb
  have hspelledA := hcutA.sequence_of_parse hreadA ha
  have hspelledB := hcutB.sequence_of_parse hreadB hb
  have hcut : Cut (a ++ "\n" ++ b).toList (l ++ m) := by
    have hbehind := hcutA.append hcutB
    simpa using hbehind
  have hread : ∀ lexeme ∈ l ++ m, lexeme.Readable := by
    intro lexeme hmem
    exact (List.mem_append.mp hmem).elim (hreadA lexeme) (hreadB lexeme)
  -- no table is so long that two of its names would have one ordinal
  have hnamesA := hcutA.length_names_lt (by omega)
  have hnamesB := hcutB.length_names_lt (by omega)
  have hnames := hcut.length_names_lt (by omega)
  rw [hcutA.namesOf_of_sequence hreadA hspelledA hnamesA fileA,
    hcutB.namesOf_of_sequence hreadB hspelledB hnamesB fileB, ← Lexeme.names_append]
  have hspelled : Spelling.Sequence maxDepth (Lexeme.symbols (l ++ m))
      (p.statements ++ q.statements.map
        (Statement.renamed (reindexed (Lexeme.names m) (Lexeme.names (l ++ m))))) := by
    rw [Lexeme.symbols_append l hnamesB]
    exact hspelledA.append (hspelledB.renamed _)
  refine ⟨_, fun statement hmem ordinal hordinal => ?_,
    hcut.parse_of_sequence hread hspelled file,
    hcut.namesOf_of_sequence hread hspelled hnames file⟩
  obtain ⟨name, hname, rfl⟩ :=
    Lexeme.exists_name_of_ordinal (hspelledB.ordinals_subset statement hmem hordinal)
  exact reindexes_ordinal hname hnamesB (Lexeme.mem_names_append l hname) hnames

/-- Behind another source `x` keeps the second place, which it has there too, and `z` comes to the
third. -/
theorem two_sources_concatenate :
    ∃ f : UInt32 → UInt32, f 1 = 1 ∧ f 0 = 2 ∧
      parse "var y = 1; print(x); // x" "a" = .ok ⟨[.write (.id 1)]⟩ ∧
      parse "z = 2; print(x * z);" "b" = .ok ⟨[.write (.binary .mul (.id 1) (.id 0))]⟩ ∧
      parse ("var y = 1; print(x); // x" ++ "\n" ++ "z = 2; print(x * z);") "c" =
        .ok ⟨[.write (.id 1), .write (.binary .mul (.id (f 1)) (.id (f 0)))]⟩ := by
  have ha : parse "var y = 1; print(x); // x" "a" = .ok ⟨[.write (.id 1)]⟩ := by decide +kernel
  have hb : parse "z = 2; print(x * z);" "b" =
      .ok ⟨[.write (.binary .mul (.id 1) (.id 0))]⟩ := by decide +kernel
  have hnamesA : namesOf "var y = 1; print(x); // x" "a" = ["y", "x"] := by decide +kernel
  have hnamesB : namesOf "z = 2; print(x * z);" "b" = ["z", "x"] := by decide +kernel
  obtain ⟨f, hordinals, hparse, -⟩ := parse_concatenation "c" (by decide) ha hb
  rw [hnamesA, hnamesB] at hordinals
  obtain ⟨x, hx, hplace⟩ := hordinals _ List.mem_cons_self 1 (by decide)
  obtain ⟨z, hz, hplace'⟩ := hordinals _ List.mem_cons_self 0 (by decide)
  obtain rfl : "x" = x := Option.some.inj hx
  obtain rfl : "z" = z := Option.some.inj hz
  have htable : (joinedNames ["y", "x"] ["z", "x"]).idxOf? "x" = some 1 ∧
      (joinedNames ["y", "x"] ["z", "x"]).idxOf? "z" = some 2 := by decide
  rw [htable.1] at hplace
  rw [htable.2] at hplace'
  exact ⟨f, UInt32.toNat_inj.mp (Option.some.inj hplace).symm,
    UInt32.toNat_inj.mp (Option.some.inj hplace').symm, ha, hb, hparse⟩

end ScriptFront
