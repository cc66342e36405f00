import ScriptFront.Grammar.Session
import ScriptFront.Proofs.Noting

/-!
# ScriptFront.Proofs.Correspondence

**Only the pattern of the identifiers matters.** Two sources have corresponding tokens if these are
of the same kinds, numbers have the same values, texts are the same, and the identifiers of one are
those of the other under other names. Layout, leading zeros and the names themselves leave no trace:
the two are parsed to the same program, or refused at corresponding tokens where the same kinds are
expected (`parse_of_renamed`).
-/

namespace ScriptFront

open Grammar

/-! ### Corresponding tokens -/

/-- A token that corresponds to another one, if identifiers are renamed. -/
structure Token.Renamed (rename : String → String) (token token' : Token) : Prop where
  kind : token.kind = token'.kind
  number : token.kind = .number →
    decimalValue token.text.toList = decimalValue token'.text.toList
  string : token.kind = .string → token.text = token'.text
  identifier : token.kind = .identifier → rename token.text = token'.text

/-- The parse of a source stops at the token with an index in a list, where some other kinds are
expected: the fault is about that token, and the lexer has read it last, with those behind it still
to read. -/
def RefusedAt (source file : String) (tokens : List Token) (index : Nat)
    (expected : List Kind) : Prop :=
  ∃ token location, tokens[index]? = some token ∧
    parse source file =
      .error ⟨.unexpected expected, token.text, token.span.start, location⟩ ∧
    (stateAfter (parseStream (Lexer.ofSource source file))).At tokens index

section

variable {rename : String → String} {tokens tokens' : List Token} {index : Nat}

/-- The names of corresponding tokens are the names of the others, renamed. -/
theorem filterMap_name?_of_renamed (h : List.Forall₂ (Token.Renamed rename) tokens tokens') :
    tokens'.filterMap Token.name? = (tokens.filterMap Token.name?).map rename := by
  induction h with
  | nil => rfl
  | @cons token token' _ _ hfirst _ ih =>
    by_cases hkind : token.kind = .identifier
    · have hname : token.name? = some token.text := if_pos hkind
      have hname' : token'.name? = some (rename token.text) := by
        rw [hfirst.identifier hkind]
        exact if_pos (hfirst.kind ▸ hkind)
      rw [List.filterMap_cons_some hname, List.filterMap_cons_some hname', List.map_cons, ih]
    · have hname : token.name? = none := if_neg hkind
      have hname' : token'.name? = none := if_neg (hfirst.kind ▸ hkind)
      rw [List.filterMap_cons_none hname, List.filterMap_cons_none hname', ih]

/-- Different identifiers of some tokens are renamed to different names. -/
def RenamesApart (rename : String → String) (tokens : List Token) : Prop :=
  ∀ m ∈ tokens.filterMap Token.name?, ∀ n ∈ tokens.filterMap Token.name?,
    rename m = rename n → m = n

theorem names_of_renamed (h : List.Forall₂ (Token.Renamed rename) tokens tokens')
    (hapart : RenamesApart rename tokens) :
    Token.names tokens' = (Token.names tokens).map rename := by
  unfold Token.names
  rw [filterMap_name?_of_renamed h, ← foldl_enter_eq, foldl_enter_map hapart]

end

/-! ### Two parsers abreast -/

/-- Two parsers have the tokens at one index of two lists in view. -/
structure Abreast (tokens tokens' : List Token) (index : Nat) (p q : Parser Lexer) : Prop where
  left : p.stream.At tokens index
  right : q.stream.At tokens' index
  lookahead_left : p.lookahead = p.stream.current.kind
  lookahead_right : q.lookahead = q.stream.current.kind
  depth : p.depth = q.depth

section

variable {rename : String → String} {tokens tokens' : List Token} {index : Nat}
  {p q : Parser Lexer} {expected : List Kind}

theorem mem_names_of_mem {token : Token} (hmem : token ∈ tokens)
    (hkind : token.kind = .identifier) : token.text ∈ tokens.filterMap Token.name? :=
  List.mem_filterMap.mpr ⟨token, hmem, if_pos hkind⟩

theorem Abreast.renamed (habreast : Abreast tokens tokens' index p q)
    (h : List.Forall₂ (Token.Renamed rename) tokens tokens') :
    Token.Renamed rename p.stream.current q.stream.current := by
  obtain ⟨hleft, hcurrent⟩ := List.getElem?_eq_some_iff.mp habreast.left.current
  obtain ⟨hright, hcurrent'⟩ := List.getElem?_eq_some_iff.mp habreast.right.current
  rw [← hcurrent, ← hcurrent']
  exact h.get hleft hright

/-- **Identifiers have the same ordinals on both sides**, since the tables are the same but for the
names in them. -/
theorem Abreast.ordinal_eq (habreast : Abreast tokens tokens' index p q)
    (h : List.Forall₂ (Token.Renamed rename) tokens tokens')
    (hapart : RenamesApart rename tokens) (hkind : p.stream.current.kind = .identifier) :
    p.stream.ordinal = q.stream.ordinal := by
  have hrenamed := habreast.renamed h
  have htake : (tokens.take (index + 1)).filterMap Token.name? ⊆ tokens.filterMap Token.name? :=
    ((List.take_sublist _ _).filterMap _).subset
  have hnames : Token.names (tokens'.take (index + 1)) =
      (Token.names (tokens.take (index + 1))).map rename :=
    names_of_renamed (List.forall₂_take _ h) fun m hm n hn =>
      hapart m (htake hm) n (htake hn)
  have htext := mem_names_of_mem (List.mem_of_getElem? habreast.left.current) hkind
  have hleft := habreast.left.ordinal hkind
  have hright := habreast.right.ordinal (hrenamed.kind ▸ hkind)
  rw [habreast.left.numbers.eq_of_find? hleft, habreast.right.numbers.eq_of_find? hright, hnames,
    ← hrenamed.identifier hkind, idxOf_map_of_injective fun name hname heq => ?_]
  exact hapart name (htake (List.mem_eraseDups.mp hname)) _ htext heq

/-- One token keeps two parsers abreast. -/
theorem together_advance (hbefore : p.stream.Before tokens index)
    (hbefore' : q.stream.Before tokens' index) (hdepth : p.depth = q.depth)
    {fault : Diagnostic → Diagnostic → Parser Lexer → Parser Lexer → Prop} :
    Together (fun _ _ p' q' => Abreast tokens tokens' index p' q') fault (Rule.advance p)
      (Rule.advance q) := by
  obtain ⟨next, hadvance, hat⟩ := hbefore.advance
  obtain ⟨next', hadvance', hat'⟩ := hbefore'.advance
  rw [Rule.advance_of_ok hadvance, Rule.advance_of_ok hadvance']
  exact ⟨hat, hat', rfl, rfl, hdepth⟩

/-- Two parsers abreast stop at the tokens in view, where they expect the same. -/
def Stopped (tokens tokens' : List Token) (e f : Diagnostic) (p q : Parser Lexer) : Prop :=
  ∃ index expected, Abreast tokens tokens' index p q ∧ e = p.unexpected expected ∧
    f = q.unexpected expected

/-- **Rules keep two parsers abreast**, and what they take from the tokens is the same. -/
theorem simulation_abreast (h : List.Forall₂ (Token.Renamed rename) tokens tokens')
    (hapart : RenamesApart rename tokens) (limit : Option Nat) :
    Simulation Eq limit limit (fun _ p q => ∃ index, Abreast tokens tokens' index p q)
      (fun _ e f p q => Stopped tokens tokens' e f p q) where
  lookahead := by
    rintro _ p q ⟨index, habreast⟩
    rw [habreast.lookahead_left, habreast.lookahead_right]
    exact (habreast.renamed h).kind
  advance := by
    rintro _ p q ⟨index, habreast⟩ hkind
    rw [habreast.lookahead_left] at hkind
    have hbefore := habreast.left.before hkind
    have hbefore' := habreast.right.before ((habreast.renamed h).kind ▸ hkind)
    exact (together_advance hbefore hbefore' habreast.depth).imp
      (fun _ _ _ _ hnext => ⟨_, hnext⟩) fun _ _ _ _ hfault => hfault
  unexpected := by
    rintro _ p q expected ⟨index, habreast⟩ -
    exact ⟨index, expected, habreast, rfl, rfl⟩
  refusal := by
    rintro _ p q ⟨index, habreast⟩
    rw [habreast.depth]
  enter := by
    rintro _ p q ⟨index, habreast⟩ -
    exact ⟨index, habreast.left, habreast.right, habreast.lookahead_left,
      habreast.lookahead_right, congrArg (· + 1) habreast.depth⟩
  leave := by
    rintro _ p q ⟨index, habreast⟩
    exact ⟨index, habreast.left, habreast.right, habreast.lookahead_left,
      habreast.lookahead_right, congrArg (· - 1) habreast.depth⟩
  leave_fault := by
    rintro _ e f p q ⟨index, expected, habreast, rfl, rfl⟩
    exact ⟨index, expected, ⟨habreast.left, habreast.right, habreast.lookahead_left,
      habreast.lookahead_right, congrArg (· - 1) habreast.depth⟩, rfl, rfl⟩
  integer := by
    rintro _ p q ⟨index, habreast⟩ hkind
    rw [habreast.lookahead_left] at hkind
    have hrenamed := habreast.renamed h
    show Expr.const p.stream.intValue = .const q.stream.intValue
    rw [habreast.left.integer hkind, habreast.right.integer (hrenamed.kind ▸ hkind),
      hrenamed.number hkind]
  identifier := by
    rintro _ p q ⟨index, habreast⟩ hkind
    rw [habreast.lookahead_left] at hkind
    exact congrArg Expr.id (habreast.ordinal_eq h hapart hkind)
  text := by
    rintro _ p q ⟨index, habreast⟩ hkind
    rw [habreast.lookahead_left] at hkind
    have hrenamed := habreast.renamed h
    show Expr.str p.stream.stringValue = .str q.stream.stringValue
    rw [habreast.left.text hkind, habreast.right.text (hrenamed.kind ▸ hkind),
      hrenamed.string hkind]

end

/-! ### Two parses -/

section

variable {rename : String → String} {tokens tokens' : List Token} {index : Nat}
  {p q : Parser Lexer} {source file source' file' : String}

/-- The parses of two sources with corresponding tokens. -/
theorem together_programs (htokens : tokenize source file = .ok tokens)
    (htokens' : tokenize source' file' = .ok tokens')
    (h : List.Forall₂ (Token.Renamed rename) tokens tokens')
    (hapart : RenamesApart rename tokens) :
    Together (fun a b _ _ => Retained Eq a.statements b.statements ∧ True)
      (fun e f p q => Stopped tokens tokens' e f p q)
      (Grammar.program (some maxDepth) { stream := Lexer.ofSource source file })
      (Grammar.program (some maxDepth) { stream := Lexer.ofSource source' file' }) := by
  refine (simulation_abreast h hapart (some maxDepth)).program compositional_eq ?_ ?_
  · have hfirst := @together_advance _ _ 0 ⟨_, .eof, 0, 0⟩ ⟨_, .eof, 0, 0⟩
      (Lexer.before_ofSource htokens) (Lexer.before_ofSource htokens') rfl (Stopped tokens tokens')
    exact hfirst.imp (fun _ _ _ _ habreast => ⟨0, habreast⟩) fun _ _ _ _ hfault => hfault
  · rintro p q ⟨index, habreast⟩ hkind
    -- behind the end both find the end again
    rw [habreast.lookahead_left] at hkind
    have hlast := Lexer.advance_of_nil (habreast.left.ending hkind)
    have hlast' := Lexer.advance_of_nil
      (habreast.right.ending ((habreast.renamed h).kind ▸ hkind))
    rw [Rule.advance_of_ok hlast, Rule.advance_of_ok hlast']
    trivial

/-- **Only the pattern of the identifiers matters.** Two sources with corresponding tokens are
parsed to the same program, or they are refused at corresponding tokens, where the same kinds are
expected. -/
theorem parse_of_renamed (htokens : tokenize source file = .ok tokens)
    (htokens' : tokenize source' file' = .ok tokens')
    (h : List.Forall₂ (Token.Renamed rename) tokens tokens')
    (hapart : RenamesApart rename tokens) :
    (∃ program, parse source file = .ok program ∧ parse source' file' = .ok program) ∨
      ∃ index expected, RefusedAt source file tokens index expected ∧
        RefusedAt source' file' tokens' index expected := by
  have htogether := together_programs htokens htokens' h hapart
  unfold RefusedAt parse parseStream
  cases hrun : Grammar.program (some maxDepth) { stream := Lexer.ofSource source file } <;>
    cases hrun' : Grammar.program (some maxDepth) { stream := Lexer.ofSource source' file' } <;>
    rw [hrun, hrun'] at htogether
  · next program _ program' _ =>
    obtain ⟨hretained, -⟩ := htogether
    have hsame : program = program' := congrArg Program.mk (eq_of_retained hretained)
    exact .inl ⟨program, rfl, hsame ▸ rfl⟩
  · exact False.elim htogether
  · exact False.elim htogether
  · obtain ⟨index, expected, habreast, rfl, rfl⟩ := htogether
    exact .inr ⟨index, expected, ⟨_, _, habreast.left.current, rfl, habreast.left⟩,
      ⟨_, _, habreast.right.current, rfl, habreast.right⟩⟩

end

/-- A missing parenthesis behind a number is missed at the same token whatever comes before the
number, and however the number is written. -/
theorem missing_parenthesis_corresponds :
    ∃ tokens tokens', tokenize "print(x 07" "shell" = .ok tokens ∧
      tokenize "print // x\n ( y7 7" "other" = .ok tokens' ∧
      ∃ index expected, RefusedAt "print(x 07" "shell" tokens index expected ∧
        RefusedAt "print // x\n ( y7 7" "other" tokens' index expected := by
  have htokens : tokenize "print(x 07" "shell" = .ok
      [⟨.printWord, "print", ⟨⟨0, "shell"⟩, ⟨5, "shell"⟩⟩⟩,
       ⟨.openParen, "(", ⟨⟨5, "shell"⟩, ⟨6, "shell"⟩⟩⟩,
       ⟨.identifier, "x", ⟨⟨6, "shell"⟩, ⟨7, "shell"⟩⟩⟩,
       ⟨.number, "07", ⟨⟨8, "shell"⟩, ⟨10, "shell"⟩⟩⟩, .eof ⟨10, "shell"⟩] := by
    decide +kernel
  have htokens' : tokenize "print // x\n ( y7 7" "other" = .ok
      [⟨.printWord, "print", ⟨⟨0, "other"⟩, ⟨5, "other"⟩⟩⟩,
       ⟨.openParen, "(", ⟨⟨12, "other"⟩, ⟨13, "other"⟩⟩⟩,
       ⟨.identifier, "y7", ⟨⟨14, "other"⟩, ⟨16, "other"⟩⟩⟩,
       ⟨.number, "7", ⟨⟨17, "other"⟩, ⟨18, "other"⟩⟩⟩, .eof ⟨18, "other"⟩] := by
    decide +kernel
  refine ⟨_, _, htokens, htokens', ?_⟩
  refine (@parse_of_renamed (fun _ => "y7") _ _ _ _ _ _ htokens htokens' ?_ ?_).resolve_left ?_
  · exact .cons ⟨rfl, nofun, nofun, nofun⟩ (.cons ⟨rfl, nofun, nofun, nofun⟩
      (.cons ⟨rfl, nofun, nofun, fun _ => rfl⟩ (.cons ⟨rfl, fun _ => rfl, nofun, nofun⟩
        (.cons ⟨rfl, nofun, nofun, nofun⟩ .nil))))
  · unfold RenamesApart
    decide
  · rintro ⟨program, hparse, -⟩
    have hfault : parse "print(x 07" "shell" =
        .error ⟨.unexpected [.closeParen], "07", ⟨8, "shell"⟩, ⟨1, 0⟩⟩ := by
      decide +kernel
    rw [hfault] at hparse
    cases hparse

end ScriptFront
