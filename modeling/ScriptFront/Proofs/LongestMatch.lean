import ScriptFront.Proofs.Noting
import ScriptFront.Proofs.Outcomes

/-!
# ScriptFront.Proofs.LongestMatch

**The first pattern that matches takes the longest lexeme.** The table is tried in its order, but
the order only decides where a pattern that stands later would take less
(`Pattern.pairwise_outmatches`): no two patterns that match the same text take equally much, and so
there is one longest match, which is the first (`Pattern.firstMatch_iff`). A text is refused just
where no pattern can begin (`Pattern.classify?_eq_none_iff`).
-/

namespace ScriptFront

open Text (isWhiteSpace)

namespace Pattern

variable {pattern other : Pattern} {text lexeme : List Char} {c : Char} {cs : List Char}

/-! ### What a pattern takes -/

/-- The texts that a pattern describes. -/
def Admits : Pattern → List Char → Prop
  | blank, text => text ≠ [] ∧ ∀ c ∈ text, isWhiteSpace c = true
  | comment, text => ∃ body, text = '/' :: '/' :: body ∧ '\n' ∉ body
  | word, text => isWord text = true
  | digits, text => text ≠ [] ∧ ∀ c ∈ text, c.isDigit = true
  | quoted, text => ∃ body, text = '"' :: (body ++ ['"']) ∧ '"' ∉ body
  | sign spelling _, text => text = spelling

/-- The longest initial segment of a text among those that a pattern describes. -/
structure Takes (pattern : Pattern) (text lexeme : List Char) : Prop where
  isPrefix : lexeme <+: text
  admits : pattern.Admits lexeme
  longest : ∀ shorter, shorter <+: text → pattern.Admits shorter → shorter.length ≤ lexeme.length

theorem admits_of_lexeme? (h : pattern.lexeme? text = some lexeme) : pattern.Admits lexeme := by
  cases pattern with
  | blank | digits =>
    obtain ⟨rfl, hne⟩ := run?_eq_some.mp h
    exact ⟨hne, List.all_eq_true.mp List.all_takeWhile⟩
  | comment =>
    obtain ⟨rest, rfl, rfl⟩ := eq_of_comment h
    refine ⟨_, rfl, fun hmem => ?_⟩
    simpa using List.all_eq_true.mp List.all_takeWhile _ hmem
  | word => exact Lexer.isWord_of_lexeme? h
  | quoted => exact eq_of_quoted h
  | sign spelling kind =>
    simp only [lexeme?, Option.ite_none_right_eq_some, Option.some.injEq] at h
    exact h.2.symm

theorem run?_append {among : Char → Bool} (hne : lexeme ≠ [])
    (hall : ∀ c ∈ lexeme, among c = true) (rest : List Char) :
    run? among (lexeme ++ rest) = some (lexeme ++ rest.takeWhile among) :=
  run?_eq_some.mpr ⟨List.takeWhile_append_of_pos hall, List.append_ne_nil_of_left_ne_nil hne _⟩

/-- Where a pattern describes an initial segment, it takes that one or a longer one. -/
theorem exists_lexeme?_of_admits (h : pattern.Admits lexeme) (rest : List Char) :
    ∃ more, pattern.lexeme? (lexeme ++ rest) = some (lexeme ++ more) := by
  cases pattern with
  | blank | digits => exact ⟨_, run?_append h.1 h.2 rest⟩
  | comment =>
    obtain ⟨body, rfl, hbody⟩ := h
    have hinside : ∀ c ∈ body, (c != '\n') = true := fun c hc => by
      simpa using ne_of_mem_of_not_mem hc hbody
    refine ⟨rest.takeWhile (· != '\n'), ?_⟩
    simp [lexeme?, List.takeWhile_append_of_pos hinside]
  | word =>
    cases lexeme with
    | nil => cases h
    | cons c cs =>
      obtain ⟨hc, hcs⟩ := Bool.and_eq_true_iff.mp h
      refine ⟨rest.takeWhile isWordPart, ?_⟩
      simp [lexeme?, hc, List.takeWhile_append_of_pos (List.all_eq_true.mp hcs)]
  | quoted =>
    obtain ⟨body, rfl, hbody⟩ := h
    exact ⟨[], by rw [List.append_nil]; exact lexeme?_quoted hbody⟩
  | sign spelling kind =>
    obtain rfl : lexeme = spelling := h
    have hprefix := List.isPrefixOf_iff_prefix.mpr (List.prefix_append lexeme rest)
    exact ⟨[], by simp [lexeme?, hprefix]⟩

/-- **A pattern takes the longest initial segment that it describes.** -/
theorem lexeme?_eq_some_iff : pattern.lexeme? text = some lexeme ↔ pattern.Takes text lexeme := by
  constructor
  · intro h
    refine ⟨isPrefix_of_lexeme? h, admits_of_lexeme? h, fun shorter hprefix hshorter => ?_⟩
    obtain ⟨rest, rfl⟩ := hprefix
    obtain ⟨more, hmore⟩ := exists_lexeme?_of_admits hshorter rest
    obtain rfl := Option.some.inj (hmore.symm.trans h)
    rw [List.length_append]
    exact Nat.le_add_right _ _
  · rintro ⟨⟨rest, rfl⟩, hadmits, hlongest⟩
    obtain ⟨more, hmore⟩ := exists_lexeme?_of_admits hadmits rest
    -- what is taken beyond the segment would make a longer one
    have hlength := hlongest _ (isPrefix_of_lexeme? hmore) (admits_of_lexeme? hmore)
    rw [List.length_append] at hlength
    obtain rfl : more = [] := List.eq_nil_of_length_eq_zero (by omega)
    rwa [List.append_nil] at hmore

/-! ### The order of the table -/

/-- The signs of the table, in its order. -/
def signs : List (List Char × Kind) :=
  [(['\x7b'], .openCurly), (['\x7d'], .closeCurly), (['('], .openParen), ([')'], .closeParen),
   (['=', '='], .equals), (['!', '='], .notEquals), (['='], .assignment),
   (['<', '='], .lessEquals), (['<'], .less), (['>', '='], .greaterEquals), (['>'], .greater),
   ([';'], .semicolon), ([','], .comma), (['+', '+'], .plusPlus), (['-', '-'], .minusMinus),
   (['+'], .plus), (['-'], .dash), (['/'], .slash), (['*'], .star)]

theorem table_eq : table =
    [blank, comment, word, digits, quoted] ++ signs.map fun entry => sign entry.1 entry.2 :=
  rfl

theorem sign_mem_table {spelling : List Char} {kind : Kind} :
    sign spelling kind ∈ table ↔ (spelling, kind) ∈ signs := by
  rw [table_eq]
  simp

/-- The characters with which a lexeme of a pattern can begin. -/
def Starts : Pattern → Char → Prop
  | blank, c => isWhiteSpace c = true
  | comment, c => c = '/'
  | word, c => isWordStart c = true
  | digits, c => c.isDigit = true
  | quoted, c => c = '"'
  | sign spelling _, c => spelling.head? = some c

instance : ∀ (pattern : Pattern) (c : Char), Decidable (pattern.Starts c)
  | blank, c => inferInstanceAs (Decidable (isWhiteSpace c = true))
  | comment, c => inferInstanceAs (Decidable (c = '/'))
  | word, c => inferInstanceAs (Decidable (isWordStart c = true))
  | digits, c => inferInstanceAs (Decidable (c.isDigit = true))
  | quoted, c => inferInstanceAs (Decidable (c = '"'))
  | sign spelling _, c => inferInstanceAs (Decidable (spelling.head? = some c))

theorem starts_of_admits (h : pattern.Admits (c :: cs)) : pattern.Starts c := by
  cases pattern with
  | blank | digits => exact h.2 c List.mem_cons_self
  | comment =>
    obtain ⟨body, heq, -⟩ := h
    exact (List.cons.inj heq).1
  | word => exact (Bool.and_eq_true_iff.mp h).1
  | quoted =>
    obtain ⟨body, heq, -⟩ := h
    exact (List.cons.inj heq).1
  | sign spelling kind =>
    obtain rfl : c :: cs = spelling := h
    rfl

/-- Two patterns that match the same text start with its first character. -/
theorem exists_starts {taken taken' : List Char} (hlisted : pattern ∈ table)
    (hlisted' : other ∈ table) (h : pattern.lexeme? text = some taken)
    (h' : other.lexeme? text = some taken') : ∃ c, pattern.Starts c ∧ other.Starts c := by
  obtain ⟨c, cs, rfl⟩ := List.exists_cons_of_ne_nil (ne_nil_of_lexeme? hlisted h)
  obtain ⟨d, ds, rfl⟩ := List.exists_cons_of_ne_nil (ne_nil_of_lexeme? hlisted' h')
  obtain ⟨rest, rfl⟩ := isPrefix_of_lexeme? h
  obtain ⟨rest', heq⟩ := isPrefix_of_lexeme? h'
  obtain rfl : d = c := (List.cons.inj heq).1
  exact ⟨d, starts_of_admits (admits_of_lexeme? h), starts_of_admits (admits_of_lexeme? h')⟩

/-- Wherever two patterns match, the first of them takes more. -/
def Outmatches (pattern other : Pattern) : Prop :=
  ∀ text longer shorter, pattern.lexeme? text = some longer → other.lexeme? text = some shorter →
    shorter.length < longer.length

theorem outmatches_of_starts (hlisted : pattern ∈ table) (hlisted' : other ∈ table)
    (h : ∀ c, pattern.Starts c → ¬ other.Starts c) : pattern.Outmatches other := by
  intro text longer shorter hlonger hshorter
  obtain ⟨c, hc, hc'⟩ := exists_starts hlisted hlisted' hlonger hshorter
  exact absurd hc' (h c hc)

theorem not_isWhiteSpace_of_isWordStart (h : isWordStart c = true) : ¬ isWhiteSpace c = true := by
  simp [isWhiteSpace_of_isWordPart, isWordPart, h]

theorem not_isWhiteSpace_of_isDigit (h : c.isDigit = true) : ¬ isWhiteSpace c = true := by
  simp [isWhiteSpace_of_isWordPart, isWordPart, h]

/-- The patterns before the signs start with different characters. -/
theorem pairwise_starts : [blank, comment, word, digits, quoted].Pairwise
    fun pattern other => ∀ c, pattern.Starts c → ¬ other.Starts c := by
  have hblank : ∀ other ∈ [comment, word, digits, quoted], ∀ c, blank.Starts c →
      ¬ other.Starts c := by
    intro other hother c hc hstart
    simp only [List.mem_cons, List.not_mem_nil, or_false] at hother
    rcases hother with rfl | rfl | rfl | rfl
    · obtain rfl : c = '/' := hstart
      exact absurd hc (by decide)
    · exact not_isWhiteSpace_of_isWordStart hstart hc
    · exact not_isWhiteSpace_of_isDigit hstart hc
    · obtain rfl : c = '"' := hstart
      exact absurd hc (by decide)
  have hcomment : ∀ other ∈ [word, digits, quoted], ∀ c, comment.Starts c →
      ¬ other.Starts c := by
    rintro other hother c rfl
    simp only [List.mem_cons, List.not_mem_nil, or_false] at hother
    rcases hother with rfl | rfl | rfl <;> decide
  have hword : ∀ other ∈ [digits, quoted], ∀ c, word.Starts c → ¬ other.Starts c := by
    intro other hother c hc hstart
    simp only [List.mem_cons, List.not_mem_nil, or_false] at hother
    rcases hother with rfl | rfl
    · exact not_isDigit_of_isWordStart hc hstart
    · obtain rfl : c = '"' := hstart
      exact absurd hc (by decide)
  have hdigits : ∀ other ∈ [quoted], ∀ c, digits.Starts c → ¬ other.Starts c := by
    intro other hother c hc hstart
    obtain rfl := List.mem_singleton.mp hother
    obtain rfl : c = '"' := hstart
    exact absurd hc (by decide)
  exact .cons hblank (.cons hcomment (.cons hword (.cons hdigits (.cons nofun .nil))))

/-- No sign is an initial segment of a later one. -/
theorem pairwise_signs : signs.Pairwise fun entry later => ¬ entry.1 <+: later.1 := by
  decide

theorem outmatches_signs : (signs.map fun entry => sign entry.1 entry.2).Pairwise Outmatches := by
  refine List.pairwise_map.mpr (pairwise_signs.imp fun {entry later} hprefix => ?_)
  intro text longer shorter hlonger hshorter
  obtain ⟨hentry, hadmitted, -⟩ := lexeme?_eq_some_iff.mp hlonger
  obtain ⟨hlater, hadmitted', -⟩ := lexeme?_eq_some_iff.mp hshorter
  obtain rfl : longer = entry.1 := hadmitted
  obtain rfl : shorter = later.1 := hadmitted'
  by_contra hlength
  exact hprefix (List.prefix_of_prefix_length_le hentry hlater (Nat.not_lt.mp hlength))

/-- Only a comment starts as a sign does, and no sign that does has two characters. -/
theorem head_of_signs : ∀ entry ∈ signs,
    (∀ pattern ∈ [blank, word, digits, quoted], ¬ pattern.Starts (entry.1.headD ' ')) ∧
      (entry.1.headD ' ' = '/' → entry.1.length < 2) := by
  decide

/-- A pattern before the signs takes more than a sign, wherever both match. -/
theorem outmatches_sign {spelling : List Char} {kind : Kind}
    (hpattern : pattern ∈ [blank, comment, word, digits, quoted])
    (hentry : (spelling, kind) ∈ signs) : pattern.Outmatches (sign spelling kind) := by
  have hlisted : pattern ∈ table := List.mem_append_left _ hpattern
  have hlisted' : sign spelling kind ∈ table := sign_mem_table.mpr hentry
  obtain ⟨hothers, hlength⟩ := head_of_signs _ hentry
  have hhead (c : Char) (hstart : (sign spelling kind).Starts c) : spelling.headD ' ' = c := by
    rw [List.headD_eq_head?_getD, show spelling.head? = some c from hstart]
    rfl
  by_cases hcomment : pattern = comment
  · subst hcomment
    intro text longer shorter hlonger hshorter
    obtain ⟨c, hslash, hstart⟩ := exists_starts hlisted hlisted' hlonger hshorter
    obtain ⟨body, rfl, -⟩ := admits_of_lexeme? hlonger
    obtain rfl : shorter = spelling := admits_of_lexeme? hshorter
    have hshort : shorter.length < 2 := hlength ((hhead c hstart).trans hslash)
    simp only [List.length_cons]
    omega
  · refine outmatches_of_starts hlisted hlisted' fun c hc hstart => ?_
    refine hothers pattern ?_ (hhead c hstart ▸ hc)
    simpa [hcomment] using hpattern

/-- **Of two patterns of the table that match, the first takes more.** -/
theorem pairwise_outmatches : table.Pairwise Outmatches := by
  rw [table_eq]
  refine List.pairwise_append.mpr ⟨?_, outmatches_signs, fun pattern hpattern other hother => ?_⟩
  · refine pairwise_starts.imp_of_mem fun hpattern hother hstarts => ?_
    exact outmatches_of_starts (List.mem_append_left _ hpattern) (List.mem_append_left _ hother)
      hstarts
  · obtain ⟨entry, hentry, rfl⟩ := List.mem_map.mp hother
    exact outmatches_sign hpattern hentry

/-! ### The first match and the longest -/

/-- A pattern takes a segment of a text, and every other one that matches takes less. -/
structure LongestMatch (text : List Char) (pattern : Pattern) (lexeme : List Char) : Prop where
  listed : pattern ∈ table
  taken : pattern.lexeme? text = some lexeme
  ne_nil : lexeme ≠ []
  longest : ∀ other ∈ table, other ≠ pattern → ∀ shorter, other.lexeme? text = some shorter →
    shorter.length < lexeme.length

theorem FirstMatch.longestMatch (h : FirstMatch text pattern lexeme) :
    LongestMatch text pattern lexeme := by
  obtain ⟨before, after, htable, htaken, hbefore⟩ := h
  have hlisted : pattern ∈ table := htable ▸ List.mem_append_right _ List.mem_cons_self
  refine ⟨hlisted, htaken, ne_nil_of_lexeme? hlisted htaken, fun other hother hne shorter h => ?_⟩
  rw [htable] at hother
  rcases List.mem_append.mp hother with hfirst | hlater
  · rw [hbefore other hfirst] at h
    cases h
  · have hpairwise := pairwise_outmatches
    rw [htable] at hpairwise
    have hafter := (List.pairwise_cons.mp (List.pairwise_append.mp hpairwise).2.1).1
    have hmem := (List.mem_cons.mp hlater).resolve_left hne
    exact hafter other hmem text lexeme shorter htaken h

/-- **The first match is the longest**, and the only one that is. -/
theorem firstMatch_iff : FirstMatch text pattern lexeme ↔ LongestMatch text pattern lexeme := by
  refine ⟨FirstMatch.longestMatch, fun h => ?_⟩
  obtain ⟨⟨first, taken⟩, hclass⟩ : ∃ found, classify? text = some found := by
    refine Option.isSome_iff_exists.mp (List.findSome?_isSome_iff.mpr ⟨pattern, h.listed, ?_⟩)
    rw [h.taken]
    rfl
  have hfirst := classify?_eq_some_iff.mp hclass
  by_cases hsame : pattern = first
  · subst hsame
    obtain rfl := Option.some.inj (h.taken.symm.trans hfirst.longestMatch.taken)
    exact hfirst
  · have hless := hfirst.longestMatch.longest pattern h.listed hsame lexeme h.taken
    have hless' := h.longest first hfirst.longestMatch.listed (Ne.symm hsame) taken
      hfirst.longestMatch.taken
    omega

/-! ### Where no pattern matches -/

/-- The characters that are signs by themselves. -/
def signCharacters : List Char :=
  ['\x7b', '\x7d', '(', ')', '=', '<', '>', ';', ',', '+', '-', '/', '*']

/-- A character begins a blank, a comment or a lexeme, with what stands behind it. -/
def Opens (c : Char) (cs : List Char) : Prop :=
  isWhiteSpace c = true ∨ c.isAlpha = true ∨ c.isDigit = true ∨ c = '_' ∨ c ∈ signCharacters ∨
    (c = '!' ∧ cs.head? = some '=') ∨ (c = '"' ∧ '"' ∈ cs)

/-- A sign begins with one of these characters, but for one sign. -/
theorem head_mem_of_signs : ∀ entry ∈ signs,
    entry.1.headD ' ' ∈ signCharacters ∨ entry.1 = ['!', '='] := by
  decide

theorem singletons_of_signs : signCharacters.map (fun c => [c]) ⊆ signs.map Prod.fst := by
  decide

theorem opens_of_lexeme? (hlisted : pattern ∈ table)
    (h : pattern.lexeme? (c :: cs) = some lexeme) : Opens c cs := by
  have hadmits := admits_of_lexeme? h
  obtain ⟨d, ds, rfl⟩ := List.exists_cons_of_ne_nil (ne_nil_of_lexeme? hlisted h)
  obtain ⟨rest, heq⟩ := isPrefix_of_lexeme? h
  obtain ⟨rfl, rfl⟩ := List.cons.inj heq
  have hstart := starts_of_admits hadmits
  cases pattern with
  | blank => exact .inl hstart
  | comment =>
    obtain rfl : d = '/' := hstart
    exact .inr (.inr (.inr (.inr (.inl (by decide)))))
  | word =>
    rcases Bool.or_eq_true_iff.mp hstart with hletter | hunderscore
    · exact .inr (.inl hletter)
    · exact .inr (.inr (.inr (.inl (beq_iff_eq.mp hunderscore))))
  | digits => exact .inr (.inr (.inl hstart))
  | quoted =>
    obtain ⟨body, heq, -⟩ := hadmits
    obtain ⟨rfl, rfl⟩ := List.cons.inj heq
    exact .inr (.inr (.inr (.inr (.inr (.inr ⟨rfl, by simp⟩)))))
  | sign spelling kind =>
    obtain rfl : d :: ds = spelling := hadmits
    rcases head_mem_of_signs _ (sign_mem_table.mp hlisted) with hmem | heq
    · exact .inr (.inr (.inr (.inr (.inl hmem))))
    · obtain ⟨rfl, rfl⟩ := List.cons.inj heq
      exact .inr (.inr (.inr (.inr (.inr (.inl ⟨rfl, rfl⟩)))))

/-- Where something begins, there is a pattern that describes the start of it. -/
theorem Opens.exists_admits (h : Opens c cs) :
    ∃ pattern ∈ table, ∃ lexeme, lexeme <+: c :: cs ∧ pattern.Admits lexeme := by
  have hsingle : [c] <+: c :: cs := ⟨cs, rfl⟩
  rcases h with hblank | hletter | hdigit | rfl | hsign | ⟨rfl, hnext⟩ | ⟨rfl, hclosed⟩
  · exact ⟨blank, by simp [table], [c], hsingle, by simpa [Admits] using hblank⟩
  · exact ⟨word, by simp [table], [c], hsingle, by simp [Admits, isWord, isWordStart, hletter]⟩
  · exact ⟨digits, by simp [table], [c], hsingle, by simpa [Admits] using hdigit⟩
  · exact ⟨word, by simp [table], ['_'], hsingle, by simp [Admits, isWord, isWordStart]⟩
  · obtain ⟨⟨spelling, kind⟩, hentry, rfl⟩ :=
      List.mem_map.mp (singletons_of_signs (List.mem_map_of_mem hsign))
    exact ⟨_, sign_mem_table.mpr hentry, [c], hsingle, rfl⟩
  · obtain ⟨rest, rfl⟩ := List.head?_eq_some_iff.mp hnext
    exact ⟨sign ['!', '='] .notEquals, by simp [table], ['!', '='], ⟨rest, rfl⟩, rfl⟩
  · refine ⟨quoted, by simp [table], '"' :: (cs.takeWhile (· != '"') ++ ['"']), ?_, _, rfl, ?_⟩
    · exact List.cons_prefix_cons.mpr ⟨rfl, takeWhile_ne_append_prefix (by simpa using hclosed)⟩
    · intro hmem
      simpa using List.all_eq_true.mp List.all_takeWhile _ hmem

/-- **No pattern matches just where nothing begins.** -/
theorem classify?_eq_none_iff : classify? (c :: cs) = none ↔ ¬ Opens c cs := by
  constructor
  · intro hnone hopens
    obtain ⟨pattern, hlisted, lexeme, ⟨rest, htext⟩, hadmits⟩ := hopens.exists_admits
    obtain ⟨more, hmatch⟩ := exists_lexeme?_of_admits hadmits rest
    rw [← htext] at hnone
    have hnot := List.findSome?_eq_none_iff.mp hnone pattern hlisted
    rw [hmatch] at hnot
    cases hnot
  · intro hnot
    cases hclass : classify? (c :: cs) with
    | none => rfl
    | some found =>
      obtain ⟨hlisted, hmatch⟩ := of_classify? hclass
      exact absurd (opens_of_lexeme? hlisted hmatch) hnot

end Pattern

/-! ### What the lexer makes of it -/

namespace Lexer

open Pattern

variable {lexer : Lexer} {run rest : List Char}

/-- The lexer has come to a character, with a gap before it, and nothing begins there. -/
structure Stuck (lexer : Lexer) (gap : List Char) (c : Char) (rest : List Char) : Prop where
  unread : lexer.cursor.unread = gap ++ c :: rest
  trivia : Trivia (c :: rest) gap
  stray : ¬ Opens c rest

/-- A word has become the current token. Its kind is that of a reserved word just if all of it is
one. -/
structure WordRead (run : List Char) (kind : Kind) (next : Lexer) : Prop where
  kind_eq : next.current.kind = kind
  text_eq : next.current.text = String.ofList run
  reserved : kind ≠ .identifier ↔ ∃ keyword, (String.ofList run, keyword) ∈ Kind.reserved
  keyword {keyword : Kind} : (String.ofList run, keyword) ∈ Kind.reserved → kind = keyword

/-- What decides about a step of the lexer. -/
structure Matches (lexer : Lexer) : Prop where
  /-- Each pattern takes the longest segment that it describes. -/
  takes {pattern : Pattern} {lexeme : List Char} :
    pattern.lexeme? lexer.cursor.unread = some lexeme ↔ pattern.Takes lexer.cursor.unread lexeme
  /-- The first pattern that matches is the one whose match is the longest. -/
  longest {pattern : Pattern} {lexeme : List Char} :
    FirstMatch lexer.cursor.unread pattern lexeme ↔ LongestMatch lexer.cursor.unread pattern lexeme
  /-- It is the one that the lexer goes by. -/
  picks {pattern : Pattern} {lexeme : List Char} :
    FirstMatch lexer.cursor.unread pattern lexeme → lexer.advance = lexer.readAs pattern lexeme
  /-- A word that nothing continues is read as a whole. -/
  word {run rest : List Char} : lexer.cursor.unread = run ++ rest → isWord run = true →
    (∀ c ∈ rest.head?, isWordPart c = false) →
      ∃ kind next, lexer.advance = .ok kind next ∧ WordRead run kind next
  /-- Some pattern matches just where something begins. -/
  opens {c : Char} {rest : List Char} : lexer.cursor.unread = c :: rest →
    ((∃ pattern lexeme, FirstMatch lexer.cursor.unread pattern lexeme) ↔ Opens c rest)
  /-- A character is refused just where nothing begins. -/
  unrecognised {fault : Diagnostic} {next : Lexer} :
    (lexer.advance = .error fault next ∧ fault.cause = .unrecognised) ↔
      ∃ gap c rest, lexer.Stuck gap c rest ∧ next = (lexer.pass gap).mark ∧
        fault = ⟨.unrecognised, String.ofList [c], next.position, next.location⟩

theorem exists_advance_of_word (htext : lexer.cursor.unread = run ++ rest)
    (hword : isWord run = true) (hstop : ∀ c ∈ rest.head?, isWordPart c = false) :
    ∃ kind next, lexer.advance = .ok kind next ∧ WordRead run kind next := by
  have hhead : isWordPart (rest.headD '\n') = false := by
    cases rest with
    | nil => decide
    | cons c cs => exact hstop c rfl
  have hclass := classify?_of_isWord hword hhead
  have hgap : lexer.cursor.unread = [] ++ (run ++ rest) := htext
  obtain ⟨next, hadvance, hreads⟩ := @exists_advance_of_readable _ _ _ (.word, run) hgap .nil _ rfl
    hclass (by simp) (by simp) trivial
  have hkind : Lexeme.kind (.word, run) =
      (Kind.ofReserved? (String.ofList run)).getD .identifier := rfl
  refine ⟨_, next, hadvance, by rw [hreads.current], by rw [hreads.current], ?_, fun hmem => ?_⟩
  · rw [hkind]
    cases hreserved : Kind.ofReserved? (String.ofList run) with
    | none =>
      refine ⟨fun hne => absurd rfl hne, fun ⟨keyword, hmem⟩ => ?_⟩
      rw [Kind.ofReserved?_eq_some_iff.mpr hmem] at hreserved
      cases hreserved
    | some keyword =>
      refine ⟨fun _ => ⟨keyword, Kind.ofReserved?_eq_some_iff.mp hreserved⟩, fun _ => ?_⟩
      rintro rfl
      exact absurd (isFixed_of_ofReserved? hreserved) (by decide)
  · rw [hkind, Kind.ofReserved?_eq_some_iff.mpr hmem]
    rfl

theorem unrecognised_iff {fault : Diagnostic} {next : Lexer} :
    (lexer.advance = .error fault next ∧ fault.cause = .unrecognised) ↔
      ∃ gap c rest, lexer.Stuck gap c rest ∧ next = (lexer.pass gap).mark ∧
        fault = ⟨.unrecognised, String.ofList [c], next.position, next.location⟩ := by
  constructor
  · rintro ⟨hadvance, hcause⟩
    have houtcome := lexer.outcome_advance
    rw [hadvance] at houtcome
    cases houtcome with
    | @stray gap cs c htext hgap hclass =>
      exact ⟨gap, c, cs, ⟨htext, hgap, classify?_eq_none_iff.mp hclass⟩, rfl, rfl⟩
    | tooLarge => cases hcause
  · rintro ⟨gap, c, rest, hstuck, rfl, rfl⟩
    have hclass := classify?_eq_none_iff.mpr hstuck.stray
    exact ⟨advance_of_stray hstuck.unread hstuck.trivia rfl hclass, rfl⟩

/-- **The first match is the longest**, whatever the lexer has come to. -/
theorem matches_longest (lexer : Lexer) : lexer.Matches where
  takes := lexeme?_eq_some_iff
  longest := firstMatch_iff
  picks h := advance_of_classify (classify?_eq_some_iff.mpr h)
  word := exists_advance_of_word
  opens {c rest} htext := by
    rw [htext, ← not_iff_not, ← classify?_eq_none_iff, Option.eq_none_iff_forall_ne_some]
    simp only [← classify?_eq_some_iff, not_exists, ne_eq, Prod.forall]
  unrecognised := unrecognised_iff

end Lexer

example : Pattern.classify? "<=>".toList = some (.sign ['<', '='] .lessEquals, ['<', '=']) := by
  decide

end ScriptFront
