import ScriptFront.Proofs.Listed
import ScriptFront.Proofs.Printed

/-!
# ScriptFront.Proofs.Layouts

**Tokens survive every layout.** Whatever legal texts are written behind one another, with white
space and comments between them, the tokens are those texts with their kinds (`tokenize_laidOut`).
White space has to come first behind a text, for two words would otherwise be one, and so would two
signs. In front of them, and behind the last of them, there need not be anything.

* `Legal` says which texts a kind of token may have.
* `LaidOut` puts them behind one another.
-/

namespace ScriptFront

open Text (isWhiteSpace)

/-! ### The texts of tokens -/

/-- The text of the tokens that are always written the same way. -/
def Kind.spelling? : Kind → Option String
  | .eof | .number | .string | .identifier => none
  | .openCurly => some "\x7b"
  | .closeCurly => some "\x7d"
  | .openParen => some "("
  | .closeParen => some ")"
  | .comma => some ","
  | .semicolon => some ";"
  | .assignment => some "="
  | .equals => some "=="
  | .notEquals => some "!="
  | .less => some "<"
  | .lessEquals => some "<="
  | .greater => some ">"
  | .greaterEquals => some ">="
  | .plusPlus => some "++"
  | .minusMinus => some "--"
  | .plus => some "+"
  | .dash => some "-"
  | .slash => some "/"
  | .star => some "*"
  | .printWord => some "print"
  | .forWord => some "for"
  | .ifWord => some "if"
  | .elseWord => some "else"
  | .funWord => some "fun"
  | .varWord => some "var"
  | .returnWord => some "return"

/-- A text that a token of a kind may have. -/
inductive Legal : Kind → String → Prop
  | fixed {kind : Kind} {text : String} (htext : kind.spelling? = some text) : Legal kind text
  | identifier {text : String} (hname : isName text = true) : Legal .identifier text
  | number {text : String} (hne : text ≠ "") (hdigits : ∀ c ∈ text.toList, c.isDigit = true)
      (hvalue : decimalValue text.toList ≤ 2 ^ 63 - 1) : Legal .number text
  | string {body : List Char} (hbody : '"' ∉ body) :
      Legal .string (String.ofList ('"' :: (body ++ ['"'])))

/-! ### White space and comments -/

/-- White space and comments, each comment with the newline that ends it. -/
inductive Filler : List Char → Prop
  | nil : Filler []
  | blank {c : Char} {cs : List Char} (hc : isWhiteSpace c = true) (hrest : Filler cs) :
      Filler (c :: cs)
  | comment {body cs : List Char} (hbody : '\n' ∉ body) (hrest : Filler cs) :
      Filler ('/' :: '/' :: (body ++ '\n' :: cs))

/-- They can be put in front of a gap. -/
theorem Filler.append_trivia {filler gap after : List Char} (h : Filler filler)
    (hgap : Trivia after gap) : Trivia after (filler ++ gap) := by
  induction h with
  | nil => exact hgap
  | blank hc _ ih => exact .blank hc ih
  | @comment body cs hbody _ ih =>
    have hnewline : isWhiteSpace '\n' = true := by decide
    rw [List.cons_append, List.cons_append, List.append_assoc]
    exact .comment hbody (by simp) (.blank hnewline ih)

/-- They can be put in front of what is cut. -/
theorem Cut.after_filler {filler text : List Char} {lexemes : List Lexeme} (h : Filler filler)
    (hcut : Cut text lexemes) : Cut (filler ++ text) lexemes := by
  cases hcut with
  | finish hgap => exact .finish (h.append_trivia hgap)
  | lexeme hgap hclass hblank hcomment hrest =>
    rw [← List.append_assoc]
    exact .lexeme (h.append_trivia hgap) hclass hblank hcomment hrest

/-- Texts of tokens behind one another. -/
inductive LaidOut : List (Kind × String) → List Char → Prop
  | empty : LaidOut [] []
  /-- Behind the last text there may be white space and comments, or nothing. Even a comment may come
  at once, unless the text is a slash, which would be drawn into it. -/
  | last {kind : Kind} {text : String} {trailing : List Char} (hlegal : Legal kind text)
      (htrailing : Filler trailing) (hslash : text = "/" → trailing.head? ≠ some '/') :
      LaidOut [(kind, text)] (text.toList ++ trailing)
  | next {kind : Kind} {text : String} {c : Char} {separator rest : List Char}
      {later : List (Kind × String)} (hlegal : Legal kind text) (hc : isWhiteSpace c = true)
      (hseparator : Filler separator) (hrest : LaidOut later rest) :
      LaidOut ((kind, text) :: later) (text.toList ++ (c :: separator ++ rest))

/-! ### The class of a legal text -/

/-- What stands behind a character makes neither a sign of two characters with it nor a comment. -/
def Apart (c : Char) (cs : List Char) : Prop :=
  cs.headD '\n' ∉ ['=', '+', '-'] ∧ (c = '/' → cs.headD '\n' ≠ '/')

namespace Pattern

variable {c : Char} {cs rest spelling : List Char} {pattern : Pattern} {kind : Kind}

/-- The signs of two characters have one of three at the second place. -/
theorem second_of_mem_table (h : sign spelling kind ∈ table) :
    spelling ≠ [] ∧ ∀ d ∈ spelling.tail.head?, d ∈ ['=', '+', '-'] := by
  have hsigns : ∀ pattern ∈ table, match pattern with
      | sign spelling _ => spelling ≠ [] ∧ ∀ d ∈ spelling.tail.head?, d ∈ ['=', '+', '-']
      | _ => True := by
    simp [table]
  exact hsigns _ h

theorem isPrefixOf_of_apart {second : List Char}
    (hsecond : ∀ d ∈ second.head?, d ∈ ['=', '+', '-']) (h : Apart c cs) :
    second.isPrefixOf cs = second.isPrefixOf [] := by
  cases second with
  | nil => rfl
  | cons d second =>
    cases cs with
    | nil => rfl
    | cons e cs =>
      have hne : d ≠ e := ne_of_mem_of_not_mem (hsecond d rfl) h.1
      simp [List.isPrefixOf, hne]

/-- Whether a pattern matches depends on the first character, if what stands behind it is apart. -/
theorem isSome_lexeme?_of_apart (hlisted : pattern ∈ table) (hquoted : pattern ≠ quoted)
    (h : Apart c cs) : (pattern.lexeme? (c :: cs)).isSome = (pattern.lexeme? [c]).isSome := by
  cases pattern with
  | blank | digits => simp only [lexeme?, isSome_run?]
  | word =>
    simp only [lexeme?]
    split <;> rfl
  | quoted => exact absurd rfl hquoted
  | comment =>
    have hnext : ¬ (c = '/' ∧ cs.headD '\n' = '/') := fun hboth => h.2 hboth.1 hboth.2
    have hend : ¬ (c = '/' ∧ [].headD '\n' = '/') := fun hboth => absurd hboth.2 (by decide)
    rw [isSome_comment, isSome_comment, decide_eq_false hnext, decide_eq_false hend]
  | sign spelling kind =>
    obtain ⟨hne, hsecond⟩ := second_of_mem_table hlisted
    obtain ⟨first, second, rfl⟩ := List.exists_cons_of_ne_nil hne
    have hsame : (first :: second).isPrefixOf (c :: cs) = (first :: second).isPrefixOf [c] :=
      congrArg (first == c && ·) (isPrefixOf_of_apart hsecond h)
    simp only [lexeme?]
    rw [hsame]

/-- A sign has its class if what stands behind its last character is apart from that. -/
theorem classify?_of_sign (hself : classify? spelling = some (sign spelling kind, spelling))
    (hquote : spelling.head? ≠ some '"') (hrest : ∀ c ∈ spelling.getLast?, Apart c rest) :
    classify? (spelling ++ rest) = some (sign spelling kind, spelling) := by
  refine classify?_of_isSome hself (fun other hother => ?_) ?_
  · obtain ⟨c, cs, rfl⟩ := List.exists_cons_of_ne_nil (ne_nil_of_classify? hself)
    by_cases hquoted : other = quoted
    · have hc : c ≠ '"' := fun heq => hquote (congrArg some heq)
      simp [hquoted, lexeme?, hc]
    · cases cs with
      | nil => exact (isSome_lexeme?_of_apart hother hquoted (hrest c rfl)).symm
      | cons d cs => exact isSome_lexeme?_congr hother hquoted rfl
  · have hprefix : spelling.isPrefixOf (spelling ++ rest) = true :=
      List.isPrefixOf_iff_prefix.mpr (List.prefix_append _ _)
    simp [lexeme?, hprefix]

theorem classify?_of_quoted {body : List Char} (hbody : '"' ∉ body) :
    classify? ('"' :: (body ++ ['"']) ++ rest) = some (quoted, '"' :: (body ++ ['"'])) := by
  have htaken : quoted.lexeme? ('"' :: (body ++ ['"']) ++ rest) = some ('"' :: (body ++ ['"'])) :=
    lexeme?_quoted hbody
  cases hclass : classify? ('"' :: (body ++ ['"']) ++ rest) with
  | none =>
    have hnone := List.findSome?_eq_none_iff.mp hclass quoted (by simp [table])
    rw [htaken] at hnone
    cases hnone
  | some found =>
    obtain ⟨pattern, lexeme⟩ := found
    obtain rfl := eq_quoted_of_classify? hclass
    rw [Option.some.inj (htaken.symm.trans (of_classify? hclass).2)]

end Pattern

/-- A text that is always written the same way is a reserved word or a sign. -/
theorem Kind.spelling_cases {kind : Kind} {text : String} (h : kind.spelling? = some text) :
    (Kind.ofReserved? text = some kind ∧ Pattern.isWord text.toList = true) ∨
    (Pattern.classify? text.toList = some (.sign text.toList kind, text.toList) ∧
      text.toList.head? ≠ some '"' ∧ (text.toList.getLast? = some '/' → text = "/")) := by
  cases kind with
  | eof | number | string | identifier => cases h
  | printWord | forWord | ifWord | elseWord | funWord | varWord | returnWord =>
    cases h
    exact .inl (by decide)
  | _ =>
    cases h
    exact .inr (by decide)

/-- Behind a text stands what belongs to no token: white space, the end, or a comment that the text
is not drawn into. -/
def Parted (text : String) (rest : List Char) : Prop :=
  isWhiteSpace (rest.headD '\n') = true ∨ (rest.headD '\n' = '/' ∧ text ≠ "/")

theorem Parted.not_isWordPart {text : String} {rest : List Char} (h : Parted text rest) :
    isWordPart (rest.headD '\n') = false := by
  rcases h with hblank | ⟨hslash, -⟩
  · by_contra hpart
    rw [Pattern.isWhiteSpace_of_isWordPart (by simpa using hpart)] at hblank
    cases hblank
  · rw [hslash]
    decide

theorem Parted.apart {text : String} {rest : List Char} {c : Char} (h : Parted text rest)
    (hc : c = '/' → text = "/") : Apart c rest := by
  rcases h with hblank | ⟨hslash, hne⟩
  · have hnone : ['=', '+', '-', '/'].all (! isWhiteSpace ·) = true := by decide
    have hsecond : rest.headD '\n' ∉ ['=', '+', '-', '/'] := fun hmem => by
      have hnot := List.all_eq_true.mp hnone _ hmem
      rw [hblank] at hnot
      cases hnot
    exact ⟨fun hmem => hsecond (by simp_all), fun _ heq => hsecond (by simp_all)⟩
  · exact ⟨by rw [hslash]; decide, fun heq => absurd (hc heq) hne⟩

/-- **A legal text is a lexeme** of its kind, if what stands behind it is parted from it. -/
theorem Legal.exists_lexeme {kind : Kind} {text : String} {rest : List Char} (h : Legal kind text)
    (hrest : Parted text rest) : ∃ pattern,
      Pattern.classify? (text.toList ++ rest) = some (pattern, text.toList) ∧
      pattern ≠ .blank ∧ pattern ≠ .comment ∧ Lexeme.Readable (pattern, text.toList) ∧
      Lexeme.reading (pattern, text.toList) = (kind, text) := by
  have hstop := hrest.not_isWordPart
  cases h with
  | fixed htext =>
    rcases Kind.spelling_cases htext with ⟨hreserved, hword⟩ | ⟨hself, hquote, hlast⟩
    · refine ⟨.word, Pattern.classify?_of_isWord hword hstop, by simp, by simp, trivial, ?_⟩
      simp [Lexeme.reading, Lexeme.kind, hreserved]
    · refine ⟨.sign text.toList kind, ?_, by simp, by simp, trivial, ?_⟩
      · exact Pattern.classify?_of_sign hself hquote fun c hc => hrest.apart fun hslash =>
          hlast (hslash ▸ hc)
      · simp [Lexeme.reading, Lexeme.kind]
  | identifier hname =>
    obtain ⟨hword, hreserved⟩ := isName_iff.mp hname
    refine ⟨.word, Pattern.classify?_of_isWord hword hstop, by simp, by simp, trivial, ?_⟩
    simp [Lexeme.reading, Lexeme.kind, hreserved]
  | number hne hdigits hvalue =>
    have htext : text.toList ≠ [] := fun hnil => hne (String.toList_eq_nil_iff.mp hnil)
    obtain ⟨c, cs, hcons⟩ := List.exists_cons_of_ne_nil htext
    obtain ⟨hc, hcs⟩ := List.forall_mem_cons.mp (hcons ▸ hdigits)
    refine ⟨.digits, ?_, by simp, by simp, ?_, ?_⟩
    · rw [hcons]
      exact Pattern.classify?_of_digits hc hcs (Bool.or_eq_false_iff.mp hstop).2
    · exact Nat.lt_of_le_of_lt hvalue (by decide)
    · simp [Lexeme.reading, Lexeme.kind]
  | @string body hbody =>
    refine ⟨.quoted, ?_, by simp, by simp, trivial, ?_⟩
    · rw [String.toList_ofList]
      exact Pattern.classify?_of_quoted hbody
    · simp [Lexeme.reading, Lexeme.kind]

/-- By induction on the texts. -/
theorem LaidOut.exists_cut {tokens : List (Kind × String)} {text : List Char}
    (h : LaidOut tokens text) : ∃ lexemes, Cut text lexemes ∧
      (∀ lexeme ∈ lexemes, lexeme.Readable) ∧ lexemes.map Lexeme.reading = tokens := by
  induction h with
  | empty => exact ⟨[], .finish .nil, by simp, rfl⟩
  | @last kind text trailing hlegal htrailing hslash =>
    have hrest : Parted text trailing := by
      cases htrailing with
      | nil => exact .inl (by decide)
      | blank hc => exact .inl hc
      | comment => exact .inr ⟨rfl, fun heq => hslash heq rfl⟩
    have hgap := htrailing.append_trivia (.nil : Trivia [] [])
    rw [List.append_nil] at hgap
    obtain ⟨pattern, hclass, hblank, hcomment, hreadable, hreading⟩ := hlegal.exists_lexeme hrest
    refine ⟨[(pattern, text.toList)], (Cut.finish hgap).adjacent hclass hblank hcomment, ?_, ?_⟩
    · simpa using hreadable
    · rw [List.map_singleton, hreading]
  | @next kind text c separator rest later hlegal hc hseparator _ ih =>
    obtain ⟨lexemes, hcut, hall, hreadings⟩ := ih
    have hrest : Parted text (c :: separator ++ rest) := .inl hc
    obtain ⟨pattern, hclass, hblank, hcomment, hreadable, hreading⟩ := hlegal.exists_lexeme hrest
    refine ⟨(pattern, text.toList) :: lexemes, ?_, ?_, ?_⟩
    · exact (hcut.after_filler (.blank hc hseparator)).adjacent hclass hblank hcomment
    · exact List.forall_mem_cons.mpr ⟨hreadable, hall⟩
    · rw [List.map_cons, hreading, hreadings]

/-- **Tokens survive every layout.** What is laid out, behind any white space and comments, has the
tokens that it is made of, and behind them the end. -/
theorem tokenize_laidOut {tokens : List (Kind × String)} {leading text : List Char}
    (hleading : Filler leading) (h : LaidOut tokens text) (file : String) :
    ∃ found, tokenize (String.ofList (leading ++ text)) file = .ok found ∧
      found.map Token.reading = tokens ++ [(.eof, "EOF")] := by
  obtain ⟨lexemes, hcut, hreadable, hreadings⟩ := h.exists_cut
  have hwhole := hcut.after_filler hleading
  have hsource : Cut (String.ofList (leading ++ text)).toList lexemes := by
    rw [String.toList_ofList]
    exact hwhole
  obtain ⟨found, htokens, hfound⟩ := hsource.exists_tokenize hreadable file
  refine ⟨found, htokens, ?_⟩
  rw [hfound, Cut.readings, hreadings]
  rfl

example : tokenize "///\n" "shell" = .ok [.eof ⟨4, "shell"⟩] := by
  decide +kernel

/-- Two slashes and a newline within a text, a slash before a comment, and a comment at once behind
the last token. -/
theorem layout_of_slashes :
    ∃ found, tokenize "// =\n\"//\n\" /\t//\n== 007\nprinter// +\n" "shell" = .ok found ∧
      found.map Token.reading = [(.string, "\"//\n\""), (.slash, "/"), (.equals, "=="),
        (.number, "007"), (.identifier, "printer"), (.eof, "EOF")] := by
  have hspace : isWhiteSpace ' ' = true := by decide
  have htab : isWhiteSpace '\t' = true := by decide
  have hnewline : isWhiteSpace '\n' = true := by decide
  have hcomment {body : List Char} (hbody : '\n' ∉ body) :
      Filler ('/' :: '/' :: (body ++ ['\n'])) := .comment hbody .nil
  have hprinter : LaidOut [(.identifier, "printer")] ("printer".toList ++ "// +\n".toList) :=
    .last (.identifier (by decide)) (@hcomment [' ', '+'] (by decide)) (by decide)
  have hnumber : Legal .number "007" :=
    .number (by decide) (List.all_eq_true.mp (by decide)) (by decide)
  have hdivision : Legal .slash "/" := .fixed rfl
  have hequality : Legal .equals "==" := .fixed rfl
  have hsigns := LaidOut.next hdivision htab (@hcomment [] (by decide))
    (.next hequality hspace .nil (.next hnumber hnewline .nil hprinter))
  have hquoted : Legal .string "\"//\n\"" := @Legal.string ['/', '/', '\n'] (by decide)
  have hleading := @hcomment [' ', '='] (by decide)
  exact tokenize_laidOut hleading (.next hquoted hspace .nil hsigns) "shell"

end ScriptFront
