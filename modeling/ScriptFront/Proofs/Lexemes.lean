import ScriptFront.Proofs.Stepping

/-!
# ScriptFront.Proofs.Lexemes

**The class of a lexeme depends on no more than one character behind it**, and the end of the text
counts as a line end there (`Pattern.classify?_congr`). The lexemes that a program is printed with
have the classes that they are meant to have.
-/

namespace ScriptFront

open Text (isWhiteSpace)

namespace Pattern

variable {c : Char} {cs cs' lexeme rest rest' : List Char} {pattern : Pattern}

/-! ### Whether a pattern matches -/

theorem isSome_run? {among : Char → Bool} : (run? among (c :: cs)).isSome = among c := by
  cases h : among c <;> simp [run?, h]

theorem isSome_comment : (comment.lexeme? (c :: cs)).isSome =
    decide (c = '/' ∧ cs.headD '\n' = '/') := by
  by_cases hslashes : c = '/' ∧ cs.headD '\n' = '/'
  · obtain ⟨rfl, hsecond⟩ := hslashes
    cases cs with
    | nil => exact absurd hsecond (by decide)
    | cons d cs =>
      obtain rfl : d = '/' := hsecond
      rfl
  · have hnone : comment.lexeme? (c :: cs) = none := lexeme?.eq_3 _ fun rest heq => by
      cases heq
      exact hslashes ⟨rfl, rfl⟩
    rw [hnone, decide_eq_false hslashes]
    rfl

/-- The signs of the table have one character or two, and none of them ends a line. -/
theorem sign_of_mem_table {spelling : List Char} {kind : Kind} (h : sign spelling kind ∈ table) :
    spelling ≠ [] ∧ spelling.tail.length ≤ 1 ∧ '\n' ∉ spelling.tail := by
  have hsigns : ∀ pattern ∈ table, match pattern with
      | sign spelling _ => spelling ≠ [] ∧ spelling.tail.length ≤ 1 ∧ '\n' ∉ spelling.tail
      | _ => True := by
    simp [table]
  exact hsigns _ h

theorem isPrefixOf_congr {second : List Char} (hlength : second.length ≤ 1) (hend : '\n' ∉ second)
    (h : cs.headD '\n' = cs'.headD '\n') : second.isPrefixOf cs = second.isPrefixOf cs' := by
  match second with
  | [] => rfl
  | [d] =>
    have hsingle (text : List Char) : [d].isPrefixOf text = (text.headD '\n' == d) := by
      cases text with
      | nil => simpa [List.isPrefixOf] using hend
      | cons e text => simp [List.isPrefixOf, Bool.beq_comm]
    rw [hsingle, hsingle, h]

/-- Whether a pattern matches depends on the first two characters, but for a quoted text. -/
theorem isSome_lexeme?_congr (hlisted : pattern ∈ table) (hquoted : pattern ≠ quoted)
    (h : cs.headD '\n' = cs'.headD '\n') :
    (pattern.lexeme? (c :: cs)).isSome = (pattern.lexeme? (c :: cs')).isSome := by
  cases pattern with
  | blank | digits => simp only [lexeme?, isSome_run?]
  | word =>
    simp only [lexeme?]
    split <;> rfl
  | quoted => exact absurd rfl hquoted
  | comment => rw [isSome_comment, isSome_comment, h]
  | sign spelling kind =>
    obtain ⟨hne, hlength, hend⟩ := sign_of_mem_table hlisted
    obtain ⟨first, second, rfl⟩ := List.exists_cons_of_ne_nil hne
    have hsame : (first :: second).isPrefixOf (c :: cs) = (first :: second).isPrefixOf (c :: cs') :=
      congrArg (first == c && ·) (isPrefixOf_congr hlength hend h)
    simp only [lexeme?]
    rw [hsame]

/-! ### What a pattern takes -/

/-- A run is made of the characters of its class, and none of them stands behind it. -/
theorem all_of_takeWhile {among : Char → Bool} (h : (cs ++ rest).takeWhile among = cs) :
    (∀ d ∈ cs, among d = true) ∧ ∀ d ∈ rest.head?, among d = false := by
  have hall : ∀ d ∈ cs, among d = true := fun d hd => by
    rw [← h] at hd
    exact List.all_eq_true.mp List.all_takeWhile d hd
  refine ⟨hall, fun d hd => ?_⟩
  obtain ⟨later, rfl⟩ := List.head?_eq_some_iff.mp hd
  cases hfound : among d with
  | false => rfl
  | true => simp [List.takeWhile_append_of_pos hall, hfound] at h

/-- A run ends behind the same characters if the same character comes behind them. -/
theorem takeWhile_congr {among : Char → Bool} (hend : among '\n' = false)
    (h : (cs ++ rest).takeWhile among = cs) (hhead : rest.headD '\n' = rest'.headD '\n') :
    (cs ++ rest').takeWhile among = cs := by
  obtain ⟨hall, hbehind⟩ := all_of_takeWhile h
  have hstop : among (rest.headD '\n') = false := by
    cases rest with
    | nil => exact hend
    | cons d rest => exact hbehind d rfl
  rw [List.takeWhile_append_of_pos hall]
  rw [hhead] at hstop
  cases rest' with
  | nil => simp
  | cons d rest' => simp_all

theorem lexeme?_quoted {body : List Char} (hbody : '"' ∉ body) :
    quoted.lexeme? ('"' :: (body ++ ['"']) ++ rest) = some ('"' :: (body ++ ['"'])) := by
  have htaken : (body ++ '"' :: rest).takeWhile (· != '"') = body := by
    have hinside : ∀ c ∈ body, (c != '"') = true := fun c hc => by
      simpa using ne_of_mem_of_not_mem hc hbody
    simp [List.takeWhile_append_of_pos hinside]
  simp [lexeme?, htaken]

/-- A quoted text ends with the first quote behind its own. -/
theorem eq_of_quoted {text : List Char} (h : quoted.lexeme? text = some lexeme) :
    ∃ body, lexeme = '"' :: (body ++ ['"']) ∧ '"' ∉ body := by
  unfold lexeme? at h
  split at h
  case h_7 rest heq =>
    simp only [Option.ite_none_right_eq_some, Option.some.injEq] at h
    obtain ⟨-, rfl⟩ := h
    refine ⟨rest.takeWhile (· != '"'), rfl, fun hmem => ?_⟩
    simpa using List.all_eq_true.mp List.all_takeWhile _ hmem
  all_goals contradiction

/-- What a pattern has taken it takes again if the same character comes behind it. -/
theorem lexeme?_congr (hblank : pattern ≠ blank) (hcomment : pattern ≠ comment)
    (h : pattern.lexeme? (lexeme ++ rest) = some lexeme)
    (hhead : rest.headD '\n' = rest'.headD '\n') :
    pattern.lexeme? (lexeme ++ rest') = some lexeme := by
  cases pattern with
  | blank => exact absurd rfl hblank
  | comment => exact absurd rfl hcomment
  | word =>
    cases lexeme with
    | nil => cases rest <;> simp [lexeme?] at h
    | cons c cs =>
      simp only [List.cons_append, lexeme?, Option.ite_none_right_eq_some, Option.some.injEq,
        List.cons.injEq, true_and] at h ⊢
      exact ⟨h.1, takeWhile_congr (by decide) h.2 hhead⟩
  | digits =>
    obtain ⟨htaken, hne⟩ := run?_eq_some.mp h
    exact run?_eq_some.mpr ⟨takeWhile_congr (by decide) htaken hhead, hne⟩
  | quoted =>
    obtain ⟨body, rfl, hbody⟩ := eq_of_quoted h
    exact lexeme?_quoted hbody
  | sign spelling kind =>
    simp only [lexeme?, Option.ite_none_right_eq_some, Option.some.injEq] at h ⊢
    obtain ⟨-, rfl⟩ := h
    exact ⟨List.isPrefixOf_iff_prefix.mpr (List.prefix_append _ _), rfl⟩

/-! ### The class -/

/-- A pattern is the first of the table to match a text, and takes a segment of it. -/
def FirstMatch (text : List Char) (pattern : Pattern) (lexeme : List Char) : Prop :=
  ∃ before after, table = before ++ pattern :: after ∧ pattern.lexeme? text = some lexeme ∧
    ∀ other ∈ before, other.lexeme? text = none

theorem classify?_eq_some_iff {text : List Char} :
    classify? text = some (pattern, lexeme) ↔ FirstMatch text pattern lexeme := by
  unfold classify? FirstMatch
  rw [List.findSome?_eq_some_iff]
  simp only [Option.map_eq_some_iff, Option.map_eq_none_iff, Prod.mk.injEq]
  constructor
  · rintro ⟨before, found, after, htable, ⟨taken, htaken, rfl, rfl⟩, hbefore⟩
    exact ⟨before, after, htable, htaken, hbefore⟩
  · rintro ⟨before, after, htable, htaken, hbefore⟩
    exact ⟨before, pattern, after, htable, ⟨lexeme, htaken, rfl, rfl⟩, hbefore⟩

/-- The first pattern that matches is the same if the same ones match. -/
theorem classify?_of_isSome {text text' : List Char} (h : classify? text = some (pattern, lexeme))
    (hmatch : ∀ other ∈ table, (other.lexeme? text).isSome = (other.lexeme? text').isSome)
    (htaken : pattern.lexeme? text' = some lexeme) : classify? text' = some (pattern, lexeme) := by
  obtain ⟨before, after, htable, -, hbefore⟩ := classify?_eq_some_iff.mp h
  refine classify?_eq_some_iff.mpr ⟨before, after, htable, htaken, fun other hother => ?_⟩
  have hsame := hmatch other (htable ▸ List.mem_append_left _ hother)
  rw [hbefore other hother] at hsame
  exact Option.isNone_iff_eq_none.mp (Option.isSome_eq_false_iff.mp hsame.symm)

/-- Only a quoted text begins with a quote. -/
theorem eq_quoted_of_classify? (h : classify? ('"' :: cs) = some (pattern, lexeme)) :
    pattern = quoted := by
  have hblank : isWhiteSpace '"' = false := by decide
  have hword : isWordStart '"' = false := by decide
  have hdigit : '"'.isDigit = false := by decide
  have hothers : ∀ other ∈ table, other ≠ quoted → other.lexeme? ('"' :: cs) = none := by
    simp [table, lexeme?, run?, hblank, hword, hdigit]
  obtain ⟨hlisted, htaken⟩ := of_classify? h
  by_cases hquoted : pattern = quoted
  · exact hquoted
  · rw [hothers pattern hlisted hquoted] at htaken
    cases htaken

/-- **The class depends on no more than the character behind the lexeme.** -/
theorem classify?_congr (h : classify? (lexeme ++ rest) = some (pattern, lexeme))
    (hblank : pattern ≠ blank) (hcomment : pattern ≠ comment)
    (hhead : rest.headD '\n' = rest'.headD '\n') :
    classify? (lexeme ++ rest') = some (pattern, lexeme) := by
  have htaken := lexeme?_congr hblank hcomment (of_classify? h).2 hhead
  refine classify?_of_isSome h (fun other hother => ?_) htaken
  obtain ⟨c, cs, rfl⟩ := List.exists_cons_of_ne_nil (ne_nil_of_classify? h)
  have hsecond : (cs ++ rest).headD '\n' = (cs ++ rest').headD '\n' := by
    cases cs with
    | nil => exact hhead
    | cons d cs => rfl
  by_cases hquoted : other = quoted
  · subst hquoted
    by_cases hc : c = '"'
    · -- then it is a quoted text that has been taken, on both sides
      subst hc
      obtain rfl := eq_quoted_of_classify? h
      rw [(of_classify? h).2, htaken]
    · have hnone (text : List Char) : quoted.lexeme? (c :: text) = none :=
        by simp [lexeme?, hc]
      rw [List.cons_append, List.cons_append, hnone, hnone]
  · exact isSome_lexeme?_congr hother hquoted hsecond

/-! ### Words and numbers -/

theorem takeWhile_of_stop {among : Char → Bool} (hall : ∀ d ∈ cs, among d = true)
    (hstop : among (rest.headD '\n') = false) : (cs ++ rest).takeWhile among = cs := by
  rw [List.takeWhile_append_of_pos hall]
  cases rest with
  | nil => simp
  | cons d rest => simp_all

theorem code_of_isDigit (h : c.isDigit = true) : 48 ≤ c.toNat ∧ c.toNat ≤ 57 := by
  simp only [Char.isDigit, Bool.and_eq_true, decide_eq_true_eq, ge_iff_le,
    UInt32.le_iff_toNat_le] at h
  exact h

theorem code_of_isWordStart (h : isWordStart c = true) :
    c.toNat = 95 ∨ (65 ≤ c.toNat ∧ c.toNat ≤ 90) ∨ (97 ≤ c.toNat ∧ c.toNat ≤ 122) := by
  rcases Bool.or_eq_true_iff.mp h with hletter | hunderscore
  · rcases Bool.or_eq_true_iff.mp hletter with hupper | hlower
    · exact .inr (.inl (of_decide_eq_true hupper))
    · obtain ⟨hlow, hhigh⟩ := Bool.and_eq_true_iff.mp hlower
      exact .inr (.inr ⟨of_decide_eq_true hlow, of_decide_eq_true hhigh⟩)
  · rw [beq_iff_eq.mp hunderscore]
    exact .inl rfl

theorem not_isDigit_of_isWordStart (h : isWordStart c = true) : ¬ c.isDigit = true := by
  intro hdigit
  have := code_of_isWordStart h
  have := code_of_isDigit hdigit
  omega

theorem isWhiteSpace_of_isWordPart (h : isWordPart c = true) : isWhiteSpace c = false := by
  have hcode : 48 ≤ c.toNat ∧ c.toNat ≤ 122 := by
    rcases Bool.or_eq_true_iff.mp h with h | h
    · have := code_of_isWordStart h
      omega
    · have := code_of_isDigit h
      omega
  have hranges : ∀ range ∈ Text.whiteSpace, range.2 < 48 ∨ 122 < range.1 := by decide
  cases hblank : isWhiteSpace c with
  | false => rfl
  | true =>
    obtain ⟨range, hrange, hlow, hhigh⟩ := Text.CodePoints.contains_iff.mp hblank
    have := hranges range hrange
    omega

/-- A word or a number is neither a blank nor a comment. -/
theorem lexeme?_of_isWordPart (h : isWordPart c = true) (cs : List Char) :
    blank.lexeme? (c :: cs) = none ∧ comment.lexeme? (c :: cs) = none := by
  constructor
  · simp [lexeme?, run?, isWhiteSpace_of_isWordPart h]
  · refine lexeme?.eq_3 _ fun rest heq => ?_
    obtain rfl := (List.cons.inj heq).1
    exact absurd h (by decide)

theorem classify?_of_word (hc : isWordStart c = true) (hcs : ∀ d ∈ cs, isWordPart d = true)
    (hstop : isWordPart (rest.headD '\n') = false) :
    classify? (c :: (cs ++ rest)) = some (word, c :: cs) := by
  have hpart : isWordPart c = true := by simp [isWordPart, hc]
  obtain ⟨hblank, hcomment⟩ := lexeme?_of_isWordPart hpart (cs ++ rest)
  have hword : word.lexeme? (c :: (cs ++ rest)) = some (c :: cs) := by
    simp [lexeme?, hc, takeWhile_of_stop hcs hstop]
  simp only [classify?, table, List.findSome?_cons, hblank, hcomment, hword, Option.map_none,
    Option.map_some]

/-- Whether a text is a word, reserved or not. -/
def isWord : List Char → Bool
  | [] => false
  | c :: cs => isWordStart c && cs.all isWordPart

theorem classify?_of_isWord {text : List Char} (h : isWord text = true)
    (hstop : isWordPart (rest.headD '\n') = false) :
    classify? (text ++ rest) = some (word, text) := by
  cases text with
  | nil => cases h
  | cons c cs =>
    obtain ⟨hc, hcs⟩ := Bool.and_eq_true_iff.mp h
    exact classify?_of_word hc (List.all_eq_true.mp hcs) hstop

theorem classify?_of_digits (hc : c.isDigit = true) (hcs : ∀ d ∈ cs, d.isDigit = true)
    (hstop : (rest.headD '\n').isDigit = false) :
    classify? (c :: (cs ++ rest)) = some (digits, c :: cs) := by
  have hpart : isWordPart c = true := by simp [isWordPart, hc]
  obtain ⟨hblank, hcomment⟩ := lexeme?_of_isWordPart hpart (cs ++ rest)
  have hword : word.lexeme? (c :: (cs ++ rest)) = none := by
    have hstart : isWordStart c ≠ true := fun hstart => not_isDigit_of_isWordStart hstart hc
    simp [lexeme?, hstart]
  have hdigits : digits.lexeme? (c :: (cs ++ rest)) = some (c :: cs) := by
    simp [lexeme?, run?, hc, takeWhile_of_stop hcs hstop]
  simp only [classify?, table, List.findSome?_cons, hblank, hcomment, hword, hdigits,
    Option.map_none, Option.map_some]

end Pattern

end ScriptFront
